import ResourceApi.Proofs.Disk.Rewriting
import ResourceApi.Proofs.Json.LineEnds
import ResourceApi.Proofs.Json.ReadStorable
import ResourceApi.Proofs.Resource.NormalForm
import ResourceApi.Resource.File

/-! # Stored schemas

A schema that was loaded can be stored, and so can its normal form. What is stored is
loaded again as it was, the order of fields and all numbers included. So the files that
a run may have normalized hold, if not what they held at its start, the normal forms of
that, and normalizing them again gives the same. Only a file whose normal form holds half
of a surrogate pair is spoilt when it is to be written back. -/

namespace ResourceApi

/-! ## What is stored -/

theorem Json.Storable.distinct {v : Json} (storable : v.Storable) : v.Distinct := by
  refine Json.throughout_mono (fun w here => ?_) v storable
  cases w with
  | obj fields => exact here
  | null | bool | int | float | str | arr => rfl

theorem onNames_storableHere : Required.OnNames Json.storableHere where
  list _ := rfl
  text _ := rfl
  names := onNames_namesDistinct.names
  put := onNames_namesDistinct.put

theorem normalForm_storable {schema normal : Fields Json} (h : normalForm schema = .ok normal)
    (storable : (Json.obj schema).Storable) : (Json.obj normal).Storable :=
  normalForm_throughout onNames_storableHere h storable

namespace SchemaFile

/-- What is parsed is an object that was read. -/
theorem parse_eq_ok {p : Path} {text : String} {schema : Fields Json} :
    parse p text = .ok schema ↔ Json.read text = .ok (.obj schema) := by
  rw [parse.eq_def]
  cases Json.read text with
  | error e =>
    obtain ⟨fault, line, column⟩ := e
    cases fault <;> simp
  | ok v => cases v <;> simp

theorem load_eq_ok {d : Disk} {p : Path} {schema : Fields Json} :
    load d p = .ok schema ↔ ∃ bytes text, d.readBytes p = .ok bytes ∧
      textOfBytes bytes = .ok text ∧ Json.read text = .ok (.obj schema) := by
  rw [load.eq_def]
  cases d.readBytes p with
  | error reason => cases reason <;> simp
  | ok bytes =>
    cases read : textOfBytes bytes with
    | error fault => simp [read]
    | ok text => simp [read, parse_eq_ok]

theorem load_storable {d : Disk} {p : Path} {schema : Fields Json}
    (loaded : load d p = .ok schema) : (Json.obj schema).Storable := by
  obtain ⟨bytes, text, -, -, read⟩ := load_eq_ok.1 loaded
  exact Json.storable_of_read read

/-- What is loaded names no field twice, and has its normal form once and for all. -/
theorem load_normalForm {d : Disk} {p : Path} {schema normal : Fields Json}
    (loaded : load d p = .ok schema) (h : normalForm schema = .ok normal) :
    normalForm normal = .ok normal :=
  normalForm_of_normalForm (load_storable loaded).distinct h

/-! ## Storing and loading -/

/-- The bytes of a text are the text, every line ended by a line feed. -/
theorem textOfBytes_unified (text : String) :
    textOfBytes text.toUTF8 = .ok (String.ofList (Text.unifyLineEnds text.toList)) := by
  have decoded : String.fromUTF8? text.toUTF8 = some text := by
    rw [String.fromUTF8?, dif_pos (show text.toUTF8.IsValidUTF8 from text.isValidUTF8)]
    rfl
  rw [textOfBytes, decoded]

theorem textOfBytes_toUTF8 {text : String} (noReturn : Json.NoReturn text.toList) :
    textOfBytes text.toUTF8 = .ok text := by
  rw [textOfBytes_unified, Text.unifyLineEnds_eq_self noReturn, String.ofList_toList]

theorem noReturn_text (schema : Fields Json) : Json.NoReturn (text schema).toList := by
  rw [text, String.toList_append, Json.indented, String.toList_ofList]
  exact Json.noReturn_append.2 ⟨Json.noReturn_writeIndented _ _, by decide⟩

/-- **A stored schema is loaded as it was.** -/
theorem load_text {d : Disk} {p : Path} {schema : Fields Json}
    (storable : (Json.obj schema).Storable)
    (held : d.readBytes p = .ok (text schema).toUTF8) : load d p = .ok schema :=
  load_eq_ok.2 ⟨_, _, held, textOfBytes_toUTF8 (noReturn_text schema), Json.read_indented storable⟩

/-- A schema that can be stored is, if its text is written. -/
theorem store_of_writeText {d d' : Disk} {p : Path} {schema : Fields Json}
    (storable : (Json.obj schema).Storable) (written : d.writeText p (text schema) = .ok d') :
    store d p schema = ⟨d', [.normalized p.toString], .ok schema⟩ := by
  rw [store, storable.longInt?_eq_none]
  dsimp only
  rw [written]

/-! ## Halves of surrogate pairs -/

section Halves

variable {d d' : Disk} {p q : Path} {schema : Fields Json}

/-- A text from which the same is read, whatever stands for halves, holds none. -/
theorem holdsHalf_of_whole {content : String}
    (whole : ∀ half, Json.readWith half content = Json.read content) :
    holdsHalf content = false := by
  rw [holdsHalf, normalWith, normalWith, whole, whole, decide_eq_false_iff_not, not_not]

/-- The text of a schema that can be stored reads as the schema, whatever stands for halves. -/
theorem whole_text (storable : (Json.obj schema).Storable) (half : Char) :
    Json.readWith half (text schema) = Json.read (text schema) :=
  (Json.readWith_indented storable half).trans (Json.read_indented storable).symm

/-- It hangs on the bytes that are read. -/
theorem halved_of_readBytes (same : d'.readBytes q = d.readBytes p) : halved d' q = halved d p := by
  rw [halved, halved, same]

theorem halved_eq {bytes : ByteArray} {content : String} (read : d.readBytes p = .ok bytes)
    (decoded : textOfBytes bytes = .ok content) : halved d p = holdsHalf content := by
  rw [halved, read]
  dsimp only
  rw [decoded]

theorem halved_of_text (storable : (Json.obj schema).Storable)
    (held : d.readBytes p = .ok (text schema).toUTF8) : halved d p = false := by
  rw [halved_eq held (textOfBytes_toUTF8 (noReturn_text schema)),
    holdsHalf_of_whole (whole_text storable)]

end Halves

/-! ## Normalizing files -/

/-- A file that was loaded can be spoilt. -/
theorem spoil_of_load {d : Disk} {p : Path} {schema : Fields Json}
    (loaded : load d p = .ok schema) :
    ∃ d', d.writeText p "" = .ok d' ∧ (spoil d p).disk = d' ∧
      (spoil d p).result = .error (.notUnicode .encoding) := by
  obtain ⟨bytes, content, read, -, -⟩ := load_eq_ok.1 loaded
  obtain ⟨d', written, -⟩ := Disk.writeText_of_readBytes read ""
  rw [spoil, written]
  exact ⟨d', rfl, rfl, rfl⟩

/-- What is loaded depends on the bytes that are read. -/
theorem load_congr {d d' : Disk} {p : Path} (same : d'.readBytes p = d.readBytes p) :
    load d' p = load d p := by
  rw [load, load, same]

/-- Two paths that read the same bytes load the same schema, though not with the same messages. -/
theorem load_of_readBytes {d : Disk} {p q : Path} {schema : Fields Json}
    (same : d.readBytes q = d.readBytes p) (loaded : load d p = .ok schema) :
    load d q = .ok schema := by
  obtain ⟨bytes, content, read, decoded⟩ := load_eq_ok.1 loaded
  exact load_eq_ok.2 ⟨bytes, content, same.trans read, decoded⟩

/-- The normal form of what a file holds, as normalizing the file gives it. -/
def normalized (d : Disk) (p : Path) : Except Halt (Fields Json) := do
  let schema ← load d p
  (normalForm schema).mapError (problem p)

theorem normalized_eq_ok {d : Disk} {p : Path} {normal : Fields Json} :
    normalized d p = .ok normal ↔
      ∃ schema, load d p = .ok schema ∧ normalForm schema = .ok normal := by
  rw [normalized, Results.bind_eq_ok]
  simp only [Results.mapError_eq_ok]

/-- A file whose normal form cannot be given has a problem, or cannot be loaded. -/
theorem normalized_eq_error {d : Disk} {p : Path} {h : Halt} (failed : normalized d p = .error h) :
    (∃ e, h = .schema e) ∨ load d p = .error h := by
  unfold normalized at failed
  cases loaded : load d p with
  | error halt =>
    rw [loaded, Results.error_bind] at failed
    exact Or.inr (congrArg _ (Except.error.inj failed))
  | ok schema =>
    rw [loaded, Results.ok_bind] at failed
    cases normal : normalForm schema with
    | error cause =>
      rw [normal] at failed
      exact Or.inl ⟨_, (Except.error.inj failed).symm⟩
    | ok normal' =>
      rw [normal] at failed
      cases failed

/-- What normalizing a file comes to: the normal form, unless it is to be written back and holds
half of a surrogate pair. -/
def normalizedFor (write : Bool) (d : Disk) (p : Path) : Except Halt (Fields Json) := do
  let normal ← normalized d p
  if write && halved d p then .error (.notUnicode .encoding) else .ok normal

/-- Normalizing the file spoils it. -/
def Spoils (write : Bool) (d : Disk) (p : Path) : Prop :=
  write = true ∧ halved d p = true ∧ ∃ normal, normalized d p = .ok normal

section

variable {write : Bool} {d : Disk} {p : Path} {normal : Fields Json}

theorem normalizedFor_eq_ok : normalizedFor write d p = .ok normal ↔
    normalized d p = .ok normal ∧ ¬ Spoils write d p := by
  rw [normalizedFor, Results.bind_eq_ok, Spoils]
  constructor
  · rintro ⟨_, reached, kept⟩
    split at kept
    · cases kept
    · next unhalved =>
      cases kept
      rw [Bool.and_eq_true] at unhalved
      exact ⟨reached, fun spoils => unhalved ⟨spoils.1, spoils.2.1⟩⟩
  · rintro ⟨reached, kept⟩
    refine ⟨_, reached, if_neg fun halved => ?_⟩
    rw [Bool.and_eq_true] at halved
    exact kept ⟨halved.1, halved.2, _, reached⟩

theorem not_spoils_of_unhalved (unhalved : halved d p = false) (write : Bool) :
    ¬ Spoils write d p := by
  rintro ⟨-, isHalved, -⟩
  rw [unhalved] at isHalved
  cases isHalved

theorem halved_of_not_spoils (kept : ¬ Spoils true d p) (reached : normalized d p = .ok normal) :
    halved d p = false := by
  rw [← Bool.not_eq_true]
  exact fun halved => kept ⟨rfl, halved, _, reached⟩

theorem normalizedFor_of_spoils (spoils : Spoils write d p) :
    normalizedFor write d p = .error (.notUnicode .encoding) := by
  obtain ⟨rfl, halved, normal, reached⟩ := spoils
  rw [normalizedFor, reached, Results.ok_bind, halved]
  rfl

/-- Only a file that is spoilt has another outcome when it is written back. -/
theorem normalizedFor_of_not_spoils (kept : ¬ Spoils write d p) :
    normalizedFor write d p = normalized d p := by
  cases reached : normalized d p with
  | ok normal => exact normalizedFor_eq_ok.2 ⟨reached, kept⟩
  | error h => rw [normalizedFor, reached, Results.error_bind]

/-- A file that holds the text of a schema comes to the normal form of that. -/
theorem normalizedFor_of_text {schema : Fields Json} (storable : (Json.obj schema).Storable)
    (held : d.readBytes p = .ok (text schema).toUTF8) (h : normalForm schema = .ok normal)
    (write : Bool) : normalizedFor write d p = .ok normal :=
  normalizedFor_eq_ok.2 ⟨normalized_eq_ok.2 ⟨schema, load_text storable held, h⟩,
    not_spoils_of_unhalved (halved_of_text storable held) write⟩

/-- A file that has a normal form is left as it is, or the normal form takes its place. -/
theorem normalize_of_normalized (reached : normalized d p = .ok normal) :
    ((normalize d p false).disk = d ∧ (normalize d p false).result = .ok normal) ∧
      (normalize d p true).disk = (replace d p normal).disk ∧
      (normalize d p true).result = (replace d p normal).result := by
  obtain ⟨schema, loaded, h⟩ := normalized_eq_ok.1 reached
  rw [normalize.eq_def, normalize.eq_def, loaded]
  dsimp only
  rw [h]
  exact ⟨⟨rfl, rfl⟩, rfl, rfl⟩

/-- A file that has no normal form is left as it is. -/
theorem normalize_of_failed {h : Halt} (failed : normalized d p = .error h) (write : Bool) :
    (normalize d p write).disk = d ∧ (normalize d p write).result = .error h := by
  rw [normalized] at failed
  rw [normalize.eq_def]
  cases loaded : load d p with
  | error halt =>
    rw [loaded, Results.error_bind] at failed
    exact ⟨rfl, failed⟩
  | ok schema =>
    rw [loaded, Results.ok_bind] at failed
    dsimp only
    rw [Outcome.andThen_error _ failed]
    exact ⟨rfl, rfl⟩

end

/-- The second disk holds what the first one holds, or normal forms of that without halves. -/
def Rewritten (d d' : Disk) : Prop :=
  ∀ p, halved d' p = halved d p ∧ (load d' p = load d p ∨
    ∃ schema normal, load d p = .ok schema ∧ normalForm schema = .ok normal ∧
      load d' p = .ok normal)

variable {d d₀ : Disk} {p : Path} {write : Bool}

theorem Rewritten.refl (d : Disk) : Rewritten d d := fun _ => ⟨rfl, Or.inl rfl⟩

/-- Files that may have been normalized have the same normal forms as before. -/
theorem Rewritten.normalized_eq (rewritten : Rewritten d₀ d) (p : Path) :
    normalized d p = normalized d₀ p := by
  rcases (rewritten p).2 with same | ⟨schema, normal, loaded, h, loaded'⟩
  · rw [normalized, normalized, same]
  · rw [normalized, normalized, loaded, loaded', Results.ok_bind, Results.ok_bind, h,
      load_normalForm loaded h]

/-- Normalizing spoils the same files as before. -/
theorem Rewritten.spoils_iff (rewritten : Rewritten d₀ d) (write : Bool) (p : Path) :
    Spoils write d p ↔ Spoils write d₀ p := by
  rw [Spoils, Spoils, (rewritten p).1, rewritten.normalized_eq]

theorem Rewritten.normalizedFor_eq (rewritten : Rewritten d₀ d) (write : Bool) (p : Path) :
    normalizedFor write d p = normalizedFor write d₀ p := by
  rw [normalizedFor, normalizedFor, (rewritten p).1, rewritten.normalized_eq]

/-- Storing a normal form in place of its schema leaves normal forms of what there was. -/
theorem Rewritten.of_store {schema normal : Fields Json} (rewritten : Rewritten d₀ d)
    (loaded : load d p = .ok schema) (h : normalForm schema = .ok normal)
    (unhalved : halved d p = false) :
    (store d p normal).result = .ok normal ∧ Rewritten d₀ (store d p normal).disk := by
  obtain ⟨bytes, content, read, decoded, parsed⟩ := load_eq_ok.1 loaded
  obtain ⟨d', written, reads⟩ := Disk.writeText_of_readBytes read (text normal)
  have storable := normalForm_storable h (load_storable loaded)
  rw [store_of_writeText storable written]
  refine ⟨rfl, fun q => ?_⟩
  by_cases same : d.locate q = d.locate p
  · obtain ⟨before, after⟩ := (reads q).1 same
    have loaded' : load d q = .ok schema := load_eq_ok.2 ⟨bytes, content, before, decoded, parsed⟩
    have now : load d' q = .ok normal := load_text storable after
    obtain ⟨sameHalves, held⟩ := rewritten q
    have halves : halved d' q = halved d₀ q := by
      rw [← sameHalves, halved_of_readBytes (before.trans read.symm), unhalved,
        halved_of_text storable after]
    refine ⟨halves, Or.inr ?_⟩
    rcases held with kept | ⟨schema₀, normal₀, loaded₀, h₀, held⟩
    · exact ⟨schema, normal, kept ▸ loaded', h, now⟩
    · -- The file holds a normal form, which is its own normal form.
      obtain rfl : schema = normal₀ := Except.ok.inj (loaded'.symm.trans held)
      obtain rfl : normal = schema := Except.ok.inj (h.symm.trans (load_normalForm loaded₀ h₀))
      exact ⟨schema₀, normal, loaded₀, h₀, now⟩
  · have unchanged := (reads q).2 same
    rw [load_congr unchanged, halved_of_readBytes unchanged]
    exact rewritten q

/-- **Normalizing a file** gives the normal form of what it holds, unless it is to be written back
and cannot be. -/
theorem normalize_result (write : Bool) (d : Disk) (p : Path) :
    (normalize d p write).result = normalizedFor write d p := by
  cases reached : normalized d p with
  | error h =>
    rw [(normalize_of_failed reached write).2, normalizedFor, reached, Results.error_bind]
  | ok normal =>
    obtain ⟨⟨-, still⟩, -, written⟩ := normalize_of_normalized reached
    rw [normalizedFor, reached, Results.ok_bind]
    cases write with
    | false => exact still
    | true =>
      obtain ⟨schema, loaded, h⟩ := normalized_eq_ok.1 reached
      rw [written, replace, Bool.true_and]
      cases unhalved : halved d p with
      | false => exact ((Rewritten.refl d).of_store loaded h unhalved).1
      | true =>
        obtain ⟨d', -, -, stopped⟩ := spoil_of_load loaded
        exact stopped

/-- **A file that is normalized** without being spoilt leaves a disk that holds normal forms of what
there was. -/
theorem Rewritten.normalize (rewritten : Rewritten d₀ d) (kept : ¬ Spoils write d p) :
    Rewritten d₀ (normalize d p write).disk := by
  cases reached : normalized d p with
  | error h => rwa [(normalize_of_failed reached write).1]
  | ok normal =>
    obtain ⟨⟨still, -⟩, written, -⟩ := normalize_of_normalized reached
    cases write with
    | false => rwa [still]
    | true =>
      obtain ⟨schema, loaded, h⟩ := normalized_eq_ok.1 reached
      have unhalved := halved_of_not_spoils kept reached
      rw [written, replace, unhalved]
      exact (rewritten.of_store loaded h unhalved).2

end SchemaFile
end ResourceApi
