import ResourceApi.Proofs.Disk.Growth
import ResourceApi.Proofs.Resource.StoredFile

/-! # Files in normal form

What normalizing a file does to the disk. A file is in normal form if it holds the very
text of its schema's normal form; then normalizing it changes nothing. Normalizing a file
brings it into normal form, or spoils it, and takes no other file out of it. -/

namespace ResourceApi.SchemaFile

variable {d d' : Disk} {p q : Path} {normal : Fields Json} {write : Bool}

/-- The disk that normalizing the file at a path leaves: nothing has changed, or the file holds the
text of the normal form, or it was spoilt and is empty. -/
inductive Writing (d : Disk) (p : Path) (write : Bool) : Disk → Prop
  | nothing : (write = true → ∀ normal, normalized d p ≠ .ok normal) → Writing d p write d
  | stored {normal : Fields Json} {l : Location} {old : ByteArray} :
    write = true → normalized d p = .ok normal → halved d p = false → d.locate p = .ok l →
    d.find? l = some (.file old) → Writing d p write (d.set l (.file (text normal).toUTF8))
  | spoilt {l : Location} {old : ByteArray} :
    Spoils write d p → d.locate p = .ok l → d.find? l = some (.file old) →
    Writing d p write (d.set l (.file "".toUTF8))

/-- A file that has a normal form is there. -/
theorem located_of_normalized (reached : normalized d p = .ok normal) :
    ∃ l old, d.locate p = .ok l ∧ d.find? l = some (.file old) := by
  obtain ⟨schema, loaded, -⟩ := normalized_eq_ok.1 reached
  obtain ⟨old, content, read, -, -⟩ := load_eq_ok.1 loaded
  obtain ⟨l, leads, held⟩ := Disk.readBytes_eq_ok.1 read
  exact ⟨l, old, leads, held⟩

/-- Writing the normal form of a file back sets the file's entry. -/
theorem normalize_of_unhalved {l : Location} {old : ByteArray}
    (reached : normalized d p = .ok normal) (unhalved : halved d p = false)
    (leads : d.locate p = .ok l) (held : d.find? l = some (.file old)) :
    (normalize d p true).disk = d.set l (.file (text normal).toUTF8) := by
  obtain ⟨schema, loaded, h⟩ := normalized_eq_ok.1 reached
  have written : d.writeText p (text normal) = .ok (d.set l (.file (text normal).toUTF8)) := by
    rw [Disk.writeText, Disk.writeBytes, leads, Results.ok_bind, held]
  rw [(normalize_of_normalized reached).2.1, replace, unhalved]
  exact congrArg Outcome.disk
    (store_of_writeText (normalForm_storable h (load_storable loaded)) written)

theorem writing_normalize (d : Disk) (p : Path) (write : Bool) :
    Writing d p write (normalize d p write).disk := by
  cases reached : normalized d p with
  | error h =>
    rw [(normalize_of_failed reached write).1]
    refine .nothing fun _ normal given => ?_
    rw [reached] at given
    cases given
  | ok normal =>
    cases write with
    | false =>
      rw [(normalize_of_normalized reached).1.1]
      exact .nothing fun on => by cases on
    | true =>
      obtain ⟨l, old, leads, held⟩ := located_of_normalized reached
      cases isHalved : halved d p with
      | false =>
        rw [normalize_of_unhalved reached isHalved leads held]
        exact .stored rfl reached isHalved leads held
      | true =>
        have emptied : (normalize d p true).disk = d.set l (.file "".toUTF8) := by
          rw [(normalize_of_normalized reached).2.1, replace, isHalved, if_pos rfl, spoil,
            Disk.writeText, Disk.writeBytes, leads, Results.ok_bind, held]
        rw [emptied]
        exact .spoilt ⟨rfl, isHalved, normal, reached⟩ leads held

/-- Without writing, nothing changes. -/
theorem disk_of_not_write (d : Disk) (p : Path) : (normalize d p false).disk = d := by
  generalize left : (normalize d p false).disk = d'
  have writing := left ▸ writing_normalize d p false
  cases writing with
  | nothing => rfl
  | stored on => cases on
  | spoilt spoils => cases spoils.1

/-- Normalizing adds nothing, and leaves files and directories what they are. -/
theorem grown_normalize (output : Location) (d : Disk) (p : Path) (write : Bool) :
    Disk.Grown output d (normalize d p write).disk := by
  generalize left : (normalize d p write).disk = d'
  have writing := left ▸ writing_normalize d p write
  have rewritten {l : Location} {old new : ByteArray} (held : d.find? l = some (.file old)) :
      Disk.Grown output d (d.set l (.file new)) := by
    refine .set (Disk.ne_nil_of_file held) (fun before => ?_) (fun absent => ?_)
    · rw [held] at before
      cases before
      rfl
    · rw [held] at absent
      cases absent
  cases writing with
  | nothing => exact .refl output d
  | stored _ _ _ _ held => exact rewritten held
  | spoilt _ _ held => exact rewritten held

/-! ## Files that normalizing leaves as they are -/

/-- The file at a path holds the text of its schema's normal form, if the schema has one. -/
def InNormalForm (d : Disk) (p : Path) : Prop :=
  ∀ normal, normalized d p = .ok normal → d.readBytes p = .ok (text normal).toUTF8

theorem normalized_congr (same : d'.readBytes p = d.readBytes p) :
    normalized d' p = normalized d p := by
  rw [normalized, normalized, load_congr same]

theorem normalizedFor_congr (same : d'.readBytes p = d.readBytes p) (write : Bool) :
    normalizedFor write d' p = normalizedFor write d p := by
  rw [normalizedFor, normalizedFor, normalized_congr same, halved_of_readBytes same]

theorem normalized_of_readBytes (same : d.readBytes q = d.readBytes p)
    (reached : normalized d p = .ok normal) : normalized d q = .ok normal := by
  obtain ⟨schema, loaded, h⟩ := normalized_eq_ok.1 reached
  exact normalized_eq_ok.2 ⟨schema, load_of_readBytes same loaded, h⟩

/-- An empty file has no normal form. -/
theorem normalized_of_empty (held : d.readBytes p = .ok "".toUTF8) :
    normalized d p ≠ .ok normal := by
  intro reached
  obtain ⟨schema, loaded, -⟩ := normalized_eq_ok.1 reached
  obtain ⟨bytes, content, read, decoded, parsed⟩ := load_eq_ok.1 loaded
  cases held.symm.trans read
  cases (textOfBytes_toUTF8 (by decide)).symm.trans decoded
  cases parsed

theorem InNormalForm.congr (h : InNormalForm d p) (same : d'.readBytes p = d.readBytes p) :
    InNormalForm d' p := by
  intro normal reached
  rw [normalized_congr same] at reached
  exact same.trans (h normal reached)

/-- A file in normal form is not spoilt. -/
theorem InNormalForm.not_spoils (h : InNormalForm d p) (write : Bool) : ¬ Spoils write d p := by
  intro spoils
  obtain ⟨normal, reached⟩ := spoils.2.2
  obtain ⟨schema, loaded, isNormal⟩ := normalized_eq_ok.1 reached
  have unhalved :=
    halved_of_text (normalForm_storable isNormal (load_storable loaded)) (h _ reached)
  exact not_spoils_of_unhalved unhalved write spoils

/-- A file in normal form is left as it is. -/
theorem InNormalForm.disk_eq (h : InNormalForm d p) (write : Bool) :
    (normalize d p write).disk = d := by
  generalize left : (normalize d p write).disk = d'
  have writing := left ▸ writing_normalize d p write
  cases writing with
  | nothing => rfl
  | stored on reached _ leads held =>
    obtain ⟨l, leads', held'⟩ := Disk.readBytes_eq_ok.1 (h _ reached)
    obtain rfl := Except.ok.inj (leads.symm.trans leads')
    exact Disk.set_of_find? (Disk.ne_nil_of_file held') held'
  | spoilt spoils => exact absurd spoils (h.not_spoils write)

/-- Normalizing a file brings it into normal form, or leaves it empty. -/
theorem inNormalForm_normalize (d : Disk) (p : Path) :
    InNormalForm (normalize d p true).disk p := by
  have again (kept : ¬ Spoils true d p) := ((Rewritten.refl d).normalize kept).normalized_eq p
  have writing := writing_normalize d p true
  generalize (normalize d p true).disk = d' at again writing
  intro normal reached
  cases writing with
  | nothing failed => exact absurd reached (failed rfl normal)
  | stored _ reached' unhalved leads held =>
    rw [again (not_spoils_of_unhalved unhalved true)] at reached
    obtain rfl := Except.ok.inj (reached.symm.trans reached')
    exact Disk.readBytes_set held _ leads
  | spoilt _ leads held =>
    exact absurd reached (normalized_of_empty (Disk.readBytes_set held _ leads))

/-- Normalizing a file takes no file out of normal form, whichever paths lead to it. -/
theorem InNormalForm.normalize (h : InNormalForm d p) (q : Path) (write : Bool) :
    InNormalForm (normalize d q write).disk p := by
  have again (kept : ¬ Spoils write d q) := ((Rewritten.refl d).normalize kept).normalized_eq p
  have writing := writing_normalize d q write
  generalize (SchemaFile.normalize d q write).disk = d' at again writing
  cases writing with
  | nothing => exact h
  | @stored stored l old _ reached unhalved leads held =>
    by_cases here : d.locate p = .ok l
    · -- both paths lead to the file, whose normal form was written
      have same := Disk.readBytes_of_locate (here.trans leads.symm)
      intro normal reached'
      rw [again (not_spoils_of_unhalved unhalved write), normalized_of_readBytes same reached]
        at reached'
      cases reached'
      exact Disk.readBytes_set held _ here
    · exact h.congr (Disk.readBytes_set_of_ne held _ here)
  | @spoilt l old spoils leads held =>
    by_cases here : d.locate p = .ok l
    · exact fun normal reached =>
        absurd reached (normalized_of_empty (Disk.readBytes_set held _ here))
    · exact h.congr (Disk.readBytes_set_of_ne held _ here)

end ResourceApi.SchemaFile
