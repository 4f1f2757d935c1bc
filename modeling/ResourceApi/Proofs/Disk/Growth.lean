import ResourceApi.Proofs.Disk.Rewriting

/-! # Growing disks

A run gives files new bytes, makes directories and adds one file, its output. A disk
that has grown in this way still has every directory and every file where it was, so
that paths lead where they led, and lists what it lists before what is new. Making
directories that are there and writing what is there changes nothing. -/

namespace ResourceApi

def Entry.isFile : Entry → Bool
  | .directory => false
  | .file _ => true

namespace Disk

/-- The places of the entries, in their order. -/
def places (d : Disk) : List Location := d.entries.map (·.1)

theorem places_setEntry (entries : List (Location × Entry)) (l : Location) (e : Entry) :
    (setEntry entries l e).map (·.1) =
      if l ∈ entries.map (·.1) then entries.map (·.1) else entries.map (·.1) ++ [l] := by
  induction entries with
  | nil => simp [setEntry]
  | cons x rest ih =>
    by_cases h : x.1 = l
    · simp [setEntry, h]
    · simp only [setEntry, if_neg h, List.map_cons, ih, List.mem_cons, Ne.symm h, false_or]
      split <;> simp

theorem places_set (d : Disk) (l : Location) (e : Entry) :
    (d.set l e).places = if l ∈ d.places then d.places else d.places ++ [l] :=
  places_setEntry d.entries l e

theorem find?_eq_none {d : Disk} {l : Location} (named : l ≠ []) :
    d.find? l = none ↔ l ∉ d.places := by
  rw [find?, if_neg named, List.lookup_eq_none_iff, places, List.mem_map]
  constructor
  · rintro other ⟨x, mem, same⟩
    exact bne_iff_ne.1 (other x mem) same.symm
  · intro other x mem
    exact bne_iff_ne.2 fun same => other ⟨x, mem, same.symm⟩

theorem setEntry_of_lookup {entries : List (Location × Entry)} {l : Location} {e : Entry}
    (held : entries.lookup l = some e) : setEntry entries l e = entries := by
  induction entries with
  | nil => cases held
  | cons x rest ih =>
    obtain ⟨k, y⟩ := x
    by_cases h : k = l
    · subst h
      rw [List.lookup_cons_self] at held
      cases held
      rw [setEntry, if_pos rfl]
    · rw [List.lookup_cons, beq_eq_false_iff_ne.2 (Ne.symm h)] at held
      rw [setEntry, if_neg h, ih held]

/-- Setting what is there changes nothing. -/
theorem set_of_find? {d : Disk} {l : Location} {e : Entry} (named : l ≠ [])
    (held : d.find? l = some e) : d.set l e = d := by
  rw [find?, if_neg named] at held
  rw [set, setEntry_of_lookup held]

/-! ## What stays -/

/-- The second disk is the first one with entries added, of which only the output is a file;
the files may have been given new bytes. -/
structure Grown (output : Location) (d d' : Disk) : Prop where
  home : d'.home = d.home
  /-- Files stay files, and directories stay directories. -/
  kept : ∀ {k e}, d.find? k = some e → ∃ e', d'.find? k = some e' ∧ e'.isFile = e.isFile
  added : ∀ {k bytes}, d.find? k = none → d'.find? k = some (.file bytes) → k = output
  places : ∃ new, d'.places = d.places ++ new ∧ ∀ k ∈ new, d.find? k = none

/-- The second disk has grown from the first one, and the bytes of all files but the output are
what they were. -/
structure Extended (output : Location) (d d' : Disk) : Prop extends Grown output d d' where
  files : ∀ {k bytes}, k ≠ output → d.find? k = some (.file bytes) →
    d'.find? k = some (.file bytes)

variable {d d' d'' : Disk} {p : Path} {k l output : Location} {e : Entry}

namespace Grown

theorem refl (output : Location) (d : Disk) : Grown output d d where
  home := rfl
  kept held := ⟨_, held, rfl⟩
  added absent held := by
    rw [absent] at held
    cases held
  places := ⟨[], (List.append_nil _).symm, fun _ mem => absurd mem List.not_mem_nil⟩

theorem absent_of_absent (grown : Grown output d d') (absent : d'.find? k = none) :
    d.find? k = none := by
  cases before : d.find? k with
  | none => rfl
  | some e =>
    obtain ⟨e', held, -⟩ := grown.kept before
    rw [absent] at held
    cases held

theorem trans (first : Grown output d d') (second : Grown output d' d'') :
    Grown output d d'' where
  home := second.home.trans first.home
  kept held := by
    obtain ⟨e', held', kind'⟩ := first.kept held
    obtain ⟨e'', held'', kind''⟩ := second.kept held'
    exact ⟨e'', held'', kind''.trans kind'⟩
  added := by
    intro k bytes absent held
    cases between : d'.find? k with
    | none => exact second.added between held
    | some e =>
      obtain ⟨e'', held'', kind⟩ := second.kept between
      rw [held] at held''
      cases held''
      cases e with
      | directory => cases kind
      | file bytes' => exact first.added absent between
  places := by
    obtain ⟨new, places, fresh⟩ := first.places
    obtain ⟨new', places', fresh'⟩ := second.places
    refine ⟨new ++ new', by rw [places', places, List.append_assoc], fun k mem => ?_⟩
    rcases List.mem_append.1 mem with early | late
    · exact fresh k early
    · exact first.absent_of_absent (fresh' k late)

/-- An entry may be set in place of one of its kind, or where nothing is if it is a directory or
the output. -/
theorem set (named : l ≠ []) (kind : ∀ {old}, d.find? l = some old → e.isFile = old.isFile)
    (fresh : d.find? l = none → e.isFile = true → l = output) : Grown output d (d.set l e) where
  home := rfl
  kept := by
    intro k x held
    rw [find?_set d k e named]
    split
    · next same =>
      subst same
      exact ⟨e, rfl, kind held⟩
    · exact ⟨x, held, rfl⟩
  added := by
    intro k bytes absent held
    rw [find?_set d k e named] at held
    split at held
    · next same =>
      subst same
      cases held
      exact fresh absent rfl
    · rw [absent] at held
      cases held
  places := by
    rw [places_set]
    split
    · exact ⟨[], (List.append_nil _).symm, fun _ mem => absurd mem List.not_mem_nil⟩
    · next absent =>
      refine ⟨[l], rfl, fun k mem => ?_⟩
      rw [List.mem_singleton.1 mem]
      exact (find?_eq_none named).2 absent

theorem directory (grown : Grown output d d') (held : d.find? k = some .directory) :
    d'.find? k = some .directory := by
  obtain ⟨e', held', kind⟩ := grown.kept held
  cases e' with
  | directory => exact held'
  | file bytes => cases kind

/-- Names that could be followed lead to the same place. -/
theorem follow (grown : Grown output d d') {names : List String}
    (leads : d.follow k names = .ok l) : d'.follow k names = .ok l := by
  induction names generalizing k with
  | nil => exact leads
  | cons name rest ih =>
    rw [Disk.follow] at leads ⊢
    cases held : d.find? k with
    | none =>
      rw [held] at leads
      cases leads
    | some e =>
      cases e with
      | file bytes =>
        rw [held] at leads
        cases leads
      | directory =>
        rw [held] at leads
        rw [grown.directory held]
        dsimp only at leads ⊢
        split at leads
        · next up => rw [if_pos up, ih leads]
        · next down =>
          split at leads
          · cases leads
          · next fits => rw [if_neg down, if_neg fits, ih leads]

theorem locate (grown : Grown output d d') (leads : d.locate p = .ok l) :
    d'.locate p = .ok l := by
  obtain ⟨⟨⟩, taken, followed⟩ := Results.bind_eq_ok.1 leads
  refine Results.bind_eq_ok.2 ⟨(), taken, ?_⟩
  rw [grown.home]
  exact grown.follow followed

end Grown

/-- The root is a directory. -/
theorem ne_nil_of_not_directory (other : d.find? l ≠ some .directory) : l ≠ [] := by
  rintro rfl
  exact other rfl

/-! ## Looking up -/

theorem lookup_eq_ok : d.lookup p = .ok e ↔ ∃ l, d.locate p = .ok l ∧ d.find? l = some e := by
  rw [lookup, Results.bind_eq_ok]
  refine exists_congr fun l => and_congr_right fun _ => ?_
  cases d.find? l <;> simp

theorem isDirectory_of_lookup (held : d.lookup p = .ok e) : d.isDirectory p = .ok !e.isFile := by
  rw [isDirectory, held]
  cases e <;> rfl

/-- A path that named something names something of the same kind. -/
theorem Grown.lookup (grown : Grown output d d') (held : d.lookup p = .ok e) :
    ∃ e', d'.lookup p = .ok e' ∧ e'.isFile = e.isFile := by
  obtain ⟨l, leads, found⟩ := lookup_eq_ok.1 held
  obtain ⟨e', found', kind⟩ := grown.kept found
  exact ⟨e', lookup_eq_ok.2 ⟨l, grown.locate leads, found'⟩, kind⟩

namespace Extended

theorem refl (output : Location) (d : Disk) : Extended output d d where
  toGrown := .refl output d
  files _ held := held

theorem trans (first : Extended output d d') (second : Extended output d' d'') :
    Extended output d d'' where
  toGrown := first.toGrown.trans second.toGrown
  files other held := second.files other (first.files other held)

/-- A file may be set where there is no directory. -/
theorem set_file (file : d.find? l ≠ some .directory) (bytes : ByteArray) :
    Extended l d (d.set l (.file bytes)) where
  toGrown := by
    refine .set (ne_nil_of_not_directory file) (fun {old} held => ?_) fun _ _ => rfl
    cases old with
    | directory => exact absurd held file
    | file bytes => rfl
  files {k _} other held := by
    rw [find?_set d k _ (ne_nil_of_not_directory file), if_neg other]
    exact held

/-- Files elsewhere than at the output are read as before. -/
theorem readBytes (extended : Extended output d d') {bytes : ByteArray} (other : l ≠ output)
    (leads : d.locate p = .ok l) (held : d.find? l = some (.file bytes)) :
    d'.readBytes p = .ok bytes :=
  readBytes_eq_ok.2 ⟨l, extended.toGrown.locate leads, extended.files other held⟩

end Extended

/-! ## Making directories -/

theorem makeDirectory_of_directory (held : d.lookup p = .ok .directory) :
    d.makeDirectory p = .ok d := by
  obtain ⟨l, leads, found⟩ := lookup_eq_ok.1 held
  rw [makeDirectory, leads, Results.ok_bind, found]

/-- A directory that was made is there, and no file has changed. -/
theorem makeDirectory_eq_ok (made : d.makeDirectory p = .ok d') (output : Location) :
    Extended output d d' ∧ d'.lookup p = .ok .directory := by
  obtain ⟨l, leads, made⟩ := Results.bind_eq_ok.1 made
  cases held : d.find? l with
  | some e =>
    rw [held] at made
    cases e with
    | file bytes => cases made
    | directory =>
      cases made
      exact ⟨.refl output d, lookup_eq_ok.2 ⟨l, leads, held⟩⟩
  | none =>
    rw [held] at made
    cases made
    have named : l ≠ [] := by
      rintro rfl
      cases held
    have grown : Grown output d (d.set l .directory) :=
      .set named (fun old => by rw [held] at old; cases old) (fun _ file => by cases file)
    refine ⟨⟨grown, fun {k bytes} _ file => ?_⟩, lookup_eq_ok.2 ⟨l, grown.locate leads, ?_⟩⟩
    · rw [find?_set d k _ named, if_neg (fun same => ?_)]
      · exact file
      · rw [same, held] at file
        cases file
    · rw [find?_set d l _ named, if_pos rfl]

theorem makeDirectoriesFrom_eq_ok {anchor : Anchor} {names : List String}
    (made : d.makeDirectoriesFrom anchor names = .ok d') (output : Location) :
    Extended output d d' ∧ d'.lookup ⟨anchor, names.reverse⟩ = .ok .directory := by
  induction names generalizing d d' with
  | nil => exact makeDirectory_eq_ok made output
  | cons name above ih =>
    rw [makeDirectoriesFrom] at made
    split at made
    · obtain ⟨between, first, second⟩ := Results.bind_eq_ok.1 made
      obtain ⟨extended, held⟩ := makeDirectory_eq_ok second output
      exact ⟨(ih first).1.trans extended, held⟩
    · exact makeDirectory_eq_ok made output

theorem makeDirectories_eq_ok (made : d.makeDirectories p = .ok d') (output : Location) :
    Extended output d d' ∧ d'.lookup p = .ok .directory := by
  have all := makeDirectoriesFrom_eq_ok made output
  rwa [List.reverse_reverse] at all

/-- Directories that are there need not be made. -/
theorem makeDirectories_of_directory (held : d.lookup p = .ok .directory) :
    d.makeDirectories p = .ok d := by
  rw [makeDirectories]
  cases reversed : p.names.reverse with
  | nil =>
    have whole : p = ⟨p.anchor, []⟩ := by
      rw [← List.reverse_eq_nil_iff.1 reversed]
    rw [makeDirectoriesFrom, ← whole, makeDirectory_of_directory held]
  | cons name above =>
    have whole : p = ⟨p.anchor, (name :: above).reverse⟩ := by
      rw [← reversed, List.reverse_reverse]
    rw [makeDirectoriesFrom, ← whole, makeDirectory_of_directory held]

/-! ## Writing -/

/-- A file can be written at a path that leads somewhere, unless a directory stands there. -/
def TakesFile (d : Disk) (p : Path) : Prop := ∃ l, d.locate p = .ok l ∧ d.find? l ≠ some .directory

/-- Writing sets the file at the place that the path names. -/
theorem writeText_iff {text : String} : d.writeText p text = .ok d' ↔
    ∃ l, d.locate p = .ok l ∧ d.find? l ≠ some .directory ∧ d' = d.set l (.file text.toUTF8) := by
  rw [writeText, writeBytes, Results.bind_eq_ok]
  refine exists_congr fun l => and_congr_right fun _ => ?_
  split
  · next directory =>
    constructor
    · intro h
      cases h
    · intro h
      exact absurd directory h.1
  · next other =>
    constructor
    · intro h
      exact ⟨other, (Except.ok.inj h).symm⟩
    · intro h
      rw [h.2]

/-- A text that was written is read back. -/
theorem readBytes_of_writeText {text : String} (written : d.writeText p text = .ok d') :
    d'.readBytes p = .ok text.toUTF8 := by
  obtain ⟨l, leads, file, rfl⟩ := writeText_iff.1 written
  refine readBytes_eq_ok.2 ⟨l, (Extended.set_file file text.toUTF8).toGrown.locate leads, ?_⟩
  rw [find?_set d l _ (ne_nil_of_not_directory file), if_pos rfl]

/-- A text that was written changes nothing elsewhere, and writing it again changes nothing. -/
theorem writeText_eq_ok {text : String} (written : d.writeText p text = .ok d') :
    ∃ output, d'.locate p = .ok output ∧ Extended output d d' ∧ d'.writeText p text = .ok d' := by
  obtain ⟨l, leads, file, rfl⟩ := writeText_iff.1 written
  have extended := Extended.set_file file text.toUTF8
  have named := ne_nil_of_not_directory file
  have held : (d.set l (.file text.toUTF8)).find? l = some (.file text.toUTF8) := by
    rw [find?_set d l _ named, if_pos rfl]
  have again := extended.toGrown.locate leads
  refine ⟨l, again, extended, writeText_iff.2 ⟨l, again, ?_, (set_of_find? named held).symm⟩⟩
  intro directory
  rw [held] at directory
  cases directory

end Disk
end ResourceApi
