import ResourceApi.Proofs.Disk.Growth

/-! # A disk with one more file

Two disks that differ in one place, where one of them has a file and the other no
directory, are used alike: paths that lead somewhere on the one lead there on the other,
and directories that can be made without the place can be made beside the file. -/

namespace ResourceApi.Disk

/-- Whether there is a file or a directory at a place. -/
def kind (d : Disk) (k : Location) : Option Bool := (d.find? k).map Entry.isFile

variable {d d' e f : Disk} {k l place : Location} {p : Path}

theorem kind_eq_directory : d.kind k = some false ↔ d.find? k = some .directory := by
  rw [kind]
  cases d.find? k with
  | none => simp
  | some x => cases x <;> simp [Entry.isFile]

theorem kind_eq_none : d.kind k = none ↔ d.find? k = none := Option.map_eq_none_iff

theorem kind_set (d : Disk) (x : Entry) (named : l ≠ []) :
    (d.set l x).kind k = if k = l then some x.isFile else d.kind k := by
  rw [kind, find?_set d k x named]
  split <;> rfl

/-- Writing over a file leaves it a file. -/
theorem kind_set_of_file {old : ByteArray} (held : d.find? l = some (.file old)) (new : ByteArray)
    (k : Location) : (d.set l (.file new)).kind k = d.kind k := by
  rw [kind_set d _ (ne_nil_of_file held)]
  split
  · next here => rw [here, kind, held]; rfl
  · rfl

theorem Extended.kind_directory {output : Location} (extended : Extended output d e)
    (held : d.kind k = some false) : e.kind k = some false :=
  kind_eq_directory.2 (extended.toGrown.directory (kind_eq_directory.1 held))

/-- Following a name asks for no more than the kind of what it is followed through. -/
theorem follow_cons (d : Disk) (k : Location) (name : String) (rest : List String) :
    d.follow k (name :: rest) = match d.kind k with
      | none => .error .noSuchFile
      | some true => .error .notDirectory
      | some false =>
        if name = ".." then d.follow k.dropLast rest
        else if longestName < name.utf8ByteSize then .error .nameTooLong
        else d.follow (k ++ [name]) rest := by
  rw [follow, kind]
  cases d.find? k with
  | none => rfl
  | some x => cases x <;> rfl

/-- Names that can be followed on some disk are followed alike on disks that agree wherever that
one has a directory. -/
theorem follow_congr {names : List String} (ends : f.follow k names = .ok l)
    (agree : ∀ m, f.kind m = some false → d'.kind m = d.kind m) :
    d'.follow k names = d.follow k names := by
  induction names generalizing k with
  | nil => rfl
  | cons name rest ih =>
    rw [follow_cons] at ends
    split at ends
    · cases ends
    · cases ends
    · next through =>
      rw [follow_cons, follow_cons, agree k through]
      split at ends
      · next up => simp only [if_pos up, ih ends]
      · next down =>
        split at ends
        · cases ends
        · next fits => simp only [if_neg down, if_neg fits, ih ends]

theorem locate_congr (ends : f.locate p = .ok l) (home : d'.home = d.home) (home' : f.home = d.home)
    (agree : ∀ m, f.kind m = some false → d'.kind m = d.kind m) : d'.locate p = d.locate p := by
  obtain ⟨⟨⟩, -, followed⟩ := Results.bind_eq_ok.1 ends
  rw [home'] at followed
  rw [locate, locate, home, follow_congr followed agree]

/-! ## Disks with a file besides -/

/-- The second disk has a file at a place where the first has no directory, and is like it
elsewhere. -/
structure Beside (place : Location) (d d' : Disk) : Prop where
  home : d'.home = d.home
  elsewhere : ∀ k, k ≠ place → d'.kind k = d.kind k
  file : d'.kind place = some true
  free : d.kind place ≠ some false

namespace Beside

theorem set_both (beside : Beside place d d') (named : l ≠ []) (other : l ≠ place) (x : Entry) :
    Beside place (d.set l x) (d'.set l x) where
  home := beside.home
  elsewhere k differ := by
    rw [kind_set d' x named, kind_set d x named, beside.elsewhere k differ]
  file := by rw [kind_set d' x named, if_neg other.symm, beside.file]
  free := by rw [kind_set d x named, if_neg other.symm]; exact beside.free

/-- A path that leads somewhere on a disk without a directory at the place is the same path beside
the file. -/
theorem locate_eq (beside : Beside place d d') (ends : f.locate p = .ok l) (home : f.home = d.home)
    (free : f.kind place ≠ some false) : d'.locate p = d.locate p := by
  refine locate_congr ends beside.home home fun m through => beside.elsewhere m ?_
  rintro rfl
  exact free through

theorem locate (beside : Beside place d d') (leads : d.locate p = .ok l) : d'.locate p = .ok l :=
  (beside.locate_eq leads rfl beside.free).trans leads

/-- A directory that is made elsewhere than at the place can be made beside the file. -/
theorem makeDirectory (beside : Beside place d d') (made : d.makeDirectory p = .ok e)
    (free : e.kind place ≠ some false) :
    ∃ e', d'.makeDirectory p = .ok e' ∧ Beside place e e' := by
  obtain ⟨l, leads, made⟩ := Results.bind_eq_ok.1 made
  rw [Disk.makeDirectory, beside.locate leads, Results.ok_bind]
  cases held : d.find? l with
  | none =>
    rw [held] at made
    cases made
    have named : l ≠ [] := by
      rintro rfl
      cases held
    have other : l ≠ place := by
      rintro rfl
      exact free (by rw [kind_set d _ named, if_pos rfl]; rfl)
    have absent : d'.find? l = none := by
      rw [← kind_eq_none, beside.elsewhere l other, kind_eq_none, held]
    rw [absent]
    exact ⟨_, rfl, beside.set_both named other .directory⟩
  | some x =>
    rw [held] at made
    cases x with
    | file bytes => cases made
    | directory =>
      cases made
      have directory : d.kind l = some false := kind_eq_directory.2 held
      have other : l ≠ place := by
        rintro rfl
        exact free directory
      rw [kind_eq_directory.1 ((beside.elsewhere l other).trans directory)]
      exact ⟨d', rfl, beside⟩

/-- Directories that are made without one at the place can be made beside the file. -/
theorem makeDirectoriesFrom (beside : Beside place d d') {anchor : Anchor} {names : List String}
    (made : d.makeDirectoriesFrom anchor names = .ok e) (free : e.kind place ≠ some false) :
    ∃ e', d'.makeDirectoriesFrom anchor names = .ok e' ∧ Beside place e e' := by
  induction names generalizing e with
  | nil => exact beside.makeDirectory made free
  | cons name above ih =>
    obtain ⟨extended, there⟩ := makeDirectoriesFrom_eq_ok made []
    rw [Disk.makeDirectoriesFrom] at made ⊢
    split at made
    · next lost =>
      obtain ⟨between, first, second⟩ := Results.bind_eq_ok.1 made
      -- the path that is there in the end was lost in the same way beside the file
      have lost' : d'.makeDirectory ⟨anchor, (name :: above).reverse⟩ = .error .noSuchFile := by
        obtain ⟨l, ends, -⟩ := lookup_eq_ok.1 there
        have same := beside.locate_eq ends extended.home free
        rw [Disk.makeDirectory] at lost ⊢
        rw [same]
        cases place : d.locate ⟨anchor, (name :: above).reverse⟩ with
        | error reason =>
          rw [place] at lost
          exact lost
        | ok k =>
          rw [place, Results.ok_bind] at lost
          split at lost <;> cases lost
      have grows := (makeDirectory_eq_ok second []).1
      obtain ⟨between', first', beside'⟩ :=
        ih first fun directory => free (grows.kind_directory directory)
      obtain ⟨e', second', beside''⟩ := beside'.makeDirectory second free
      rw [lost']
      exact ⟨e', Results.bind_eq_ok.2 ⟨between', first', second'⟩, beside''⟩
    · obtain ⟨e', made', beside'⟩ := beside.makeDirectory made free
      rw [made']
      exact ⟨e', rfl, beside'⟩

theorem makeDirectories (beside : Beside place d d') (made : d.makeDirectories p = .ok e)
    (free : e.kind place ≠ some false) :
    ∃ e', d'.makeDirectories p = .ok e' ∧ Beside place e e' :=
  beside.makeDirectoriesFrom made free

/-- Where a text could be written, any text can be written beside the file. -/
theorem writeText (beside : Beside place d d') {text : String}
    (written : d.writeText p text = .ok e) (text' : String) :
    ∃ e', d'.writeText p text' = .ok e' ∧ e'.readBytes p = .ok text'.toUTF8 := by
  obtain ⟨l, leads, written⟩ := Results.bind_eq_ok.1 written
  have file : d'.find? l ≠ some .directory := by
    intro held
    have directory := kind_eq_directory.2 held
    by_cases here : l = place
    · subst here
      cases beside.file.symm.trans directory
    · rw [beside.elsewhere l here, kind_eq_directory] at directory
      rw [directory] at written
      cases written
  have written' : d'.writeText p text' = .ok (d'.set l (.file text'.toUTF8)) := by
    rw [Disk.writeText, writeBytes, beside.locate leads, Results.ok_bind]
    split
    · next held => exact absurd held file
    · rfl
  have extended := Extended.set_file file text'.toUTF8
  have leads' := extended.toGrown.locate (beside.locate leads)
  refine ⟨_, written', readBytes_eq_ok.2 ⟨l, leads', ?_⟩⟩
  rw [find?_set d' l _ (ne_nil_of_not_directory file), if_pos rfl]

end Beside

end ResourceApi.Disk
