import ResourceApi.CommandLine.Run
import ResourceApi.Proofs.Resource.NormalFile
import ResourceApi.Proofs.Resource.VisibleChanges

/-! # Runs that normalize or check files

A run over files breaks off at the first one that has no normal form, or that is spoilt.
Otherwise it goes through all of them and counts those that did not hold their normal
forms in their turns. The count is zero exactly if all of them held their normal forms
when the run started, whether it writes or only checks. -/

namespace ResourceApi

namespace SchemaFile

variable {d d₀ : Disk} {p q : Path} {normal : Fields Json} {write : Bool}

/-- The file at a path holds a schema that is its own normal form, in whatever layout. -/
def HoldsNormal (d : Disk) (p : Path) : Prop :=
  ∃ schema, load d p = .ok schema ∧ normalForm schema = .ok schema

theorem HoldsNormal.normalized (holds : HoldsNormal d p) : ∃ normal, normalized d p = .ok normal :=
  let ⟨schema, loaded, h⟩ := holds
  ⟨schema, normalized_eq_ok.2 ⟨schema, loaded, h⟩⟩

theorem HoldsNormal.congr (same : load d p = load d₀ p) : HoldsNormal d p ↔ HoldsNormal d₀ p := by
  rw [HoldsNormal, HoldsNormal, same]

/-- Files that hold their normal forms still do after others were normalized. -/
theorem HoldsNormal.of_rewritten (holds : HoldsNormal d₀ p) (rewritten : Rewritten d₀ d) :
    HoldsNormal d p := by
  obtain ⟨schema, loaded, h⟩ := holds
  rcases (rewritten p).2 with same | ⟨schema', normal, loaded', h', now⟩
  · exact ⟨schema, same.trans loaded, h⟩
  · exact ⟨normal, now, load_normalForm loaded' h'⟩

/-- A file that was normalized holds its normal form. -/
theorem holdsNormal_normalize (given : normalizedFor true d p = .ok normal) :
    HoldsNormal (normalize d p true).disk p := by
  obtain ⟨reached, kept⟩ := normalizedFor_eq_ok.1 given
  obtain ⟨schema, loaded, h⟩ := normalized_eq_ok.1 reached
  have again := ((Rewritten.refl d).normalize kept).normalized_eq p
  have written := inNormalForm_normalize d p normal (again.trans reached)
  exact ⟨normal, load_text (normalForm_storable h (load_storable loaded)) written,
    load_normalForm loaded h⟩

/-- Normalizing a file that holds its normal form, and is not spoilt, changes nothing that is
loaded. -/
theorem HoldsNormal.load_normalize (holds : HoldsNormal d p) (kept : ¬ Spoils write d p)
    (q : Path) : load (normalize d p write).disk q = load d q := by
  obtain ⟨schema, loaded, h⟩ := holds
  have writing := writing_normalize d p write
  generalize (normalize d p write).disk = d' at writing ⊢
  cases writing with
  | nothing => rfl
  | @stored normal l old _ reached _ leads held =>
    obtain rfl : schema = normal :=
      Except.ok.inj ((normalized_eq_ok.2 ⟨schema, loaded, h⟩).symm.trans reached)
    by_cases here : d.locate q = .ok l
    · -- both paths lead to the file, which is given its own schema
      have now := load_text (load_storable loaded) (Disk.readBytes_set held _ here)
      have same := Disk.readBytes_of_locate (here.trans leads.symm)
      rw [now, load_of_readBytes same loaded]
    · exact load_congr (Disk.readBytes_set_of_ne held _ here)
  | spoilt spoils => exact absurd spoils kept

end SchemaFile

namespace CommandLine

open SchemaFile (load normalize normalized normalizedFor Rewritten HoldsNormal)

/-! ## Reports -/

namespace Report

@[simp] theorem disk_after (lines : List Line) (r : Report) : (r.after lines).disk = r.disk := rfl

@[simp] theorem exitCode_after (lines : List Line) (r : Report) :
    (r.after lines).exitCode = r.exitCode := rfl

theorem after_after (first second : List Line) (r : Report) :
    (r.after second).after first = r.after (first ++ second) := by
  simp [after]

@[simp] theorem disk_ofHalt (d : Disk) (h : Halt) : (ofHalt d h).disk = d := by
  unfold ofHalt
  split <;> rfl

@[simp] theorem exitCode_ofHalt (d : Disk) (h : Halt) : (ofHalt d h).exitCode = 1 := by
  unfold ofHalt
  split <;> rfl

end Report

variable {verbose check : Bool} {d d₀ : Disk} {seen changed : Nat} {p : Path} {paths : List Path}
  {normal : Fields Json}

/-! ## One turn -/

/-- A file that cannot be normalized ends the run. -/
theorem exitCode_of_stopped {h : Halt} (stopped : normalizedFor (!check) d p = .error h) :
    (normalizeFiles verbose check d seen changed (p :: paths)).exitCode = 1 := by
  have result := (SchemaFile.normalize_result (!check) d p).trans stopped
  rw [normalizeFiles]
  cases load d p with
  | error h => exact Report.exitCode_ofHalt ..
  | ok schema =>
    simp only [result]
    exact Report.exitCode_ofHalt ..

/-- A file that is normalized is counted if it did not hold its normal form, and the run goes on. -/
theorem normalizeFiles_of_reached (reached : normalizedFor (!check) d p = .ok normal) :
    ∃ count lines, (count = 0 ↔ HoldsNormal d p) ∧
      normalizeFiles verbose check d seen changed (p :: paths) =
        (normalizeFiles verbose check (normalize d p (!check)).disk (seen + 1) (changed + count)
          paths).after lines := by
  have result := (SchemaFile.normalize_result (!check) d p).trans reached
  obtain ⟨schema, loaded, h⟩ :=
    SchemaFile.normalized_eq_ok.1 (SchemaFile.normalizedFor_eq_ok.1 reached).1
  have seenAlike := alike_normalForm_iff (SchemaFile.load_storable loaded).distinct h
  have holds : HoldsNormal d p ↔ schema = normal := by
    constructor
    · rintro ⟨schema', loaded', h'⟩
      cases loaded.symm.trans loaded'
      exact Except.ok.inj (h'.symm.trans h)
    · rintro rfl
      exact ⟨schema, loaded, h⟩
  rw [normalizeFiles, loaded]
  simp only [result]
  by_cases same : schema = normal
  · rw [if_pos (seenAlike.2 same)]
    exact ⟨0, _, iff_of_true rfl (holds.2 same), rfl⟩
  · rw [if_neg (mt seenAlike.1 same), Report.after_after]
    exact ⟨1, _, iff_of_false Nat.one_ne_zero (mt holds.1 same), rfl⟩

/-! ## All turns -/

/-- What holds of the disk at the start, and still after a file is normalized, holds at the end,
also where the run breaks off. -/
theorem normalizeFiles_disk_induction {P : Disk → Prop} (first : P d)
    (turn : ∀ now p, P now → P (normalize now p (!check)).disk) :
    P (normalizeFiles verbose check d seen changed paths).disk := by
  induction paths generalizing d seen changed with
  | nil =>
    rw [normalizeFiles]
    split <;> exact first
  | cons p rest ih =>
    have next := turn d p first
    rw [normalizeFiles]
    split
    · exact (Report.disk_ofHalt ..).symm ▸ first
    · rw [Report.disk_after]
      split
      · exact (Report.disk_ofHalt ..).symm ▸ next
      · split
        · exact ih next
        · exact ih next

/-- Checking changes nothing. -/
theorem disk_normalizeFiles_check (verbose : Bool) (d : Disk) (seen changed : Nat)
    (paths : List Path) : (normalizeFiles verbose true d seen changed paths).disk = d :=
  normalizeFiles_disk_induction (P := fun now => now = d) rfl fun now p same =>
    (SchemaFile.disk_of_not_write now p).trans same

/-- A run adds nothing, and leaves files and directories what they are. -/
theorem grown_normalizeFiles (output : Location) (verbose check : Bool) (d : Disk)
    (seen changed : Nat) (paths : List Path) :
    Disk.Grown output d (normalizeFiles verbose check d seen changed paths).disk :=
  normalizeFiles_disk_induction (.refl output d) fun now p before =>
    before.trans (SchemaFile.grown_normalize output now p (!check))

/-- All files of a run can be normalized. -/
def AllNormalized (check : Bool) (d : Disk) (paths : List Path) : Prop :=
  ∀ p ∈ paths, ∃ normal, normalizedFor (!check) d p = .ok normal

/-- The turns of files that are normalized leave the normal forms of all files as they were. -/
theorem AllNormalized.of_rewritten (all : AllNormalized check d₀ paths)
    (rewritten : Rewritten d₀ d) : AllNormalized check d paths := by
  intro p mem
  rw [rewritten.normalizedFor_eq]
  exact all p mem

/-- The turn of a file that is normalized leaves what there was, or normal forms of that. -/
theorem rewritten_of_reached (reached : normalizedFor (!check) d p = .ok normal) :
    Rewritten d (normalize d p (!check)).disk :=
  (Rewritten.refl d).normalize (SchemaFile.normalizedFor_eq_ok.1 reached).2

/-- A run that ends well has normalized all files. -/
theorem allNormalized_of_exitCode
    (well : (normalizeFiles verbose check d seen changed paths).exitCode = 0) :
    AllNormalized check d paths := by
  induction paths generalizing d seen changed with
  | nil => exact nofun
  | cons p rest ih =>
    cases turn : normalizedFor (!check) d p with
    | error h =>
      rw [exitCode_of_stopped turn] at well
      cases well
    | ok normal =>
      obtain ⟨count, lines, -, goesOn⟩ := normalizeFiles_of_reached turn
      rw [goesOn, Report.exitCode_after] at well
      refine List.forall_mem_cons.2 ⟨⟨normal, turn⟩, fun q mem => ?_⟩
      rw [← (rewritten_of_reached turn).normalizedFor_eq]
      exact ih well q mem

/-- A run over files that can all be normalized goes through, and counts none of them exactly if
all hold their normal forms. As long as none is counted, nothing that is loaded changes. -/
theorem normalizeFiles_of_allNormalized (all : AllNormalized check d paths) :
    ∃ left count lines, (count = 0 ↔ ∀ p ∈ paths, HoldsNormal d p) ∧
      normalizeFiles verbose check d seen changed paths =
        (normalizeFiles verbose check left (seen + paths.length) (changed + count) []).after
          lines := by
  induction paths generalizing d seen changed with
  | nil => exact ⟨d, 0, [], by simp, rfl⟩
  | cons p rest ih =>
    obtain ⟨⟨normal, turn⟩, others⟩ := List.forall_mem_cons.1 all
    obtain ⟨first, lines, firstHolds, goesOn⟩ := normalizeFiles_of_reached turn
    obtain ⟨left, count, lines', restHold, goesThrough⟩ :=
      ih (AllNormalized.of_rewritten others (rewritten_of_reached turn))
    refine ⟨left, first + count, lines ++ lines', ?_, ?_⟩
    · rw [Nat.add_eq_zero_iff, List.forall_mem_cons, firstHolds, restHold]
      refine and_congr_right fun holds => forall₂_congr fun q _ => ?_
      exact HoldsNormal.congr
        (holds.load_normalize (SchemaFile.normalizedFor_eq_ok.1 turn).2 q)
    · rw [goesOn, goesThrough, Report.after_after, List.length_cons, Nat.add_assoc, Nat.add_assoc,
        Nat.add_comm 1]

/-! ## How runs end -/

/-- The line of a run that has gone through all files. -/
def checkedLine (count changed : Nat) : Line :=
  .telling s!"Checked {count} files, {changed} changed."

/-- A run ends well, telling how many files there were and how many of them were changed. -/
def Report.Tells (r : Report) (count changed : Nat) : Prop :=
  r.exitCode = 0 ∧ r.lines.getLast? = some (checkedLine count changed)

theorem Report.tells_after {r : Report} {count changed : Nat} (tells : r.Tells count changed)
    (lines : List Line) : (r.after lines).Tells count changed := by
  refine ⟨tells.1, ?_⟩
  rw [after, List.getLast?_append, tells.2]
  rfl

/-- A run that writes ends well exactly if all files can be normalized. -/
theorem exitCode_normalizeFiles : (normalizeFiles verbose false d 0 0 paths).exitCode = 0 ↔
    AllNormalized false d paths := by
  refine ⟨allNormalized_of_exitCode, fun all => ?_⟩
  obtain ⟨left, count, lines, -, goesThrough⟩ := normalizeFiles_of_allNormalized all
  rw [goesThrough]
  rfl

/-- It then tells a count that is zero exactly if all files held their normal forms. -/
theorem tells_normalizeFiles (verbose : Bool) (all : AllNormalized false d paths) :
    ∃ count, (count = 0 ↔ ∀ p ∈ paths, HoldsNormal d p) ∧
      (normalizeFiles verbose false d 0 0 paths).Tells paths.length count := by
  obtain ⟨left, count, lines, none, goesThrough⟩ := normalizeFiles_of_allNormalized all
  refine ⟨count, none, ?_⟩
  rw [goesThrough, Nat.zero_add, Nat.zero_add]
  exact Report.tells_after ⟨rfl, rfl⟩ lines

/-- Files that hold their normal forms can be checked. -/
theorem allNormalized_of_holdNormal (hold : ∀ p ∈ paths, HoldsNormal d p) :
    AllNormalized true d paths := by
  intro p mem
  obtain ⟨normal, reached⟩ := (hold p mem).normalized
  exact ⟨normal, SchemaFile.normalizedFor_eq_ok.2 ⟨reached, fun spoils => by cases spoils.1⟩⟩

/-- A run that checks ends well exactly if all files hold their normal forms. -/
theorem exitCode_normalizeFiles_check : (normalizeFiles verbose true d 0 0 paths).exitCode = 0 ↔
    ∀ p ∈ paths, HoldsNormal d p := by
  by_cases all : AllNormalized true d paths
  · obtain ⟨left, count, lines, none, goesThrough⟩ := normalizeFiles_of_allNormalized all
    rw [goesThrough, Report.exitCode_after, ← none, Nat.zero_add, Nat.zero_add, normalizeFiles]
    cases count <;> simp [Report.failure]
  · exact iff_of_false (fun well => all (allNormalized_of_exitCode well))
      fun hold => all (allNormalized_of_holdNormal hold)

/-- It then tells that none was changed. -/
theorem tells_normalizeFiles_check (hold : ∀ p ∈ paths, HoldsNormal d p) :
    (normalizeFiles verbose true d 0 0 paths).Tells paths.length 0 := by
  obtain ⟨left, count, lines, none, goesThrough⟩ :=
    normalizeFiles_of_allNormalized (allNormalized_of_holdNormal hold)
  rw [goesThrough, none.2 hold, Nat.zero_add]
  exact Report.tells_after ⟨rfl, rfl⟩ lines

/-- What a run leaves that writes and ends well holds what there was, or normal forms of that. -/
theorem rewritten_normalizeFiles (all : AllNormalized false d paths) :
    Rewritten d (normalizeFiles verbose false d seen changed paths).disk := by
  suffices kept : ∀ d₀, Rewritten d₀ d →
      Rewritten d₀ (normalizeFiles verbose false d seen changed paths).disk from kept d (.refl d)
  induction paths generalizing d seen changed with
  | nil => exact fun _ before => before
  | cons p rest ih =>
    intro d₀ before
    obtain ⟨⟨normal, turn⟩, others⟩ := List.forall_mem_cons.1 all
    obtain ⟨count, lines, -, goesOn⟩ := normalizeFiles_of_reached turn
    rw [goesOn, Report.disk_after]
    exact ih (AllNormalized.of_rewritten others (rewritten_of_reached turn)) d₀
      (before.normalize (SchemaFile.normalizedFor_eq_ok.1 turn).2)

/-- After a run that writes and ends well, all its files hold their normal forms. -/
theorem holdNormal_normalizeFiles (all : AllNormalized false d paths) :
    ∀ p ∈ paths, HoldsNormal (normalizeFiles verbose false d seen changed paths).disk p := by
  induction paths generalizing d seen changed with
  | nil => exact nofun
  | cons p rest ih =>
    obtain ⟨⟨normal, turn⟩, others⟩ := List.forall_mem_cons.1 all
    obtain ⟨count, lines, -, goesOn⟩ := normalizeFiles_of_reached turn
    have turned : normalizedFor true d p = .ok normal := turn
    have next : Rewritten d (normalize d p true).disk :=
      (Rewritten.refl d).normalize (SchemaFile.normalizedFor_eq_ok.1 turned).2
    have later := AllNormalized.of_rewritten others next
    rw [goesOn, Report.disk_after]
    exact List.forall_mem_cons.2
      ⟨(SchemaFile.holdsNormal_normalize turned).of_rewritten (rewritten_normalizeFiles later),
        ih later⟩

end CommandLine
end ResourceApi
