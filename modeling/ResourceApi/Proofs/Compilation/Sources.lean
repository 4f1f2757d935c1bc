import ResourceApi.Proofs.Compilation.Runs
import ResourceApi.Proofs.Resource.NormalFile

/-! # What a run does to its sources

Each turn of a run may write the normal form of its file back. The disk after a run is
the disk before it with some files normalized, and after a run that finishes and writes
all its files are in normal form: a run over these writes nothing new. What a run gives
hangs only on what its files contribute, and so not on whether it writes, as long as
what it writes can be written. -/

namespace ResourceApi.Compilation

open SchemaFile (Rewritten InNormalForm Spoils normalize fragment)

variable {options options' : Options} {start : Document} {d d' : Disk} {c c' : Compilation}
  {p : Path} {paths : List Path}

/-! ## The disk of a run -/

theorem step_disk (options : Options) (d : Disk) (c : Compilation) (p : Path) :
    (step options d c p).disk = (normalize d p options.writeNormalized).disk :=
  compileFile_disk

/-- A run that goes on after its first turn goes on from the disk that the turn leaves. -/
theorem steps_cons_disk {next : Compilation} (reached : (step options d c p).result = .ok next)
    (rest : List Path) :
    (steps options d c (p :: rest)).disk =
      (steps options (normalize d p options.writeNormalized).disk next rest).disk := by
  rw [steps, Outcome.andThen_ok _ reached, step_disk]

/-- A run that stops in its first turn leaves the disk of that turn. -/
theorem steps_cons_disk_of_error {h : Halt} (stopped : (step options d c p).result = .error h)
    (rest : List Path) :
    (steps options d c (p :: rest)).disk = (normalize d p options.writeNormalized).disk := by
  rw [steps, Outcome.andThen_error _ stopped, step_disk]

/-- What normalizing its files keeps, a run keeps. -/
theorem steps_disk_induction {P : Disk → Prop} (first : P d)
    (turn : ∀ d, ∀ p ∈ paths, P d → P (normalize d p options.writeNormalized).disk) :
    P (steps options d c paths).disk := by
  induction paths generalizing d c with
  | nil => exact first
  | cons p rest ih =>
    have next := turn d p List.mem_cons_self first
    cases reached : (step options d c p).result with
    | error h =>
      rw [steps_cons_disk_of_error reached]
      exact next
    | ok c =>
      rw [steps_cons_disk reached]
      exact ih next fun d q mem => turn d q (List.mem_cons_of_mem _ mem)

/-- What normalizing its files keeps unless they are spoilt, turns that are all taken keep. -/
theorem steps_disk_induction_of_ok {P : Disk → Prop}
    (finished : (steps options d c paths).result = .ok c') (first : P d)
    (turn : ∀ d, ∀ p ∈ paths, ¬ Spoils options.writeNormalized d p → P d →
      P (normalize d p options.writeNormalized).disk) :
    P (steps options d c paths).disk := by
  induction paths generalizing d c with
  | nil => exact first
  | cons p rest ih =>
    cases reached : (step options d c p).result with
    | error h =>
      rw [steps, Outcome.andThen_error _ reached] at finished
      cases finished
    | ok next =>
      have kept := not_spoils_of_turn
        ((step_of_rewritten options (.refl d) c p).1.symm.trans reached)
      rw [steps, Outcome.andThen_ok _ reached, step_disk] at finished
      rw [steps_cons_disk reached]
      exact ih finished (turn d p List.mem_cons_self kept first)
        fun d q mem => turn d q (List.mem_cons_of_mem _ mem)

theorem ofFiles_disk (options : Options) (start : Document) (d : Disk) (paths : List Path) :
    (ofFiles options start d paths).disk =
      (steps options d { document := start } paths).disk := by
  rw [ofFiles]
  cases reached : (steps options d { document := start } paths).result with
  | error h => rw [Outcome.andThen_error _ reached]
  | ok c =>
    rw [Outcome.andThen_ok _ reached]
    dsimp only
    split <;> rfl

/-- A run that gives a result has taken all its turns. -/
theorem steps_of_ofFiles (finished : (ofFiles options start d paths).result = .ok c) :
    ∃ c', (steps options d { document := start } paths).result = .ok c' := by
  rw [ofFiles] at finished
  cases reached : (steps options d { document := start } paths).result with
  | error h =>
    rw [Outcome.andThen_error _ reached] at finished
    cases finished
  | ok c' => exact ⟨c', rfl⟩

/-- After turns that are all taken, files hold what they held before, or normal forms of that. -/
theorem rewritten_steps (finished : (steps options d c paths).result = .ok c') :
    Rewritten d (steps options d c paths).disk :=
  steps_disk_induction_of_ok finished (Rewritten.refl d) fun _ _ _ kept rewritten =>
    rewritten.normalize kept

/-- So they do after a run that finishes. -/
theorem rewritten_ofFiles (finished : (ofFiles options start d paths).result = .ok c) :
    Rewritten d (ofFiles options start d paths).disk := by
  obtain ⟨c', reached⟩ := steps_of_ofFiles finished
  rw [ofFiles_disk]
  exact rewritten_steps reached

/-- A run adds nothing to the disk. -/
theorem grown_ofFiles (output : Location) (options : Options) (start : Document) (d : Disk)
    (paths : List Path) : Disk.Grown output d (ofFiles options start d paths).disk := by
  rw [ofFiles_disk]
  exact steps_disk_induction (.refl output d) fun d p _ grown =>
    grown.trans (SchemaFile.grown_normalize output d p options.writeNormalized)

/-! ## Files in normal form -/

/-- After turns that write and are all taken, every file is in normal form. -/
theorem inNormalForm_steps (write : options.writeNormalized = true)
    (finished : (steps options d c paths).result = .ok c') :
    ∀ p ∈ paths, InNormalForm (steps options d c paths).disk p := by
  induction paths generalizing d c with
  | nil => exact fun _ mem => absurd mem List.not_mem_nil
  | cons p rest ih =>
    cases reached : (step options d c p).result with
    | error h =>
      rw [steps, Outcome.andThen_error _ reached] at finished
      cases finished
    | ok next =>
      rw [steps, Outcome.andThen_ok _ reached, step_disk] at finished
      rw [steps_cons_disk reached]
      intro q mem
      rcases List.mem_cons.1 mem with rfl | later
      · refine steps_disk_induction (P := fun d => InNormalForm d q) ?_ fun _ r _ normal =>
          normal.normalize r options.writeNormalized
        rw [write]
        exact SchemaFile.inNormalForm_normalize d q
      · exact ih finished q later

/-- A run over files that normalizing leaves as they are leaves the disk as it is. -/
theorem ofFiles_disk_of_still
    (still : ∀ p ∈ paths, (normalize d p options.writeNormalized).disk = d) (start : Document) :
    (ofFiles options start d paths).disk = d := by
  rw [ofFiles_disk]
  generalize ({ document := start } : Compilation) = c
  induction paths generalizing c with
  | nil => rfl
  | cons p rest ih =>
    have first := still p List.mem_cons_self
    cases reached : (step options d c p).result with
    | error h => rw [steps_cons_disk_of_error reached, first]
    | ok next =>
      rw [steps_cons_disk reached, first]
      exact ih (fun q mem => still q (List.mem_cons_of_mem _ mem)) next

/-- After a run that finishes, normalizing its files once more changes nothing. -/
theorem still_of_ofFiles (finished : (ofFiles options start d paths).result = .ok c)
    (kept : ∀ p ∈ paths, d'.readBytes p = (ofFiles options start d paths).disk.readBytes p) :
    ∀ p ∈ paths, (normalize d' p options.writeNormalized).disk = d' := by
  intro p mem
  cases write : options.writeNormalized with
  | false => exact SchemaFile.disk_of_not_write d' p
  | true =>
    obtain ⟨c', reached⟩ := steps_of_ofFiles finished
    have normal := inNormalForm_steps write reached p mem
    rw [← ofFiles_disk] at normal
    exact (normal.congr (kept p mem)).disk_eq true

/-! ## The result of a run -/

/-- What a run gives hangs on the fragments of its files only. -/
theorem ofFiles_result_congr
    (same : ∀ p ∈ paths, fragment options' d' p = fragment options d p) (start : Document) :
    (ofFiles options' start d' paths).result = (ofFiles options start d paths).result := by
  have turns (c : Compilation) :
      paths.foldlM (turn options' d') c = paths.foldlM (turn options d) c := by
    induction paths generalizing c with
    | nil => rfl
    | cons p rest ih =>
      rw [List.foldlM_cons, List.foldlM_cons, turn, turn, same p List.mem_cons_self]
      congr 1
      funext next
      exact ih (fun q mem => same q (List.mem_cons_of_mem _ mem)) next
  rw [ofFiles_result, ofFiles_result, turns]

/-- A run gives the same on a disk that reads the same files as the disk after the run. -/
theorem ofFiles_result_again (finished : (ofFiles options start d paths).result = .ok c)
    (kept : ∀ p ∈ paths, d'.readBytes p = (ofFiles options start d paths).disk.readBytes p) :
    (ofFiles options start d' paths).result = (ofFiles options start d paths).result := by
  refine ofFiles_result_congr (fun p mem => ?_) start
  rw [← (rewritten_ofFiles finished).fragment_eq, fragment, fragment,
    SchemaFile.normalizedFor_congr (kept p mem)]

/-! ## Writing the sources or not -/

/-- The turn of a file that is not spoilt does not hang on whether it is written back. -/
theorem turn_writeNormalized (kept : ¬ Spoils true d p) (c : Compilation) :
    turn { options with writeNormalized := true } d c p =
      turn { options with writeNormalized := false } d c p := by
  have still : ¬ Spoils false d p := fun spoils => by cases spoils.1
  rw [turn, turn, fragment, fragment, SchemaFile.normalizedFor_of_not_spoils kept,
    SchemaFile.normalizedFor_of_not_spoils still]
  rfl

/-- Turns that write and turns that do not come to the same, unless a file is spoilt. -/
theorem turns_writeNormalized (c : Compilation) :
    paths.foldlM (turn { options with writeNormalized := true } d) c =
        paths.foldlM (turn { options with writeNormalized := false } d) c ∨
      paths.foldlM (turn { options with writeNormalized := true } d) c =
        .error (.notUnicode .encoding) := by
  induction paths generalizing c with
  | nil => exact Or.inl rfl
  | cons p rest ih =>
    rw [List.foldlM_cons, List.foldlM_cons]
    by_cases spoils : Spoils true d p
    · rw [turn, SchemaFile.fragment_of_spoils spoils]
      exact Or.inr rfl
    · rw [turn_writeNormalized spoils]
      cases turn { options with writeNormalized := false } d c p with
      | error h => exact Or.inl rfl
      | ok next => exact ih next

/-- **Rewriting the sources does not influence a run**: as long as what it writes can be written, it
gives the same document, the same compiled paths and the same messages whether it writes normal
forms back or not, or stops for the same reason; however often a file comes among the paths. -/
theorem ofFiles_writeNormalized (options : Options) (start : Document) (d : Disk)
    (paths : List Path)
    (wrote : (ofFiles { options with writeNormalized := true } start d paths).result ≠
      .error (.notUnicode .encoding)) :
    (ofFiles { options with writeNormalized := true } start d paths).result =
      (ofFiles { options with writeNormalized := false } start d paths).result := by
  rw [ofFiles_result] at wrote ⊢
  rw [ofFiles_result]
  rcases turns_writeNormalized { document := start } with same | stopped
  · rw [same]
  · exact absurd (by rw [stopped]; rfl) wrote

/-- The second turn of the path reads the normal form, or what there was all along. -/
theorem ofFiles_writeNormalized_order :
    ∃ c, (ofFiles { writeNormalized := true } {} orderDisk
        [orderPath, missingPath, orderPath]).result = .ok c ∧
      (ofFiles { writeNormalized := false } {} orderDisk
        [orderPath, missingPath, orderPath]).result = .ok c := by
  obtain ⟨c, finished, -⟩ := ofFiles_order { writeNormalized := true } {}
  have wrote : (ofFiles { writeNormalized := true } {} orderDisk
      [orderPath, missingPath, orderPath]).result ≠ .error (.notUnicode .encoding) := by
    rw [finished]
    nofun
  exact ⟨c, finished, (ofFiles_writeNormalized {} _ _ _ wrote).symm.trans finished⟩

end ResourceApi.Compilation
