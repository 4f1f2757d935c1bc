import ResourceApi.Proofs.Compilation.Sources

/-! # Which files a run rewrites

A run that takes all its turns rewrites the files that it lists and whose schemas have a
normal form, each to the text of the normal form of what it held before the run. It does
so also where the schema does not compile afterwards, and however often a file is listed,
by whichever paths. Nothing else on the disk changes. -/

namespace ResourceApi

namespace SchemaFile

theorem load_ne_allFailed {d : Disk} {p : Path} {count : Nat} :
    load d p ≠ .error (.allFailed count) := by
  intro stopped
  unfold load at stopped
  split at stopped
  · cases stopped
  · cases stopped
  · split at stopped
    · cases stopped
    · unfold parse at stopped
      split at stopped <;> cases stopped

end SchemaFile

namespace Compilation

open SchemaFile (Rewritten InNormalForm normalize normalized fragment text)

variable {options : Options} {start : Document} {d d' : Disk} {c c' : Compilation}
  {p : Path} {paths : List Path} {l : Location}

/-! ## Runs that take all their turns -/

/-- No turn stops a run for the reason that no file was compiled. -/
theorem turns_ne_allFailed (count : Nat) :
    paths.foldlM (turn options d) c ≠ .error (.allFailed count) := by
  intro stopped
  induction paths generalizing c with
  | nil => cases stopped
  | cons p rest ih =>
    rw [List.foldlM_cons] at stopped
    cases taken : turn options d c p with
    | ok next =>
      rw [taken] at stopped
      exact ih stopped
    | error h =>
      rw [taken] at stopped
      cases stopped
      unfold turn at taken
      cases contributed : fragment options d p with
      | ok f =>
        rw [contributed] at taken
        cases taken
      | error halt =>
        rw [contributed] at taken
        rcases SchemaFile.fragment_eq_error contributed with ⟨e, rfl⟩ | unloaded | ⟨-, rfl⟩
        · cases taken
        · cases halt <;> cases taken
          exact SchemaFile.load_ne_allFailed unloaded
        · cases taken

/-- A run has taken all its turns if it gives a result, or finds that no file was compiled. -/
def Ended (result : Except Halt Compilation) : Prop :=
  (∃ c, result = .ok c) ∨ ∃ count, result = .error (.allFailed count)

theorem steps_of_ended (ended : Ended (ofFiles options start d paths).result) :
    ∃ c, (steps options d { document := start } paths).result = .ok c := by
  rcases ended with ⟨c, given⟩ | ⟨count, stopped⟩
  · exact steps_of_ofFiles given
  · cases reached : (steps options d { document := start } paths).result with
    | ok c => exact ⟨c, rfl⟩
    | error h =>
      unfold ofFiles at stopped
      rw [Outcome.andThen_error _ reached] at stopped
      rw [steps_result (Rewritten.refl d)] at reached
      exact absurd (reached.trans stopped) (turns_ne_allFailed count)

/-- A run over files that all have a problem has taken its turns, and has compiled none. -/
theorem ofFiles_of_problems (given : paths ≠ [])
    (each : ∀ p ∈ paths, ∃ e, fragment options d p = .error (.schema e)) :
    (ofFiles options start d paths).result = .error (.allFailed paths.length) := by
  have taken : ∀ p ∈ paths, Taken options d p := by
    intro p mem
    obtain ⟨e, failed⟩ := each p mem
    exact taken_iff.2 fun h stopped => ⟨e, Except.error.inj (stopped.symm.trans failed)⟩
  have noneCompiled : (afterAll options d { document := start } paths).compiled = [] := by
    simp only [afterAll, List.nil_append, List.filter_eq_nil_iff]
    intro p mem
    obtain ⟨e, failed⟩ := each p mem
    simp [SchemaFile.at?_eq_none failed]
  rw [ofFiles_result, turns_eq_ok.2 ⟨taken, rfl⟩, Results.ok_bind, noneCompiled]
  simp [given]

/-! ## What is written -/

/-- A path among `paths` leads to the place, and its file has a normal form. -/
def Rewrites (d : Disk) (paths : List Path) (l : Location) : Prop :=
  ∃ p ∈ paths, ∃ normal, d.locate p = .ok l ∧ normalized d p = .ok normal

/-- Turns leave everything as it is at places that they do not rewrite. -/
theorem find?_steps (finished : (steps options d c paths).result = .ok c')
    (untouched : ¬ Rewrites d paths l) : (steps options d c paths).disk.find? l = d.find? l := by
  have kept : Rewritten d (steps options d c paths).disk ∧
      Disk.Grown [] d (steps options d c paths).disk ∧
      (steps options d c paths).disk.find? l = d.find? l := by
    refine steps_disk_induction_of_ok (P := fun now => Rewritten d now ∧ Disk.Grown [] d now ∧
      now.find? l = d.find? l) finished ⟨.refl d, .refl [] d, rfl⟩ ?_
    intro now p mem intact before
    obtain ⟨rewritten, grown, same⟩ := before
    refine ⟨rewritten.normalize intact,
      grown.trans (SchemaFile.grown_normalize [] now p options.writeNormalized), ?_⟩
    have writing := SchemaFile.writing_normalize now p options.writeNormalized
    generalize (normalize now p options.writeNormalized).disk = next at writing
    cases writing with
    | nothing => exact same
    | @stored normal place old _ reached _ leads held =>
      -- the place that is written is the one that the path named before the run
      have accepted : normalized d p = .ok normal := (rewritten.normalized_eq p).symm.trans reached
      obtain ⟨first, _, leads₀, -⟩ := SchemaFile.located_of_normalized accepted
      have moved : place = first := Except.ok.inj (leads.symm.trans (grown.locate leads₀))
      have elsewhere : l ≠ place := by
        intro here
        exact untouched ⟨p, mem, normal, by rw [leads₀, here, moved], accepted⟩
      rw [Disk.find?_set now l _ (Disk.ne_nil_of_file held), if_neg elsewhere, same]
    | spoilt spoils => exact absurd spoils intact
  exact kept.2.2

/-- **Which files a run rewrites.** After a run that takes all its turns and writes, every file that
it lists and whose schema has a normal form holds the text of that, as the schema was before the
run, and every other place of the disk holds what it held. Without writing, nothing changes. -/
theorem ofFiles_rewrites (ended : Ended (ofFiles options start d paths).result) :
    (options.writeNormalized = true →
      (∀ p ∈ paths, ∀ schema normal, SchemaFile.load d p = .ok schema →
        normalForm schema = .ok normal →
        (ofFiles options start d paths).disk.readBytes p = .ok (text normal).toUTF8) ∧
      ∀ l, ¬ Rewrites d paths l → (ofFiles options start d paths).disk.find? l = d.find? l) ∧
    (options.writeNormalized = false → (ofFiles options start d paths).disk = d) := by
  obtain ⟨c, finished⟩ := steps_of_ended ended
  refine ⟨fun write => ⟨?listed, ?others⟩, ?still⟩
  case listed =>
    intro p mem schema normal loaded h
    have inNormalForm := inNormalForm_steps write finished p mem
    rw [ofFiles_disk]
    apply inNormalForm
    rw [(rewritten_steps finished).normalized_eq]
    exact SchemaFile.normalized_eq_ok.2 ⟨schema, loaded, h⟩
  case others =>
    intro l untouched
    rw [ofFiles_disk]
    exact find?_steps finished untouched
  case still =>
    intro still
    refine ofFiles_disk_of_still (fun p _ => ?_) start
    rw [still]
    exact SchemaFile.disk_of_not_write d p

/-! ## A file that does not compile, twice -/

/-- A schema that has a normal form, with a method that does not exist. -/
def ballotSchema : Fields Json := [
  ("x-documentConfig", .obj [("documentName", .str "Ballot"), ("interfaceName", .str "Ballot"),
    ("methods", .arr [.str "vote"])]),
  ("properties", .obj [("choice", .obj [("required", .bool true)])])]

def ballotDisk : Disk where
  entries := [(["ballot.json"], .file (SchemaFile.text ballotSchema).toUTF8),
    (["readme"], .file "Ballots".toUTF8)]

def ballotPath : Path := ⟨.here, ["ballot.json"]⟩

theorem ballot_fails (held : d.readBytes p = .ok (text ballotSchema).toUTF8) :
    ∃ normal e, normalForm ballotSchema = .ok normal ∧ fragment {} d p = .error (.schema e) := by
  have storable : (Json.obj ballotSchema).Storable := rfl
  obtain ⟨normal, h, cause, refused⟩ : ∃ normal, normalForm ballotSchema = .ok normal ∧
      ∃ cause, Fragment.ofSchema normal {} = .error cause := ⟨_, rfl, _, rfl⟩
  refine ⟨normal, ⟨cause, some p.toString⟩, h, ?_⟩
  rw [SchemaFile.fragment_of_text storable held h, refused]
  rfl

/-- No file of the run compiles, and the one that is there is rewritten nonetheless. -/
theorem ofFiles_rewrites_ballot :
    ∃ normal, normalForm ballotSchema = .ok normal ∧
      (ofFiles {} {} ballotDisk [ballotPath, missingPath, ballotPath]).result =
        .error (.allFailed 3) ∧
      (ofFiles {} {} ballotDisk [ballotPath, missingPath, ballotPath]).disk.readBytes ballotPath =
        .ok (text normal).toUTF8 := by
  have loaded : SchemaFile.load ballotDisk ballotPath = .ok ballotSchema :=
    SchemaFile.load_text rfl rfl
  obtain ⟨normal, e, h, fails⟩ := ballot_fails (d := ballotDisk) (p := ballotPath) rfl
  have failed : ∃ e, fragment {} ballotDisk ballotPath = .error (.schema e) := ⟨e, fails⟩
  have missing : ∃ e, fragment {} ballotDisk missingPath = .error (.schema e) := ⟨_, rfl⟩
  have stopped : (ofFiles {} {} ballotDisk [ballotPath, missingPath, ballotPath]).result =
      .error (.allFailed 3) := by
    refine ofFiles_of_problems (List.cons_ne_nil _ _) fun p mem => ?_
    simp only [List.mem_cons, List.not_mem_nil, or_false] at mem
    rcases mem with rfl | rfl | rfl
    · exact failed
    · exact missing
    · exact failed
  exact ⟨normal, h, stopped,
    ((ofFiles_rewrites (Or.inr ⟨3, stopped⟩)).1 rfl).1 ballotPath List.mem_cons_self _ normal
      loaded h⟩

end Compilation
end ResourceApi
