import ResourceApi.Compilation.Files
import ResourceApi.Proofs.Api.Fragment

/-! # Two runs over the same files

Of the options of a run, most only reach the resources that it adds to its document. Two runs
whose options differ in these take the same turns: they write the same, report the same and
pass over the same files. If a relation holds of their documents and is kept when one
resource is added to both, then it holds of what the runs come to. -/

namespace ResourceApi

namespace Outcome

variable {α β γ δ : Type}

/-- Outcomes that leave the same disk and the same notices, and stop for the same reason or have
related results. -/
inductive Alike (R : α → β → Prop) : Outcome α → Outcome β → Prop
  | reached (disk : Disk) (notices : List Notice) {a : α} {b : β} (related : R a b) :
      Alike R ⟨disk, notices, .ok a⟩ ⟨disk, notices, .ok b⟩
  | stopped (disk : Disk) (notices : List Notice) (halt : Halt) :
      Alike R ⟨disk, notices, .error halt⟩ ⟨disk, notices, .error halt⟩

theorem Alike.self (o : Outcome α) : Alike Eq o o := by
  obtain ⟨disk, notices, result⟩ := o
  cases result with
  | error halt => exact .stopped disk notices halt
  | ok a => exact .reached disk notices rfl

theorem Alike.andThen {R : α → β → Prop} {S : γ → δ → Prop} {o : Outcome α} {o' : Outcome β}
    {next : Disk → α → Outcome γ} {next' : Disk → β → Outcome δ} (alike : Alike R o o')
    (onward : ∀ d a b, R a b → Alike S (next d a) (next' d b)) :
    Alike S (o.andThen next) (o'.andThen next') := by
  cases alike with
  | stopped disk notices halt => exact .stopped disk notices halt
  | @reached disk notices a b related =>
    have after := onward disk a b related
    rw [andThen_ok next rfl, andThen_ok next' rfl]
    generalize next disk a = o, next' disk b = o' at after
    cases after with
    | reached disk' notices' related' => exact .reached disk' _ related'
    | stopped disk' notices' halt => exact .stopped disk' _ halt

/-- What is known of the results may be used to relate them. -/
theorem Alike.imp {R S : α → β → Prop} {o : Outcome α} {o' : Outcome β} (alike : Alike R o o')
    (onward : ∀ a b, o.result = .ok a → o'.result = .ok b → R a b → S a b) : Alike S o o' := by
  cases alike with
  | reached disk notices related => exact .reached disk notices (onward _ _ rfl rfl related)
  | stopped disk notices halt => exact .stopped disk notices halt

end Outcome

namespace Compilation

/-- Compilations of the same paths whose documents are related. -/
structure Abreast (R : Document → Document → Prop) (c c' : Compilation) : Prop where
  document : R c.document c'.document
  compiled : c'.compiled = c.compiled
  failed : c'.failed = c.failed

section Runs

variable {options options' : Options} {R : Document → Document → Prop} {d : Disk}
  (writes : options'.writeNormalized = options.writeNormalized)
  (adds : ∀ document document' (r : Resource), R document document' →
    R (document.add (r.fragment options)) (document'.add (r.fragment options')))

include writes adds

theorem compileFile_alike {document document' : Document} (related : R document document')
    (p : Path) :
    (compileFile options d document p).Alike R (compileFile options' d document' p) := by
  unfold compileFile
  rw [writes]
  refine (Outcome.Alike.self _).andThen fun d schema schema' same => ?_
  subst same
  rw [Document.addResource_eq, Document.addResource_eq, Resource.fragment_eq, Resource.fragment_eq]
  cases Resource.ofSchema schema with
  | error problem => exact .stopped d [] _
  | ok r => exact .reached d [] (adds _ _ r related)

/-- A step writes and reports the same in both runs, and keeps their documents related. -/
theorem step_alike {c c' : Compilation} (abreast : Abreast R c c') (p : Path) :
    (step options d c p).Alike (Abreast R) (step options' d c' p) := by
  have alike := compileFile_alike writes adds (d := d) abreast.document p
  unfold step
  generalize compileFile options d c.document p = o, compileFile options' d c'.document p = o'
    at alike
  cases alike with
  | reached disk notices related =>
    refine .reached disk _ ⟨related, ?_, abreast.failed⟩
    rw [pass, pass, abreast.compiled]
  | stopped disk notices halt =>
    cases halt with
    | schema e =>
      refine .reached disk _ ⟨abreast.document, abreast.compiled, ?_⟩
      rw [fail, fail, abreast.failed]
    | notUnicode | longInt | disk | allFailed => exact .stopped disk _ _

theorem steps_alike {c c' : Compilation} (abreast : Abreast R c c') (paths : List Path) :
    (steps options d c paths).Alike (Abreast R) (steps options' d c' paths) := by
  induction paths generalizing d c c' with
  | nil => exact .reached d [] abreast
  | cons p rest ih =>
    exact (step_alike writes adds abreast p).andThen fun d c c' abreast => ih abreast

/-- Runs from related documents come to related documents. -/
theorem ofFiles_alike {start start' : Document} (related : R start start') (paths : List Path) :
    (ofFiles options start d paths).Alike (Abreast R) (ofFiles options' start' d paths) := by
  have first : Abreast R { document := start } { document := start' } := ⟨related, rfl, rfl⟩
  unfold ofFiles
  refine (steps_alike writes adds first paths).andThen fun d c c' abreast => ?_
  rw [abreast.compiled]
  split
  · exact .stopped d [] _
  · exact .reached d [] abreast

end Runs
end Compilation
end ResourceApi
