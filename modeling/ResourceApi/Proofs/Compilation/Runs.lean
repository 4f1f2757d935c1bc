import ResourceApi.Compilation.Files
import ResourceApi.Proofs.Api.Fragment
import ResourceApi.Proofs.Resource.StoredFile

/-! # Runs over files

A run takes one turn for each path. What a file contributes in its turn depends neither
on the document so far nor on what the run has written: a file that was normalized by an
earlier turn contributes what it would have at the start. So a run is a fold over what
the paths contribute on the first disk, and the document after it is the start with
these fragments added one after the other. -/

namespace ResourceApi

/-! ## What files contribute -/

/-- The fragment of a file's bytes: that of the normal form of the schema that they hold. There is
none if the normal form is to be written and holds half of a surrogate pair. -/
def Fragment.ofBytes? (options : Options) (bytes : ByteArray) : Option Fragment := do
  let text ← (textOfBytes bytes).toOption
  let v ← (Json.read text).toOption
  let schema ← v.fields?
  let normal ← (normalForm schema).toOption
  if options.writeNormalized && SchemaFile.holdsHalf text then none
  else (Fragment.ofSchema normal options).toOption

/-- The fragment of the file at a path. -/
def Fragment.at? (options : Options) (d : Disk) (p : Path) : Option Fragment :=
  (d.readBytes p).toOption.bind (Fragment.ofBytes? options)

theorem Fragment.ofSchema_of_at? {options : Options} {d : Disk} {p : Path} {f : Fragment}
    (found : Fragment.at? options d p = some f) :
    ∃ schema, Fragment.ofSchema schema options = .ok f := by
  simp only [Fragment.at?, Fragment.ofBytes?, Option.bind_eq_bind, Option.bind_eq_some_iff,
    Option.ite_none_left_eq_some, Results.toOption_eq_some] at found
  obtain ⟨-, -, -, -, -, -, -, -, normal, -, -, built⟩ := found
  exact ⟨normal, built⟩

theorem Json.eq_obj_of_fields? {v : Json} {fields : Fields Json} (h : v.fields? = some fields) :
    v = .obj fields := by
  cases v with
  | obj fs => exact congrArg Json.obj (Option.some.inj h)
  | null | bool | int | float | str | arr => cases h

namespace SchemaFile

variable {options : Options} {d d₀ : Disk} {p : Path} {f : Fragment}

/-- The fragment of the file at a path, or why its turn fails. -/
def fragment (options : Options) (d : Disk) (p : Path) : Except Halt Fragment := do
  let normal ← normalizedFor options.writeNormalized d p
  (Fragment.ofSchema normal options).mapError (problem p)

theorem Rewritten.fragment_eq (rewritten : Rewritten d₀ d) (options : Options) (p : Path) :
    fragment options d p = fragment options d₀ p := by
  rw [fragment, fragment, rewritten.normalizedFor_eq]

/-- The turn of a file that is spoilt fails. -/
theorem fragment_of_spoils (spoils : Spoils options.writeNormalized d p) :
    fragment options d p = .error (.notUnicode .encoding) := by
  rw [fragment, normalizedFor_of_spoils spoils, Results.error_bind]

/-- Files have a fragment exactly if their turns do not fail. -/
theorem fragment_eq_ok : fragment options d p = .ok f ↔ Fragment.at? options d p = some f := by
  simp only [fragment, normalizedFor, Results.bind_eq_ok, Results.mapError_eq_ok,
    normalized_eq_ok, Fragment.at?, Fragment.ofBytes?, Option.bind_eq_bind, Option.bind_eq_some_iff,
    Option.ite_none_left_eq_some, Results.toOption_eq_some]
  constructor
  · rintro ⟨normal, ⟨_, ⟨schema, loaded, h⟩, kept⟩, built⟩
    obtain ⟨bytes, text, held, decoded, read⟩ := load_eq_ok.1 loaded
    split at kept
    · cases kept
    · next unhalved =>
      cases kept
      rw [halved_eq held decoded] at unhalved
      exact ⟨bytes, held, text, decoded, .obj schema, read, schema, rfl, normal, h, unhalved, built⟩
  · rintro ⟨bytes, held, text, decoded, v, read, schema, object, normal, h, unhalved, built⟩
    have loaded : load d p = .ok schema :=
      load_eq_ok.2 ⟨bytes, text, held, decoded, Json.eq_obj_of_fields? object ▸ read⟩
    rw [← halved_eq held decoded] at unhalved
    exact ⟨normal, ⟨normal, ⟨schema, loaded, h⟩, if_neg unhalved⟩, built⟩

/-- A file whose fragment cannot be given has a problem, or cannot be loaded, or is spoilt. -/
theorem fragment_eq_error {h : Halt} (stopped : fragment options d p = .error h) :
    (∃ e, h = .schema e) ∨ load d p = .error h ∨
      Spoils options.writeNormalized d p ∧ h = .notUnicode .encoding := by
  by_cases spoils : Spoils options.writeNormalized d p
  · rw [fragment_of_spoils spoils] at stopped
    exact Or.inr (Or.inr ⟨spoils, (Except.error.inj stopped).symm⟩)
  · unfold fragment at stopped
    rw [normalizedFor_of_not_spoils spoils] at stopped
    cases reached : normalized d p with
    | error halt =>
      rw [reached, Results.error_bind] at stopped
      obtain rfl := Except.error.inj stopped
      exact (normalized_eq_error reached).imp_right Or.inl
    | ok normal =>
      rw [reached, Results.ok_bind] at stopped
      cases built : Fragment.ofSchema normal options with
      | error cause =>
        rw [built] at stopped
        exact Or.inl ⟨_, (Except.error.inj stopped).symm⟩
      | ok f =>
        rw [built] at stopped
        cases stopped

/-- A file that holds the text of a schema contributes what the normal form of that does. -/
theorem fragment_of_text {schema normal : Fields Json} (storable : (Json.obj schema).Storable)
    (held : d.readBytes p = .ok (text schema).toUTF8) (h : normalForm schema = .ok normal) :
    fragment options d p = (Fragment.ofSchema normal options).mapError (problem p) := by
  rw [fragment, normalizedFor_of_text storable held h, Results.ok_bind]

theorem at?_eq_none {h : Halt} (stopped : fragment options d p = .error h) :
    Fragment.at? options d p = none := by
  rw [Option.eq_none_iff_forall_ne_some]
  intro f found
  rw [fragment_eq_ok.2 found] at stopped
  cases stopped

end SchemaFile

namespace Compilation

open SchemaFile (Rewritten normalize fragment)

variable {options : Options} {start document : Document} {d d₀ : Disk} {c c' : Compilation}
  {p : Path} {paths : List Path}

/-! ## One turn -/

theorem compileFile_disk :
    (compileFile options d document p).disk = (normalize d p options.writeNormalized).disk := by
  unfold compileFile
  cases normal : (normalize d p options.writeNormalized).result with
  | error h => rw [Outcome.andThen_error _ normal]
  | ok schema => rw [Outcome.andThen_ok _ normal]

theorem compileFile_result :
    (compileFile options d document p).result = (fragment options d p).map document.add := by
  unfold compileFile fragment
  rw [← SchemaFile.normalize_result]
  cases normal : (normalize d p options.writeNormalized).result with
  | error h => rw [Outcome.andThen_error _ normal]; rfl
  | ok schema =>
    rw [Outcome.andThen_ok _ normal, Results.ok_bind, Document.addResource_eq]
    cases Fragment.ofSchema schema options <;> rfl

/-- What comes of a turn: a fragment is added, or the problem of a schema is noted and nothing is
added. Only what is no problem of a schema stops the run. -/
def after (c : Compilation) (p : Path) : Except Halt Fragment → Except Halt Compilation
  | .ok f => .ok (c.pass p (c.document.add f))
  | .error (.schema e) => .ok (c.fail p e.message)
  | .error h => .error h

/-- The turn of a path, with what its file contributes. -/
def turn (options : Options) (d : Disk) (c : Compilation) (p : Path) : Except Halt Compilation :=
  c.after p (fragment options d p)

/-- A turn that goes on does not spoil its file. -/
theorem not_spoils_of_turn {next : Compilation} (reached : turn options d c p = .ok next) :
    ¬ SchemaFile.Spoils options.writeNormalized d p := by
  intro spoils
  rw [turn, SchemaFile.fragment_of_spoils spoils] at reached
  cases reached

/-- What a step comes to, seen from the disk that the run started on. -/
theorem step_of_rewritten (options : Options) (rewritten : Rewritten d₀ d) (c : Compilation)
    (p : Path) :
    (step options d c p).result = turn options d₀ c p ∧
      ∀ next, turn options d₀ c p = .ok next → Rewritten d₀ (step options d c p).disk := by
  constructor
  · rw [turn, ← rewritten.fragment_eq, step, compileFile_result]
    cases fragment options d p with
    | ok f => rfl
    | error h => cases h <;> rfl
  · intro next reached
    rw [step, compileFile_disk]
    exact rewritten.normalize ((rewritten.spoils_iff _ p).not.2 (not_spoils_of_turn reached))

/-! ## All turns -/

/-- Steps are turns on the disk that the run started on, whatever they write on the way. -/
theorem steps_result (rewritten : Rewritten d₀ d) :
    (steps options d c paths).result = paths.foldlM (turn options d₀) c := by
  induction paths generalizing d c with
  | nil => rfl
  | cons p rest ih =>
    obtain ⟨result, disk⟩ := step_of_rewritten options rewritten c p
    rw [steps, List.foldlM_cons, ← result]
    cases first : (step options d c p).result with
    | error h => rw [Outcome.andThen_error _ first]; rfl
    | ok next =>
      rw [Outcome.andThen_ok _ first, Results.ok_bind]
      exact ih (disk next (result.symm.trans first))

/-- The note of a turn: the problem of a schema, under the path. -/
def note? (p : Path) : Except Halt Fragment → Option (Fields String)
  | .error (.schema e) => some [(p.toString, e.message)]
  | _ => none

/-- What is noted of a path whose schema has a problem. -/
def noted (options : Options) (d : Disk) (p : Path) : Option (Fields String) :=
  note? p (fragment options d p)

/-- A turn does not stop the run: the file contributes something, or a problem is noted. -/
def Taken (options : Options) (d : Disk) (p : Path) : Prop :=
  (∃ f, Fragment.at? options d p = some f) ∨ ∃ note, noted options d p = some note

/-- Only what is no problem of a schema stops a run. -/
theorem taken_iff : Taken options d p ↔
    ∀ h, fragment options d p = .error h → ∃ e, h = .schema e := by
  unfold Taken noted
  cases contributed : fragment options d p with
  | ok f => exact iff_of_true (.inl ⟨f, SchemaFile.fragment_eq_ok.1 contributed⟩) nofun
  | error h =>
    rw [SchemaFile.at?_eq_none contributed]
    cases h <;> simp [note?]

/-- A run goes on only if it does not spoil the file. -/
theorem Taken.not_spoils (taken : Taken options d p) :
    ¬ SchemaFile.Spoils options.writeNormalized d p := by
  intro spoils
  obtain ⟨e, isProblem⟩ := taken_iff.1 taken _ (SchemaFile.fragment_of_spoils spoils)
  cases isProblem

/-- The turn of a file that is not spoilt is taken unless loading the file stops it. -/
theorem taken_iff_load (kept : ¬ SchemaFile.Spoils options.writeNormalized d p) :
    Taken options d p ↔ ∀ h, SchemaFile.load d p = .error h → ∃ e, h = .schema e := by
  constructor
  · intro taken h unloaded
    refine taken_iff.1 taken h ?_
    rw [fragment, SchemaFile.normalizedFor_of_not_spoils kept, SchemaFile.normalized, unloaded]
    rfl
  · refine fun problems => taken_iff.2 fun h stopped => ?_
    rcases SchemaFile.fragment_eq_error stopped with isProblem | unloaded | ⟨spoils, -⟩
    · exact isProblem
    · exact problems h unloaded
    · exact absurd spoils kept

/-- What turns on all the paths come to if none of them stops the run. -/
def afterAll (options : Options) (d : Disk) (c : Compilation) (paths : List Path) :
    Compilation where
  document := (paths.filterMap (Fragment.at? options d)).foldl Document.add c.document
  compiled := c.compiled ++ paths.filter fun p => (Fragment.at? options d p).isSome
  failed := (paths.filterMap (noted options d)).foldl Fields.merge c.failed

theorem afterAll_cons_of_at? {f : Fragment} (found : Fragment.at? options d p = some f) :
    afterAll options d c (p :: paths) = afterAll options d (c.pass p (c.document.add f)) paths := by
  have quiet : noted options d p = none := by
    rw [noted, SchemaFile.fragment_eq_ok.2 found]
    rfl
  simp [afterAll, pass, found, quiet]

theorem afterAll_cons_of_problem {e : SchemaError}
    (stopped : fragment options d p = .error (.schema e)) :
    afterAll options d c (p :: paths) = afterAll options d (c.fail p e.message) paths := by
  have note : noted options d p = some [(p.toString, e.message)] := by
    rw [noted, stopped]
    rfl
  simp [afterAll, fail, SchemaFile.at?_eq_none stopped, note]
  rfl

/-- Turns come to an end exactly if none of them stops the run. -/
theorem turns_eq_ok : paths.foldlM (turn options d) c = .ok c' ↔
    (∀ p ∈ paths, Taken options d p) ∧ c' = afterAll options d c paths := by
  induction paths generalizing c with
  | nil => simp [afterAll, pure, Except.pure, eq_comm]
  | cons p rest ih =>
    rw [List.foldlM_cons, turn, List.forall_mem_cons]
    cases contributed : fragment options d p with
    | ok f =>
      have found := SchemaFile.fragment_eq_ok.1 contributed
      rw [after, Results.ok_bind, ih, afterAll_cons_of_at? found]
      simp [Taken, found]
    | error h =>
      cases h with
      | schema e =>
        rw [after, Results.ok_bind, ih, afterAll_cons_of_problem contributed]
        simp [Taken, noted, note?, contributed]
      | notUnicode | longInt | disk | allFailed =>
        simp [after, Taken, noted, note?, contributed, SchemaFile.at?_eq_none contributed, bind,
          Except.bind]

/-- A run is its turns, and fails if there were some and none of them compiled a file. -/
theorem ofFiles_result (options : Options) (start : Document) (d : Disk) (paths : List Path) :
    (ofFiles options start d paths).result =
      (paths.foldlM (turn options d) { document := start } >>= fun c =>
        if !paths.isEmpty && c.compiled.isEmpty then .error (.allFailed paths.length)
        else .ok c) := by
  rw [ofFiles, ← steps_result (Rewritten.refl d)]
  cases stepped : (steps options d { document := start } paths).result with
  | error h => rw [Outcome.andThen_error _ stepped]; rfl
  | ok c =>
    rw [Outcome.andThen_ok _ stepped, Results.ok_bind]
    dsimp only
    split <;> rfl

/-- **A run gives a result** exactly if none of its turns stops it and, if there are any, one of
them compiles a file. The result is what the turns come to. -/
theorem ofFiles_eq_ok : (ofFiles options start d paths).result = .ok c ↔
    (∀ p ∈ paths, Taken options d p) ∧
      (paths = [] ∨ ∃ p ∈ paths, (Fragment.at? options d p).isSome) ∧
      c = afterAll options d { document := start } paths := by
  rw [ofFiles_result, Results.bind_eq_ok]
  have some (c' : Compilation) (isAll : c' = afterAll options d { document := start } paths) :
      (!paths.isEmpty && c'.compiled.isEmpty) = false ↔
        paths = [] ∨ ∃ p ∈ paths, (Fragment.at? options d p).isSome := by
    subst isAll
    simp [afterAll, or_iff_not_imp_left, Option.isSome_iff_ne_none]
  constructor
  · rintro ⟨last, turned, kept⟩
    obtain ⟨taken, isAll⟩ := turns_eq_ok.1 turned
    split at kept
    · cases kept
    · next one =>
      cases kept
      exact ⟨taken, (some _ isAll).1 (Bool.eq_false_of_not_eq_true one), isAll⟩
  · rintro ⟨taken, one, isAll⟩
    refine ⟨c, turns_eq_ok.2 ⟨taken, isAll⟩, ?_⟩
    rw [(some c isAll).2 one]
    rfl

/-- **The document of a run** is the start with the fragments of the files added in order, and the
paths that were compiled are those of files that have a fragment. -/
theorem ofFiles_document (finished : (ofFiles options start d paths).result = .ok c) :
    c.document = (paths.filterMap (Fragment.at? options d)).foldl Document.add start ∧
      c.compiled = paths.filter fun p => (Fragment.at? options d p).isSome := by
  obtain ⟨-, -, rfl⟩ := ofFiles_eq_ok.1 finished
  exact ⟨rfl, List.nil_append _⟩

/-- What holds of the document at the start, and still after a fragment is added, holds at the
end. -/
theorem document_induction {P : Document → Prop}
    (finished : (ofFiles options start d paths).result = .ok c) (first : P start)
    (add : ∀ document schema f, P document → Fragment.ofSchema schema options = .ok f →
      P (document.add f)) :
    P c.document := by
  rw [(ofFiles_document finished).1]
  refine List.foldlRecOn _ _ first fun document holds f mem => ?_
  obtain ⟨p, -, found⟩ := List.mem_filterMap.1 mem
  obtain ⟨schema, built⟩ := Fragment.ofSchema_of_at? found
  exact add document schema f holds built

/-! ## A run over one file, twice -/

/-- A disk that holds one schema file. -/
def orderDisk : Disk where
  entries := [(["order.json"], .file (SchemaFile.text orderSchema).toUTF8)]

def orderPath : Path := ⟨.here, ["order.json"]⟩

/-- A path that leads nowhere. -/
def missingPath : Path := ⟨.here, ["missing.json"]⟩

def orderResource : Resource where
  config := ⟨"Order", "Order", Method.all.map (·.name), none, none, []⟩
  properties := (((Json.obj orderNormal).field? "properties").bind Json.fields?).getD []
  required := ["note", "buyer"]
  methods := Method.all

/-- What the schema contributes, whichever file holds it. -/
theorem fragment_of_orderSchema (options : Options)
    (held : d.readBytes p = .ok (SchemaFile.text orderSchema).toUTF8) :
    fragment options d p = .ok (orderResource.fragment options) := by
  have storable : (Json.obj orderSchema).Storable := rfl
  have read : Resource.ofSchema orderNormal = .ok orderResource := rfl
  rw [SchemaFile.fragment_of_text storable held normalForm_orderSchema, Resource.fragment_eq, read]
  rfl

theorem fragment_order (options : Options) :
    fragment options orderDisk orderPath = .ok (orderResource.fragment options) :=
  fragment_of_orderSchema options rfl

/-- The second turn of the path finds the file rewritten, the one between finds no file. -/
theorem ofFiles_order (options : Options) (start : Document) :
    ∃ c, (ofFiles options start orderDisk [orderPath, missingPath, orderPath]).result = .ok c ∧
      c.document = (start.add (orderResource.fragment options)).add
        (orderResource.fragment options) := by
  obtain ⟨e, missing⟩ :
      ∃ e, fragment options orderDisk missingPath = .error (.schema e) := ⟨_, rfl⟩
  have found (c : Compilation) : turn options orderDisk c orderPath =
      .ok (c.pass orderPath (c.document.add (orderResource.fragment options))) := by
    rw [turn, fragment_order, after]
  have passed (c : Compilation) :
      turn options orderDisk c missingPath = .ok (c.fail missingPath e.message) := by
    rw [turn, missing, after]
  rw [ofFiles_result, List.foldlM_cons, found, Results.ok_bind, List.foldlM_cons, passed,
    Results.ok_bind, List.foldlM_cons, found, Results.ok_bind]
  exact ⟨_, rfl, rfl⟩

end Compilation
end ResourceApi
