import ResourceApi.Proofs.Compilation.Runs

/-! # References to component schemas

Operations name the component schemas they refer to, and methods those they register,
apart from each other. The names agree for every method but `options`, `head` and
`trace`: these refer to an answer that no method registers. In a document made from
nothing, the references of an operation resolve exactly if its verb is none of the
three, whichever path items and schemas have taken the place of others. -/

namespace ResourceApi

/-! ## References in JSON -/

namespace Json

mutual
/-- The texts of all references in a value, at any depth. -/
def references : Json → List String
  | .arr items => referencesItems items
  | .obj fields => referencesFields fields
  | _ => []

def referencesItems : List Json → List String
  | [] => []
  | v :: rest => references v ++ referencesItems rest

def referencesFields : List (String × Json) → List String
  | [] => []
  | (name, v) :: rest =>
    (if name = "$ref" then v.str?.toList else references v) ++ referencesFields rest
end

def referencesAt (v : Json) (name : String) : List String :=
  ((v.field? name).map references).getD []

/-- The references in the request body and in the responses of an operation. -/
def operationReferences (operation : Json) : List String :=
  operation.referencesAt "requestBody" ++ operation.referencesAt "responses"

end Json

/-- The reference to a component schema, as a text. -/
def referenceTo (name : String) : String := "#/components/schemas/" ++ name

theorem referenceTo_inj {a b : String} (h : referenceTo a = referenceTo b) : a = b :=
  String.append_right_inj _ |>.1 h

/-! ## Operations -/

theorem references_response (r : Response) :
    r.toJson.references = r.component.toList.map referenceTo := by
  obtain ⟨status, description, component⟩ := r
  cases component <;> rfl

/-- No status is written as the key of a reference. -/
theorem status_ne_ref (status : Nat) : toString status ≠ "$ref" := by
  intro same
  have mem : '$' ∈ Nat.toDigits 10 status := by
    rw [← Nat.toList_repr, show status.repr = "$ref" from same]
    decide
  exact absurd (Nat.isDigit_of_mem_toDigits (by decide) (by decide) mem) (by decide)

theorem references_responses (responses : List Response) :
    Json.referencesFields (responses.map fun r => (toString r.status, r.toJson)) =
      responses.flatMap fun r => r.component.toList.map referenceTo := by
  induction responses with
  | nil => rfl
  | cons r rest ih =>
    rw [List.map_cons, Json.referencesFields, if_neg (status_ne_ref _), references_response, ih,
      List.flatMap_cons]

theorem references_failures :
    (failures.flatMap fun r => r.component.toList.map referenceTo) = [] := rfl

namespace Operation

theorem referencesAt_body (o : Operation) :
    o.toJson.referencesAt "requestBody" = (o.body.map fun b => referenceTo b.component).toList := by
  obtain ⟨id, tag, parameters, body, responses⟩ := o
  cases body <;> rfl

theorem field?_responses (o : Operation) : o.toJson.field? "responses" =
    some (.obj (o.responses.map fun r => (toString r.status, r.toJson))) := by
  obtain ⟨id, tag, parameters, body, responses⟩ := o
  cases body <;> rfl

theorem referencesAt_responses (o : Operation) :
    o.toJson.referencesAt "responses" =
      o.responses.flatMap fun r => r.component.toList.map referenceTo := by
  rw [Json.referencesAt, o.field?_responses, Option.map_some, Option.getD_some, Json.references,
    references_responses]

end Operation

/-! ## What a method refers to and what it registers -/

namespace Method

/-- The component schemas that the operation of a method refers to. -/
def referred (m : Method) (interfaceName : String) : List String :=
  (if m.hasBody then [bodyName m.verb interfaceName] else []) ++
    (Operation.success m interfaceName).component.toList

/-- The verbs of the methods that answer with content but register none. -/
def unregisteredVerbs : List String := ["options", "head", "trace"]

theorem references_operation (config : DocumentConfig) (properties : Fields Json) (m : Method) :
    (operation config properties m).operationReferences =
      (m.referred config.interfaceName).map referenceTo := by
  rw [Json.operationReferences, operation, Operation.referencesAt_body,
    Operation.referencesAt_responses,
    Operation.ofMethod, List.flatMap_cons, references_failures, List.append_nil, referred,
    List.map_append]
  cases m <;> rfl

/-- Methods that register anything register all that they refer to. -/
theorem registered_of_referred {m : Method} (h : m.verb ∉ unregisteredVerbs) (s : Shapes)
    {interfaceName name : String} (mem : name ∈ m.referred interfaceName) :
    name ∈ (s.registered interfaceName m).map (·.1) := by
  cases m with
  | options | head | trace => exact absurd (by decide) h
  | delete => cases mem
  | getList => exact List.mem_cons.2 (Or.inl (List.mem_singleton.1 mem))
  | get | post | put | patch => exact mem

/-- Methods that register nothing but answer with content refer to that alone. -/
theorem referred_of_unregistered {m : Method} (h : m.verb ∈ unregisteredVerbs)
    (interfaceName : String) : m.referred interfaceName = [responseName m.verb interfaceName] := by
  cases m with
  | options | head | trace => rfl
  | get | getList | post | put | patch | delete => exact absurd h (by decide)

/-- Whatever is registered starts with the verb of a method that registers something. -/
theorem head_of_registered {s : Shapes} {interfaceName : String} {m : Method} {name : String}
    (mem : name ∈ (s.registered interfaceName m).map (·.1)) :
    name.toList.head? = some 'g' ∨ name.toList.head? = some 'p' := by
  cases m with
  | delete | options | head | trace => cases mem
  | get | getList | post | put | patch =>
    simp only [Shapes.registered, List.map_cons, List.map_nil, List.mem_cons, List.not_mem_nil,
      or_false] at mem
    first
      | subst mem; simp [responseName, verb, Method.name]
      | rcases mem with rfl | rfl <;>
          simp [responseName, bodyName, listName, verb, Method.name]

theorem head_of_unregistered {m : Method} (h : m.verb ∈ unregisteredVerbs)
    (interfaceName : String) :
    (responseName m.verb interfaceName).toList.head? ≠ some 'g' ∧
      (responseName m.verb interfaceName).toList.head? ≠ some 'p' := by
  cases m with
  | options | head | trace => simp [responseName, verb, Method.name]
  | get | getList | post | put | patch | delete => exact absurd h (by decide)

end Method

/-! ## Documents -/

/-- The fields of path items by what they refer to, and the schemas by how their names start. -/
structure Document.Linked (d : Document) : Prop where
  /-- A field refers to nothing, or to what a method of its verb refers to; that is registered if
  methods of the verb register anything. -/
  refers : ∀ route item verb value, d.paths.get? route = some item →
    item.field? verb = some value →
    (verb ∉ Method.unregisteredVerbs ∧ value.operationReferences = []) ∨
      ∃ (m : Method) (interfaceName : String), m.verb = verb ∧
        value.operationReferences = (m.referred interfaceName).map referenceTo ∧
        (verb ∉ Method.unregisteredVerbs →
          ∀ name ∈ m.referred interfaceName, name ∈ d.schemas.names)
  registered : ∀ name ∈ d.schemas.names,
    name.toList.head? = some 'g' ∨ name.toList.head? = some 'p'

namespace Document.Linked

theorem of_empty {d : Document} (paths : d.paths = []) (schemas : d.schemas = []) : d.Linked where
  refers route item verb value placed _ := by
    rw [paths] at placed
    cases placed
  registered name mem := by
    rw [schemas] at mem
    cases mem

/-- The names in a path item are no operations. -/
theorem named_field {config : DocumentConfig} {verb : String} {value : Json}
    (h : (verb, value) ∈ nameFields config) :
    verb ∉ Method.unregisteredVerbs ∧ value.operationReferences = [] := by
  rcases List.mem_cons.1 h with first | second
  · obtain ⟨rfl, rfl⟩ := Prod.mk.inj first
    exact ⟨by decide, rfl⟩
  · obtain ⟨rfl, rfl⟩ := Prod.mk.inj (List.mem_singleton.1 second)
    exact ⟨by decide, rfl⟩

/-- References are not those of the parameters. -/
theorem operationReferences_congr {v w : Json}
    (h : ∀ name, name ≠ "parameters" → v.field? name = w.field? name) :
    v.operationReferences = w.operationReferences := by
  rw [Json.operationReferences, Json.operationReferences, Json.referencesAt, Json.referencesAt,
    h "requestBody" (by decide), h "responses" (by decide)]
  rfl

/-- Adding the fragment of a resource keeps a document linked: a path item that stays keeps the
schemas it refers to, and one that is new brings its own. -/
theorem add {d : Document} (linked : d.Linked) (r : Resource) (options : Options) :
    (d.add (r.fragment options)).Linked where
  refers route item verb value placed held := by
    have placed : (d.paths.merge (r.paths options.routePrefix)).get? route = some item := placed
    rw [Fields.get?_merge (r.nodup_paths _), Option.or_eq_some_iff] at placed
    rcases placed with new | ⟨-, old⟩
    · rcases Resource.paths_field new held with named | ⟨m, mem, -, verbs, same⟩
      · exact Or.inl (named_field named)
      · refine Or.inr ⟨m, r.config.interfaceName, verbs, ?_, ?_⟩
        · rw [operationReferences_congr same, Method.references_operation]
        · intro registers name referred
          subst verbs
          refine Fields.mem_names_merge.2 (Or.inr (r.mem_names_schemas.2 ⟨m, mem, ?_⟩))
          exact Method.registered_of_referred registers _ referred
    · refine (linked.refers route item verb value old held).imp id ?_
      rintro ⟨m, interfaceName, verbs, refs, registers⟩
      refine ⟨m, interfaceName, verbs, refs, fun h name referred => ?_⟩
      exact Fields.mem_names_merge.2 (Or.inl (registers h name referred))
  registered name mem := by
    rcases Fields.mem_names_merge.1 mem with old | new
    · exact linked.registered name old
    · obtain ⟨m, -, mem⟩ := r.mem_names_schemas.1 new
      exact Method.head_of_registered mem

/-- In a linked document the references of an operation resolve unless its verb is one of those
whose methods register nothing and answer with content. -/
theorem resolve_iff {d : Document} (linked : d.Linked) {route verb : String}
    {item operation : Json} (placed : d.paths.get? route = some item)
    (held : item.field? verb = some operation) :
    (∀ ref ∈ operation.operationReferences, ∃ name ∈ d.schemas.names, ref = referenceTo name) ↔
      verb ∉ Method.unregisteredVerbs := by
  rcases linked.refers route item verb operation placed held with
    ⟨registers, none⟩ | ⟨m, interfaceName, rfl, refs, registers⟩
  · rw [none]
    exact ⟨fun _ => registers, fun _ ref mem => absurd mem List.not_mem_nil⟩
  · constructor
    · intro resolve unregistered
      rw [refs, Method.referred_of_unregistered unregistered] at resolve
      obtain ⟨name, mem, same⟩ := resolve _ List.mem_cons_self
      have head := linked.registered name mem
      rw [← referenceTo_inj same] at head
      obtain ⟨notG, notP⟩ := Method.head_of_unregistered unregistered interfaceName
      exact head.elim notG notP
    · intro h ref mem
      rw [refs] at mem
      obtain ⟨name, referred, rfl⟩ := List.mem_map.1 mem
      exact ⟨name, registers h name referred, rfl⟩

end Document.Linked

namespace Compilation

theorem linked_of_ofFiles {options : Options} {d : Disk} {paths : List Path} {c : Compilation}
    (finished : (ofFiles options options.start d paths).result = .ok c) : c.document.Linked := by
  refine document_induction finished (Document.Linked.of_empty rfl rfl) ?_
  intro document schema f linked contributed
  rw [Resource.fragment_eq] at contributed
  obtain ⟨r, -, rfl⟩ := Results.map_eq_ok.1 contributed
  exact linked.add r options

/-- **References resolve exactly outside `options`, `head` and `trace`**: after every run that starts
from the empty document, all references in the request body and the responses of an operation
name component schemas of the document if and only if its verb is none of the three. -/
theorem references_resolve_iff {options : Options} {d : Disk} {paths : List Path} {c : Compilation}
    (finished : (ofFiles options options.start d paths).result = .ok c) {route verb : String}
    {item operation : Json} (placed : c.document.paths.get? route = some item)
    (held : item.field? verb = some operation) :
    (∀ ref ∈ operation.operationReferences,
      ∃ name ∈ c.document.schemas.names, ref = "#/components/schemas/" ++ name) ↔
      verb ∉ ["options", "head", "trace"] :=
  (linked_of_ofFiles finished).resolve_iff placed held

theorem references_resolve_iff_order :
    ∃ c, (ofFiles {} (Options.start {}) orderDisk [orderPath, missingPath, orderPath]).result =
        .ok c ∧
      ∃ item listing check, c.document.paths.get? "/order" = some item ∧
        item.field? "get" = some listing ∧ item.field? "options" = some check ∧
        (∀ ref ∈ listing.operationReferences,
          ∃ name ∈ c.document.schemas.names, ref = "#/components/schemas/" ++ name) ∧
        ¬ ∀ ref ∈ check.operationReferences,
          ∃ name ∈ c.document.schemas.names, ref = "#/components/schemas/" ++ name := by
  obtain ⟨c, finished, document⟩ := ofFiles_order {} (Options.start {})
  have placed : c.document.paths.get? "/order" = some (.obj orderResource.collection) := by
    rw [document]
    rfl
  refine ⟨c, finished, _, _, _, placed, (rfl : Json.field? _ "get" = _),
    (rfl : Json.field? _ "options" = _), ?_, ?_⟩
  · have held : (Json.obj orderResource.collection).field? "get" = _ := rfl
    exact (references_resolve_iff finished placed held).2 (by decide)
  · have held : (Json.obj orderResource.collection).field? "options" = _ := rfl
    intro resolve
    exact absurd ((references_resolve_iff finished placed held).1 resolve) (by decide)

end Compilation
end ResourceApi
