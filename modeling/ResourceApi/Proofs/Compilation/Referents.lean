import ResourceApi.Proofs.Api.References
import ResourceApi.Proofs.Compilation.Identifiers

/-! # What references resolve to

An operation refers to component schemas by names that it puts together itself, and the
components of its resource are registered under names that are put together elsewhere, by
each method anew. In a document made from files whose resources share no name, every
operation that refers to a registered component still finds what its own resource
registered for it: its answer is the shape of the resource in answers, and its request
the shape that fits the method. -/

namespace ResourceApi

/-! ## References of an operation -/

namespace Json

/-- The value that a chain of names leads to. -/
def down? : Json → List String → Option Json
  | v, [] => some v
  | v, name :: rest => (v.field? name).bind (down? · rest)

/-- The reference of the JSON content of an answer or a request. -/
def contentReference : List String := ["content", "application/json", "schema", "$ref"]

/-- The reference of the answer with a status. -/
def answerReference? (operation : Json) (status : String) : Option Json :=
  operation.down? ("responses" :: status :: contentReference)

/-- The reference of the request. -/
def requestReference? (operation : Json) : Option Json :=
  operation.down? ("requestBody" :: contentReference)

end Json

/-- The status of an answer to a request that succeeds. -/
def Method.successStatus : Method → String
  | .post => "201"
  | _ => "200"

/-- The methods that register components. -/
def Method.registering : List Method := [.get, .getList, .post, .put, .patch]

namespace Resource

variable {r : Resource} {m : Method} {value : Json}

theorem IsOperation.down? (isOperation : r.IsOperation m value) {name : String}
    (other : name ≠ "parameters") (rest : List String) :
    value.down? (name :: rest) =
      (operation r.config r.properties m).down? (name :: rest) := by
  rw [Json.down?, Json.down?, isOperation name other]

theorem successStatus_eq (m : Method) (interfaceName : String) :
    toString (Operation.success m interfaceName).status = m.successStatus := by
  have created : toString 201 = "201" := by decide
  have done : toString 200 = "200" := by decide
  cases m with
  | post => exact created
  | get | getList | put | patch | delete | options | head | trace => exact done

theorem IsOperation.answerReference? (isOperation : r.IsOperation m value)
    (registers : m ∈ Method.registering) :
    value.answerReference? m.successStatus =
      some (.str (referenceTo (responseName m.verb r.config.interfaceName))) := by
  have answer : (Operation.ofMethod m r.config r.properties).responses =
      Operation.success m r.config.interfaceName :: failures := rfl
  rw [Json.answerReference?, isOperation.down? (by decide), Json.down?, operation,
    Operation.field?_responses, answer, List.map_cons, Option.bind_some, Json.down?,
    Json.field?_obj, Fields.get?_cons, if_pos (successStatus_eq ..), Option.bind_some]
  cases m with
  | get | getList | post | put | patch => rfl
  | delete | options | head | trace => exact absurd registers (by decide)

theorem IsOperation.requestReference? (isOperation : r.IsOperation m value)
    (hasBody : m.hasBody = true) :
    value.requestReference? = some (.str (referenceTo (bodyName m.verb r.config.interfaceName))) := by
  rw [Json.requestReference?, isOperation.down? (by decide)]
  cases m with
  | post | put | patch => rfl
  | get | getList | delete | options | head | trace => cases hasBody

/-! ## What the methods register -/

variable {allowIdentifier : Bool}

theorem response_registered (registers : m ∈ Method.registering) :
    (responseName m.verb r.config.interfaceName, .obj (responseShape r.properties)) ∈
      (r.shapes allowIdentifier).registered r.config.interfaceName m := by
  cases m with
  | get | getList => exact List.mem_cons_self
  | post | put | patch => exact List.mem_cons_of_mem _ List.mem_cons_self
  | delete | options | head | trace => exact absurd registers (by decide)

theorem writeBody_registered (writes : m ∈ [Method.post, .put]) :
    (bodyName m.verb r.config.interfaceName, .obj (r.writeBody allowIdentifier)) ∈
      (r.shapes allowIdentifier).registered r.config.interfaceName m := by
  cases m with
  | post | put => exact List.mem_cons_self
  | get | getList | patch | delete | options | head | trace => exact absurd writes (by decide)

theorem changeBody_registered :
    (bodyName Method.patch.verb r.config.interfaceName, .obj r.changeBody) ∈
      (r.shapes allowIdentifier).registered r.config.interfaceName .patch :=
  List.mem_cons_self

end Resource

/-! ## Documents of independent files -/

/-- The reference names a component schema of the document. -/
def Document.Resolves (d : Document) (reference : Option Json) (schema : Fields Json) : Prop :=
  ∃ name, reference = some (.str ("#/components/schemas/" ++ name)) ∧
    d.schemas.get? name = some (.obj schema)

namespace Compilation

variable {options : Options} {d : Disk} {c : Compilation} {p : Path} {paths : List Path}
  {r : Resource} {m : Method}

/-- The operation of a method stands in the document. -/
theorem Independent.operation (independent : Independent d paths)
    (finished : (ofFiles options options.start d paths).result = .ok c) (mem : p ∈ paths)
    (isResource : Resource.at? d p = some r) (listed : m ∈ r.methods) :
    ∃ operation, c.document.operation? (r.route options.routePrefix m) m.verb = some operation ∧
      r.IsOperation m operation := by
  obtain ⟨item, value, placed, held, isOperation⟩ := r.get?_paths listed options.routePrefix
  refine ⟨value, ?_, isOperation⟩
  rw [Document.operation?, independent.get?_paths finished mem isResource placed]
  exact held

/-- **References resolve to what their own resource registered.** If all files compile and their
resources share no name, the operation of every method stands on its route under its verb; its
answer resolves to the shape of its resource in answers, and its request to the whole body, with
the identifier exactly if that is allowed, or for a change of parts to the partial body. -/
theorem ofFiles_resolves (each : ∀ p ∈ paths, Compiles options d p)
    (independent : Independent d paths) :
    ∃ c, (ofFiles options options.start d paths).result = .ok c ∧ c.compiled = paths ∧
      ∀ p ∈ paths, ∀ r, Resource.at? d p = some r → ∀ m ∈ r.methods, m ∈ Method.registering →
        ∃ operation, c.document.operation? (r.route options.routePrefix m) m.verb = some operation ∧
          c.document.Resolves (operation.answerReference? m.successStatus)
            (responseShape r.properties) ∧
          (m ∈ [.post, .put] → c.document.Resolves operation.requestReference?
            (r.writeBody options.allowIdentifier)) ∧
          (m = .patch → c.document.Resolves operation.requestReference? r.changeBody) := by
  obtain ⟨c, finished, compiled⟩ :
      ∃ c, (ofFiles options options.start d paths).result = .ok c ∧ c.compiled = paths :=
    ofFiles_of_compiles each
  refine ⟨c, finished, compiled, fun p mem r isResource m listed registers => ?_⟩
  obtain ⟨operation, there, isOperation⟩ := independent.operation finished mem isResource listed
  have held {name : String} {schema : Fields Json}
      (registered : (name, .obj schema) ∈
        (r.shapes options.allowIdentifier).registered r.config.interfaceName m) :
      c.document.schemas.get? name = some (.obj schema) :=
    independent.get?_schemas finished mem isResource (Resource.get?_schemas listed registered)
  refine ⟨operation, there, ?answer, fun writes => ?write, fun changes => ?change⟩
  case answer =>
    exact ⟨_, isOperation.answerReference? registers, held (Resource.response_registered registers)⟩
  case write =>
    have hasBody : m.hasBody = true := by
      cases m with
      | post | put => rfl
      | get | getList | patch | delete | options | head | trace => exact absurd writes (by decide)
    exact ⟨_, isOperation.requestReference? hasBody, held (Resource.writeBody_registered writes)⟩
  case change =>
    subst changes
    exact ⟨_, isOperation.requestReference? rfl, held Resource.changeBody_registered⟩

/-- Replacing an order takes a body without identifier, and gives an order; listing the clients
refers to the shape of one client. -/
theorem ofFiles_resolves_trade :
    ∃ c, (ofFiles {} (Options.start {}) tradeDisk [orderPath, clientPath]).result = .ok c ∧
      (∃ replacing, c.document.operation? "/order/\x7bid\x7d" "put" = some replacing ∧
        c.document.Resolves (replacing.answerReference? "200")
          (responseShape orderResource.properties) ∧
        c.document.Resolves replacing.requestReference?
          (withoutIdentifier orderResource.fullBody)) ∧
      ∃ listing, c.document.operation? "/client" "get" = some listing ∧
        c.document.Resolves (listing.answerReference? "200") (responseShape []) := by
  obtain ⟨each, independent⟩ := compile_trade
  obtain ⟨c, finished, -, resolves⟩ := ofFiles_resolves each independent
  have order := at?_trade.1
  have client : Resource.at? tradeDisk clientPath = some clientResource :=
    at?_clientPath (SchemaFile.load_text rfl rfl)
  obtain ⟨replacing, there, answer, write, -⟩ :=
    resolves orderPath (by decide) orderResource order .put (by decide) (by decide)
  obtain ⟨listing, there', answer', -⟩ :=
    resolves clientPath (by decide) clientResource client .getList (by decide) (by decide)
  exact ⟨c, finished, ⟨replacing, there, answer, write (by decide)⟩, listing, there', answer'⟩

end Compilation
end ResourceApi
