import ResourceApi.Proofs.Api.Acceptance
import ResourceApi.Proofs.Api.PublishedLists
import ResourceApi.Proofs.Compilation.Referents

/-! # The listing of a collection

A resource that can be listed registers a list of its shape besides the shape itself. But
operations put the name of their answer together from their verb, and listing a collection
has the verb of reading one item. So the listing refers to the shape of one item, and the
list is the one component of the resource that none of its operations refers to. -/

namespace ResourceApi

open Results

/-! ## Registered and referred to -/

namespace Method

variable {interfaceName name : String}

/-- The names that a method refers to end in other letters than those of lists. -/
theorem last_of_referred {m : Method} (mem : name ∈ m.referred interfaceName) :
    name.toList.getLast? = some 'e' ∨ name.toList.getLast? = some 'y' := by
  have ends (first : String) {ending : String} (filled : ending.toList ≠ []) :
      (first ++ ending).toList.getLast? = ending.toList.getLast? := by
    rw [String.toList_append, List.getLast?_append_of_ne_nil _ filled]
  unfold referred at mem
  cases List.mem_append.1 mem with
  | inl inBody =>
    split at inBody
    · rw [List.mem_singleton.1 inBody, bodyName, ends _ (by decide)]
      decide
    · cases inBody
  | inr inAnswer =>
    cases m with
    | delete => cases inAnswer
    | get | getList | post | put | patch | options | head | trace =>
      rw [List.mem_singleton.1 inAnswer, responseName, ends _ (by decide)]
      decide

/-- No method refers to a list. -/
theorem listName_not_referred (m : Method) (interfaceName verb other : String) :
    listName verb other ∉ m.referred interfaceName := by
  intro mem
  have last : (listName verb other).toList.getLast? = some 't' := by
    rw [listName, String.toList_append, List.getLast?_append_of_ne_nil _ (by decide)]
    decide
  have ends := last_of_referred mem
  rw [last] at ends
  simp at ends

/-- A method refers to all that it registers but for a list. -/
theorem referred_of_registered {m : Method} {s : Shapes}
    (mem : name ∈ (s.registered interfaceName m).map (·.1))
    (other : name ≠ listName "get" interfaceName) : name ∈ m.referred interfaceName := by
  cases m with
  | delete | options | head | trace => cases mem
  | get | post | put | patch => exact mem
  | getList =>
    cases List.mem_cons.1 mem with
    | inl isAnswer => exact List.mem_singleton.2 isAnswer
    | inr isList => exact absurd (List.mem_singleton.1 isList) other

end Method

/-! ## The operations of one resource in a document -/

/-- An operation on one of the routes refers to a component schema. -/
def Document.Refers (d : Document) (routes : List String) (name : String) : Prop :=
  ∃ route ∈ routes, ∃ verb operation, d.operation? route verb = some operation ∧
    referenceTo name ∈ operation.operationReferences

/-- What is added is the fragment of the resource that the schema describes. -/
theorem Document.addResource_eq_ok {d d' : Document} {schema : Fields Json} {options : Options} :
    d.addResource schema options = .ok d' ↔
      ∃ r, Resource.ofSchema schema = .ok r ∧ d.add (r.fragment options) = d' := by
  rw [addResource_eq, Resource.fragment_eq, map_eq_ok]
  simp only [map_eq_ok]
  constructor
  · intro added
    obtain ⟨_, ⟨r, isResource, rfl⟩, same⟩ := added
    exact ⟨r, isResource, same⟩
  · intro added
    obtain ⟨r, isResource, same⟩ := added
    exact ⟨_, ⟨r, isResource, rfl⟩, same⟩

namespace Resource

variable {r : Resource} {d : Document} {options : Options} {m : Method} {name verb : String}

/-- The routes of a resource. -/
def routes (r : Resource) (routePrefix : String) : List String :=
  [collectionRoute r.config routePrefix, itemRoute r.config routePrefix]

theorem route_mem (r : Resource) (routePrefix : String) (m : Method) :
    r.route routePrefix m ∈ r.routes routePrefix := by
  unfold route routes
  split
  · exact List.mem_cons_of_mem _ List.mem_cons_self
  · exact List.mem_cons_self

/-- A document to which the resource was added last has its path items. -/
theorem get?_paths_add {route : String} {item : Json}
    (placed : (r.paths options.routePrefix).get? route = some item) (d : Document) :
    (d.add (r.fragment options)).paths.get? route = some item := by
  show (d.paths.merge (r.paths options.routePrefix)).get? route = _
  rw [Fields.get?_merge (r.nodup_paths _), placed]
  rfl

/-- The operation of a listed method stands in a document to which the resource was added last. -/
theorem operation?_add (listed : m ∈ r.methods) (d : Document) (options : Options) :
    ∃ operation, (d.add (r.fragment options)).operation? (r.route options.routePrefix m) m.verb =
        some operation ∧ r.IsOperation m operation := by
  obtain ⟨item, operation, placed, held, isOperation⟩ := r.get?_paths listed options.routePrefix
  refine ⟨operation, ?_, isOperation⟩
  rw [Document.operation?, get?_paths_add placed]
  exact held

/-- What a listed method registers is held by a document to which the resource was added last. -/
theorem get?_schemas_add {v : Json} (listed : m ∈ r.methods)
    (registered : (name, v) ∈
      (r.shapes options.allowIdentifier).registered r.config.interfaceName m) (d : Document) :
    (d.add (r.fragment options)).schemas.get? name = some v := by
  show (d.schemas.merge (r.schemas options.allowIdentifier)).get? name = _
  rw [Fields.get?_merge (r.nodup_schemas _), get?_schemas listed registered]
  rfl

/-- What stands on the routes of the resource added last is its own. -/
theorem of_operation?_add {route : String} {operation : Json}
    (own : route ∈ r.routes options.routePrefix)
    (held : (d.add (r.fragment options)).operation? route verb = some operation) :
    (verb, operation) ∈ nameFields r.config ∨ ∃ m ∈ r.methods, r.IsOperation m operation := by
  have named : route ∈ (r.paths options.routePrefix).names := own
  obtain ⟨item, placed⟩ := Fields.exists_of_mem_names named
  rw [Document.operation?, get?_paths_add placed, Option.bind_some] at held
  cases paths_field placed held with
  | inl named => exact .inl named
  | inr isOperation =>
    obtain ⟨m, listed, -, -, isOperation⟩ := isOperation
    exact .inr ⟨m, listed, isOperation⟩

theorem IsOperation.references {operation : Json} (isOperation : r.IsOperation m operation) :
    operation.operationReferences = (m.referred r.config.interfaceName).map referenceTo := by
  rw [Document.Linked.operationReferences_congr isOperation, Method.references_operation]

/-- Of what a resource registers, its operations refer to all but the list. -/
theorem refers_iff {allowIdentifier : Bool}
    (registered : name ∈ (r.schemas allowIdentifier).names) :
    (d.add (r.fragment options)).Refers (r.routes options.routePrefix) name ↔
      name ≠ listName "get" r.config.interfaceName := by
  constructor
  · intro refers
    obtain ⟨route, own, verb, operation, held, mem⟩ := refers
    cases of_operation?_add own held with
    | inl named =>
      rw [(Document.Linked.named_field named).2] at mem
      cases mem
    | inr isOperation =>
      obtain ⟨m, -, isOperation⟩ := isOperation
      rw [isOperation.references] at mem
      obtain ⟨name', referred, same⟩ := List.mem_map.1 mem
      obtain rfl := referenceTo_inj same
      intro isList
      subst isList
      exact Method.listName_not_referred m _ _ _ referred
  · intro other
    obtain ⟨m, listed, mem⟩ := r.mem_names_schemas.1 registered
    obtain ⟨operation, held, isOperation⟩ := operation?_add listed d options
    refine ⟨_, r.route_mem _ m, _, operation, held, ?_⟩
    rw [isOperation.references]
    exact List.mem_map_of_mem (Method.referred_of_registered mem other)

end Resource

/-! ## Listing -/

/-- **A listing refers to one item.** A resource that lists its collection is added with a listing
whose answer is the shape of one item. The list of such items is registered as well, and of all
components that the resource registers it is the only one that none of its operations refers to. -/
theorem addResource_listing {schema normal : Fields Json} (distinct : (Json.obj schema).Distinct)
    (h : normalForm schema = .ok normal) {config : DocumentConfig}
    (isConfig : DocumentConfig.ofSchema normal = .ok config)
    (known : ∀ name ∈ config.methods, name ∈ Method.all.map Method.name)
    (lists : "getList" ∈ config.methods) (d : Document) (options : Options) :
    ∃ d' components properties listing,
      d.addResource normal options = .ok d' ∧
      buildComponents normal options.allowIdentifier options.routePrefix = .ok components ∧
      normal.get? "properties" = some (.obj properties) ∧
      d'.operation? (collectionRoute config options.routePrefix) "get" = some listing ∧
      d'.Resolves (listing.answerReference? "200") (responseShape properties) ∧
      d'.schemas.get? (listName "get" config.interfaceName) =
        some (.obj [("type", .str "array"), ("items", .obj (responseShape properties))]) ∧
      ∀ name ∈ components.schemas.names,
        d'.Refers [collectionRoute config options.routePrefix, itemRoute config options.routePrefix]
          name ↔ name ≠ listName "get" config.interfaceName := by
  obtain ⟨d', added⟩ : ∃ d', d.addResource normal options = .ok d' := by
    have read := (DocumentConfig.ofSchema_normalForm h).symm.trans isConfig
    have accepted := addResource_normalForm distinct h d options
    rwa [← DocumentConfig.firstUnknown_methods read, firstUnknown_eq_none.2 known] at accepted
  obtain ⟨r, isResource, rfl⟩ := Document.addResource_eq_ok.1 added
  obtain ⟨isConfig', isProperties, -, isMethods⟩ := Resource.parts_of_ofSchema isResource
  obtain rfl : config = r.config := Except.ok.inj (isConfig.symm.trans isConfig')
  have listed : Method.getList ∈ r.methods := mem_of_knownMethods isMethods lists
  obtain ⟨listing, there, isOperation⟩ := Resource.operation?_add listed d options
  have built := Resource.buildComponents_eq normal options.allowIdentifier options.routePrefix
  rw [isResource, Except.map] at built
  refine ⟨_, _, r.properties, listing, added, built, isProperties, there, ?answer, ?list, ?refers⟩
  case answer =>
    exact ⟨_, isOperation.answerReference? (by decide),
      Resource.get?_schemas_add listed (Resource.response_registered (by decide)) d⟩
  case list => exact Resource.get?_schemas_add listed (List.mem_cons_of_mem _ List.mem_cons_self) d
  case refers =>
    intro name registered
    exact Resource.refers_iff registered

/-- Listing the orders refers to one order, and nothing refers to the list of orders. -/
theorem addResource_listing_order :
    ∃ d' listing, ({} : Document).addResource orderNormal {} = .ok d' ∧
      d'.operation? "/order" "get" = some listing ∧
      d'.Resolves (listing.answerReference? "200")
        (responseShape Compilation.orderResource.properties) ∧
      d'.Refers ["/order", "/order/\x7bid\x7d"] "getOrderResponse" ∧
      ¬ d'.Refers ["/order", "/order/\x7bid\x7d"] "getOrderResponseList" := by
  obtain ⟨d', components, properties, listing, added, built, isProperties, there, answer, -,
      refers⟩ :=
    addResource_listing (by decide) normalForm_orderSchema
      (show DocumentConfig.ofSchema orderNormal = .ok Compilation.orderResource.config from rfl)
      (by decide) (by decide) {} {}
  cases built
  cases isProperties
  refine ⟨d', listing, added, there, answer, (refers _ ?_).2 (by decide), ?_⟩
  · decide
  · intro referred
    exact (refers "getOrderResponseList" (by decide)).1 referred rfl

end ResourceApi
