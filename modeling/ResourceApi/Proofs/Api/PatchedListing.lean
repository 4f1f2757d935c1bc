import ResourceApi.Proofs.Api.MethodPlaces
import ResourceApi.Proofs.Api.QueryParameters

/-! # What patching changes

The paths that a resource adds to a document are its path items, in which one value is
replaced: the parameters of the listing, if there is a listing. A patch gives a whole path
item again, so everything else in it has to be what it was: the names of the resource, the
operations beside the listing and the order of all keys. Reading an item has the verb of the
listing, but it stands on the other route and keeps the identifier as its parameter. -/

namespace ResourceApi

namespace Json

/-! ## Replacing one value -/

/-- Puts a value in the place that a chain of names leads to. Where it leads nowhere, nothing is
changed. -/
def replaceAt : Json → List String → Json → Json
  | _, [], w => w
  | .obj fields, name :: rest, w =>
    match Fields.get? fields name with
    | some inner => .obj (Fields.put fields name (inner.replaceAt rest w))
    | none => .obj fields
  | v, _ :: _, _ => v

variable {v w old : Json} {name other : String} {way way' : List String}

theorem replaceAt_of_get? {fields : Fields Json} (found : fields.get? name = some v) :
    (Json.obj fields).replaceAt (name :: way) w = .obj (fields.put name (v.replaceAt way w)) := by
  rw [replaceAt, found]

theorem down?_cons_of_get? {fields : Fields Json} (found : fields.get? name = some v) :
    (Json.obj fields).down? (name :: way) = v.down? way := by
  rw [down?, field?_obj, found, Option.bind_some]

/-- What is put in a place is found there. -/
theorem down?_replaceAt (there : v.down? way = some old) :
    (v.replaceAt way w).down? way = some w := by
  induction way generalizing v with
  | nil => rfl
  | cons name rest ih =>
    obtain ⟨inner, isField, below⟩ := Option.bind_eq_some_iff.1 there
    obtain ⟨fields, rfl, found⟩ := field?_eq_some.1 isField
    rw [replaceAt_of_get? found, down?_cons_of_get? (Fields.get?_put_self ..)]
    exact ih below

/-- Nothing else is changed: another way that does not lead through the place, or to a value that
the place is in, leads to what it led to. -/
theorem down?_replaceAt_of_apart (apart : ¬ way <+: way') (apart' : ¬ way' <+: way) :
    (v.replaceAt way w).down? way' = v.down? way' := by
  induction way generalizing v way' with
  | nil => exact absurd List.nil_prefix apart
  | cons name rest ih =>
    cases way' with
    | nil => exact absurd List.nil_prefix apart'
    | cons other rest' =>
      cases v with
      | obj fields =>
        cases found : Fields.get? fields name with
        | none => rw [replaceAt, found]
        | some inner =>
          rw [replaceAt_of_get? found, down?, field?_obj, down?, field?_obj, Fields.get?_put]
          by_cases same : name = other
          · subst same
            rw [if_pos rfl, found, Option.bind_some, Option.bind_some]
            rw [List.cons_prefix_cons] at apart apart'
            exact ih (fun starts => apart ⟨rfl, starts⟩) (fun starts => apart' ⟨rfl, starts⟩)
          · rw [if_neg same]
      | null | bool | int | float | str | arr => rfl

end Json

/-! ## The number of query parameters -/

/-- A property that is no object gives one filter, and two more if it asks for a range. -/
theorem length_ofProperties {properties : Fields Json}
    (areObjects : ∀ p ∈ properties, p.2.isObj = true) :
    (Parameter.ofProperties properties).length =
      (properties.countP fun p => !Required.isObject p.2) +
        2 * properties.countP fun p =>
          !Required.isObject p.2 && p.2.field? "x-format" = some (.str "minMax") := by
  induction properties with
  | nil => rfl
  | cons p rest ih =>
    rw [List.forall_mem_cons] at areObjects
    obtain ⟨isObj, areObjects⟩ := areObjects
    obtain ⟨property, isProperty⟩ := Json.isObj_eq_true.1 isObj
    have here : Parameter.ofProperties (p :: rest) =
        Parameter.queries p.1 property ++ Parameter.ofProperties rest := by
      rw [Parameter.ofProperties, List.flatMap_cons, isProperty]
      rfl
    have object : Parameter.hasType property "object" = Required.isObject p.2 := by
      rw [isProperty]
      rfl
    have ranged : Fields.get? property "x-format" = p.2.field? "x-format" := by
      rw [isProperty]
      rfl
    rw [here, List.length_append, ih areObjects, List.countP_cons, List.countP_cons,
      Parameter.queries, object, ranged, Parameter.rangeFormat]
    cases Required.isObject p.2 with
    | true => simp
    | false =>
      by_cases isRange : p.2.field? "x-format" = some (.str "minMax")
      · simp [isRange]
        omega
      · simp [isRange]
        omega

/-! ## Paths of a resource with its listing patched -/

/-- The place of the parameters of a listing among the paths. -/
def listingParameters (config : DocumentConfig) (routePrefix : String) : List String :=
  [collectionRoute config routePrefix, "get", "parameters"]

/-- What the paths of a resource become by patching: only the parameters of the listing change. -/
structure PatchedListing (config : DocumentConfig) (properties : Fields Json)
    (routePrefix : String) (paths patched : Fields Json) : Prop where
  listed : "getList" ∈ config.methods → Json.obj patched =
    (Json.obj paths).replaceAt (listingParameters config routePrefix)
      (.arr ((Parameter.ofProperties properties).map Parameter.toJson))
  unlisted : "getList" ∉ config.methods → patched = paths
  parameters : (Json.obj patched).down? (listingParameters config routePrefix) =
    if "getList" ∈ config.methods then
      some (.arr ((Parameter.ofProperties properties).map Parameter.toJson)) else none
  elsewhere : ∀ way, ¬ listingParameters config routePrefix <+: way →
    ¬ way <+: listingParameters config routePrefix →
      (Json.obj patched).down? way = (Json.obj paths).down? way
  /-- The operations on an item have its identifier as their parameter. -/
  identifiers : ∀ m ∈ itemMethods, m.name ∈ config.methods →
    (Json.obj patched).down? [itemRoute config routePrefix, m.verb, "parameters"] =
      some (.arr (((properties.get? identifierName).bind Json.fields?).toList.map fun identifier =>
        (Parameter.identifier identifier).toJson))

/-- An operation on an item has the identifier as its parameter, if there is one. -/
theorem Operation.parameters_ofMethod {config : DocumentConfig} {properties : Fields Json}
    {m : Method} (onItem : m.onItem = true) : (ofMethod m config properties).parameters =
      ((properties.get? identifierName).bind Json.fields?).toList.map Parameter.identifier := by
  rw [ofMethod, if_pos onItem, Option.toList_map]
  rfl

namespace Resource

/-- A normal form whose methods are known describes a resource. -/
theorem exists_of_normalForm {schema normal : Fields Json} (distinct : (Json.obj schema).Distinct)
    (h : normalForm schema = .ok normal) {config : DocumentConfig}
    (isConfig : DocumentConfig.ofSchema normal = .ok config)
    (known : ∀ name ∈ config.methods, name ∈ Method.all.map Method.name) :
    ∃ r, ofSchema normal = .ok r ∧ r.config = config ∧
      config.methods = r.methods.map Method.name := by
  obtain ⟨properties, found, -⟩ := (settled_of_normalForm h distinct .refl).properties
  have isProperties : ResourceApi.properties normal = .ok properties := by
    rw [ResourceApi.properties, ← Json.field?_obj, found]
    rfl
  obtain ⟨methods, areMethods⟩ : ∃ methods, knownMethods config.methods = .ok methods := by
    have read := knownMethods_eq config.methods
    rwa [firstUnknown_eq_none.2 known] at read
  have read : ofSchema normal = .ok
      ⟨config, properties, Required.names ((normal.get? "required").getD .null), methods⟩ := by
    rw [ofSchema, isConfig, Results.ok_bind, isProperties, Results.ok_bind, areMethods]
    rfl
  exact ⟨_, read, rfl, knownMethods_eq_ok.1 areMethods⟩

variable {r : Resource} {routePrefix : String}

theorem get?_pathItems_bareCollection :
    (pathItems r.config r.properties r.methods routePrefix).get?
      (collectionRoute r.config routePrefix) = some (.obj r.bareCollection) :=
  get?_pathItems_collection

/-- Before patching, a listing is there if it is among the methods, and has no parameters. -/
theorem down?_pathItems_listing :
    (Json.obj (pathItems r.config r.properties r.methods routePrefix)).down?
      (listingParameters r.config routePrefix) =
        if .getList ∈ r.methods then some (.arr []) else none := by
  rw [listingParameters, Json.down?_cons_of_get? get?_pathItems_bareCollection]
  split
  · next listed =>
    rw [Json.down?_cons_of_get? (r.bareCollection_getList listed)]
    rfl
  · next unlisted =>
    have absent : r.bareCollection.get? "get" = none := by
      rw [Option.eq_none_iff_forall_ne_some]
      intro v held
      cases pathItem_field held with
      | inl named => simp [nameFields] at named
      | inr operation =>
        obtain ⟨m, mem, verb, -⟩ := operation
        obtain rfl : m = .getList :=
          Method.eq_of_verb (Method.not_onItem_of_mem_filter mem) verb
        exact unlisted (List.mem_of_mem_filter mem)
    rw [Json.down?, Json.field?_obj, absent, Option.bind_none]

/-- The paths of a resource that can be listed are its path items with these parameters. -/
theorem paths_eq_replaceAt (listed : .getList ∈ r.methods) :
    Json.obj (r.paths routePrefix) =
      (Json.obj (pathItems r.config r.properties r.methods routePrefix)).replaceAt
        (listingParameters r.config routePrefix) (.arr r.queries) := by
  have parameters : r.bareListing.get? "parameters" = some (.arr []) := rfl
  rw [listingParameters, Json.replaceAt_of_get? get?_pathItems_bareCollection,
    Json.replaceAt_of_get? (r.bareCollection_getList listed), Json.replaceAt_of_get? parameters,
    Json.replaceAt, paths, collection, if_pos listed, pathItems, Fields.put, if_pos rfl]
  rfl

theorem paths_eq_pathItems (unlisted : .getList ∉ r.methods) :
    r.paths routePrefix = pathItems r.config r.properties r.methods routePrefix := by
  rw [paths, collection, if_neg unlisted]
  rfl

/-- The parameters of an operation on an item, as its method gives them. -/
theorem down?_pathItems_item {m : Method} (onItem : m ∈ itemMethods) (listed : m ∈ r.methods) :
    (Json.obj (pathItems r.config r.properties r.methods routePrefix)).down?
      [itemRoute r.config routePrefix, m.verb, "parameters"] =
        some (.arr (((r.properties.get? identifierName).bind Json.fields?).toList.map
          fun identifier => (Parameter.identifier identifier).toJson)) := by
  have addressed := Method.onItem_eq_true.2 onItem
  have held := @operation?_pathItems r.config r.properties r.methods routePrefix m listed
  rw [place_of_onItem addressed] at held
  obtain ⟨item, placed, isOperation⟩ := Option.bind_eq_some_iff.1 held
  obtain ⟨fields, rfl, found⟩ := Json.field?_eq_some.1 isOperation
  rw [Json.down?_cons_of_get? placed, Json.down?_cons_of_get? found]
  show some (Json.arr ((Operation.ofMethod m r.config r.properties).parameters.map _)) = _
  rw [Operation.parameters_ofMethod addressed, List.map_map]
  rfl

/-- The paths of a resource are its path items with the listing patched. -/
theorem patchedListing (methods : r.config.methods = r.methods.map Method.name) :
    PatchedListing r.config r.properties routePrefix
      (pathItems r.config r.properties r.methods routePrefix) (r.paths routePrefix) := by
  have named (m : Method) : m.name ∈ r.config.methods ↔ m ∈ r.methods := by
    rw [methods, List.mem_map_of_injective Method.name_injective]
  have lists : "getList" ∈ r.config.methods ↔ .getList ∈ r.methods := named .getList
  have elsewhere (way : List String) (apart : ¬ listingParameters r.config routePrefix <+: way)
      (apart' : ¬ way <+: listingParameters r.config routePrefix) :
      (Json.obj (r.paths routePrefix)).down? way =
        (Json.obj (pathItems r.config r.properties r.methods routePrefix)).down? way := by
    by_cases listed : .getList ∈ r.methods
    · rw [paths_eq_replaceAt listed]
      exact Json.down?_replaceAt_of_apart apart apart'
    · rw [paths_eq_pathItems listed]
  refine ⟨fun listed => paths_eq_replaceAt (lists.1 listed),
    fun unlisted => paths_eq_pathItems fun listed => unlisted (lists.2 listed), ?parameters,
    elsewhere, ?identifiers⟩
  case parameters =>
    simp only [lists]
    have before := @down?_pathItems_listing r routePrefix
    by_cases listed : .getList ∈ r.methods
    · rw [if_pos listed] at before ⊢
      rw [paths_eq_replaceAt listed]
      exact Json.down?_replaceAt before
    · rw [if_neg listed] at before ⊢
      rw [paths_eq_pathItems listed, before]
  case identifiers =>
    -- an operation on an item stands on the other route, so the patch leaves it alone
    intro m onItem listed
    rw [elsewhere, down?_pathItems_item onItem ((named m).1 listed)]
    · intro starts
      exact routes_ne _ _ (List.cons_prefix_cons.1 starts).1
    · intro starts
      exact routes_ne _ _ (List.cons_prefix_cons.1 starts).1.symm

end Resource

/-- **Patching sets the parameters of the listing and nothing else.** What a normal form with known
methods adds to the paths of any document is what its own paths are, with one value replaced: if the
methods have a listing, wherever and however often, its parameters are the filters of the properties.
Operations on an item keep their identifier. -/
theorem addResource_patches {schema normal : Fields Json} (distinct : (Json.obj schema).Distinct)
    (h : normalForm schema = .ok normal) {config : DocumentConfig}
    (isConfig : DocumentConfig.ofSchema normal = .ok config)
    (known : ∀ name ∈ config.methods, name ∈ Method.all.map Method.name) (options : Options) :
    ∃ properties paths patched,
      normal.get? "properties" = some (.obj properties) ∧
      buildPaths normal options.routePrefix = .ok paths ∧
      (∀ d : Document, ∃ d', d.addResource normal options = .ok d' ∧
        d'.paths = d.paths.merge patched) ∧
      PatchedListing config properties options.routePrefix paths patched ∧
      (Parameter.ofProperties properties).length =
        (properties.countP fun p => !Required.isObject p.2) +
          2 * properties.countP fun p =>
            !Required.isObject p.2 && p.2.field? "x-format" = some (.str "minMax") := by
  obtain ⟨r, isResource, rfl, methods⟩ :=
    Resource.exists_of_normalForm distinct h isConfig known
  obtain ⟨-, isProperties, -, -⟩ := Resource.parts_of_ofSchema isResource
  refine ⟨r.properties, _, r.paths options.routePrefix, isProperties, ?built, ?added,
    Resource.patchedListing methods, ?count⟩
  case built =>
    rw [Resource.buildPaths_eq, isResource]
    rfl
  case added =>
    intro d
    exact ⟨_, Document.addResource_eq_ok.2 ⟨r, isResource, rfl⟩, rfl⟩
  case count =>
    obtain ⟨properties, found, areObjects⟩ := (settled_of_normalForm h distinct .refl).properties
    obtain rfl : properties = r.properties :=
      Json.obj.inj (Option.some.inj (found.symm.trans isProperties))
    exact length_ofProperties areObjects

/-- The list of orders is filtered by all that is told of an order but for its buyer. -/
theorem addResource_patches_order : ∃ paths patched,
    buildPaths orderNormal "/v1" = .ok paths ∧
    (Json.obj paths).down? ["/v1/order", "get", "parameters"] = some (.arr []) ∧
    (∃ d', ({} : Document).addResource orderNormal { routePrefix := "/v1" } = .ok d' ∧
      d'.paths = Fields.merge [] patched) ∧
    (Json.obj patched).down? ["/v1/order", "get", "parameters"] = some
      (.arr ((Parameter.ofProperties Compilation.orderResource.properties).map Parameter.toJson)) ∧
    (Parameter.ofProperties Compilation.orderResource.properties).length = 3 := by
  obtain ⟨properties, paths, patched, isProperties, built, added, patches, count⟩ :=
    addResource_patches (by decide) normalForm_orderSchema
      (show DocumentConfig.ofSchema orderNormal = .ok Compilation.orderResource.config from rfl)
      (by decide) { routePrefix := "/v1" }
  cases isProperties
  have parameters := patches.parameters
  rw [if_pos (by decide)] at parameters
  refine ⟨paths, patched, built, ?_, added {}, parameters, count⟩
  cases built
  rfl

end ResourceApi
