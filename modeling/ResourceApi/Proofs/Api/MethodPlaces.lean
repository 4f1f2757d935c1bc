import Mathlib.Data.Set.Function
import ResourceApi.Proofs.Api.Variants
import ResourceApi.Proofs.Compilation.Identifiers

/-! # Places of operations

Each method that a resource lists is one operation, on one of the two routes and under a
verb. Two methods have the same verb, but one of them stands on the route of an item and
the other on that of the collection, so a method is told by its place. Therefore no
operation takes the place of another method's, and a method that is listed again only puts
its own operation in its own place once more. -/

namespace ResourceApi

open Required

/-- The methods whose operations stand on the route of an item. -/
def itemMethods : List Method := [.get, .put, .patch, .delete]

/-- The route and the verb of the operation of a method. -/
def DocumentConfig.place (config : DocumentConfig) (routePrefix : String) (m : Method) :
    String × String :=
  (if m ∈ itemMethods then itemRoute config routePrefix else collectionRoute config routePrefix,
    m.verb)

/-- The routes and verbs under which a document has operations. The other keys of its path items
are extensions. -/
def Document.places (d : Document) : Set (String × String) :=
  {place | (d.operation? place.1 place.2).isSome ∧ ¬ IsExtensionKey place.2}

/-- The path items of a resource hold one operation for each method that it lists. -/
structure OneForEach (config : DocumentConfig) (properties : Fields Json) (methods : List Method)
    (routePrefix : String) (paths : Fields Json) : Prop where
  routes : paths.names = [collectionRoute config routePrefix, itemRoute config routePrefix]
  differ : collectionRoute config routePrefix ≠ itemRoute config routePrefix
  /-- Behind the names of the resource come the verbs of a route, in the order they come first. -/
  verbs : ∀ route ∈ paths.names, ∃ item, paths.get? route = some (.obj item) ∧
    Fields.names item = ["x-documentName", "x-interfaceName"] ++
      ((methods.filter fun m => (config.place routePrefix m).1 = route).map Method.verb).eraseDups
  own : ∀ m ∈ methods,
    ({ paths } : Document).operation? (config.place routePrefix m).1 (config.place routePrefix m).2 =
      some (operation config properties m)
  oneToOne : Set.BijOn (config.place routePrefix) {m | m ∈ methods} ({ paths } : Document).places
  identifiers : ({ paths } : Document).IdentifiersDistinct

/-! ## Methods and their places -/

namespace Method

theorem onItem_eq_true {m : Method} : m.onItem = true ↔ m ∈ itemMethods := by
  cases m <;> decide

theorem not_isExtensionKey_verb (m : Method) : ¬ IsExtensionKey m.verb := by
  rw [← Removal.isExtension_iff]
  cases m <;> decide

theorem name_injective : Function.Injective name := by
  intro m m' same
  have read := congrArg ofName? same
  rw [ofName?_name, ofName?_name] at read
  exact Option.some.inj read

end Method

theorem Method.ofToken_eq_ok {name : String} {m : Method} :
    ofToken (.str name) = .ok m ↔ name = m.name := by
  constructor
  · intro read
    rw [ofToken, Json.str?, Option.bind_some] at read
    split at read
    · next found =>
      cases read
      have isName := List.find?_some found
      exact (beq_iff_eq.1 isName).symm
    · cases read
  · intro isName
    rw [isName, ofToken, Json.str?, Option.bind_some, ofName?_name]

/-- The names that a configuration lists are known if they are those of methods. -/
theorem knownMethods_eq_ok {listed : List String} {methods : List Method} :
    knownMethods listed = .ok methods ↔ listed = methods.map Method.name := by
  induction listed generalizing methods with
  | nil => cases methods <;> simp [knownMethods]
  | cons name rest ih =>
    simp only [knownMethods, Results.bind_eq_ok, Method.ofToken_eq_ok, ih]
    constructor
    · intro read
      obtain ⟨m, rfl, ms, rfl, same⟩ := read
      cases same
      rfl
    · intro same
      cases methods with
      | nil => cases same
      | cons m ms =>
        obtain ⟨rfl, rfl⟩ := List.cons.inj same
        exact ⟨m, rfl, ms, rfl, rfl⟩

section Place

variable {config : DocumentConfig} {routePrefix : String} {m m' : Method}

theorem place_of_onItem (onItem : m.onItem = true) :
    config.place routePrefix m = (itemRoute config routePrefix, m.verb) := by
  rw [DocumentConfig.place, if_pos (Method.onItem_eq_true.1 onItem)]

theorem place_of_not_onItem (onItem : m.onItem = false) :
    config.place routePrefix m = (collectionRoute config routePrefix, m.verb) := by
  have other : m ∉ itemMethods := by
    intro mem
    rw [Method.onItem_eq_true.2 mem] at onItem
    cases onItem
  rw [DocumentConfig.place, if_neg other]

theorem place_route_eq_item :
    (config.place routePrefix m).1 = itemRoute config routePrefix ↔ m.onItem = true := by
  cases onItem : m.onItem with
  | true => simp [place_of_onItem onItem]
  | false => simp [place_of_not_onItem onItem, Resource.routes_ne]

theorem place_route_eq_collection :
    (config.place routePrefix m).1 = collectionRoute config routePrefix ↔ m.onItem = false := by
  cases onItem : m.onItem with
  | true => simp [place_of_onItem onItem, (Resource.routes_ne config routePrefix).symm]
  | false => simp [place_of_not_onItem onItem]

/-- A method is told by its place. -/
theorem place_injective (config : DocumentConfig) (routePrefix : String) :
    Function.Injective (config.place routePrefix) := by
  intro m m' same
  have verb : m.verb = m'.verb := congrArg Prod.snd same
  have route : m.onItem = m'.onItem := by
    rw [Bool.eq_iff_iff, ← @place_route_eq_item config routePrefix, congrArg Prod.fst same,
      place_route_eq_item]
  exact Method.eq_of_verb route verb

end Place

/-! ## Keys and operations of path items -/

section PathItems

variable {config : DocumentConfig} {properties : Fields Json} {methods : List Method}
  {routePrefix route verb : String} {v : Json}

/-- A path item has the operations of its methods merged behind the names of its resource. -/
theorem pathItem_eq_merge (config : DocumentConfig) (properties : Fields Json)
    (methods : List Method) :
    pathItem config properties methods =
      (nameFields config).merge (methods.map fun m => (m.verb, operation config properties m)) := by
  rw [Fields.merge, List.foldl_map]
  rfl

/-- A path item has the names of its resource, then the verbs in the order they come first. -/
theorem names_pathItem (config : DocumentConfig) (properties : Fields Json)
    (methods : List Method) :
    (pathItem config properties methods).names =
      ["x-documentName", "x-interfaceName"] ++ (methods.map Method.verb).eraseDups := by
  have verbs : Fields.names (methods.map fun m => (m.verb, operation config properties m)) =
      methods.map Method.verb := by
    rw [Fields.names, List.map_map]
    rfl
  have fresh : ∀ verb ∈ methods.map Method.verb,
      (!(nameFields config).names.contains verb) = true := by
    intro verb mem
    obtain ⟨m, -, rfl⟩ := List.mem_map.1 mem
    cases m <;> rfl
  rw [pathItem_eq_merge, Fields.names_merge, verbs, Fields.newNames, List.filter_eq_self.2 fresh]
  rfl

theorem nodup_pathItem (config : DocumentConfig) (properties : Fields Json)
    (methods : List Method) : (pathItem config properties methods).names.Nodup := by
  have named : (nameFields config).names.Nodup :=
    show ["x-documentName", "x-interfaceName"].Nodup by decide
  rw [pathItem_eq_merge]
  exact Fields.nodup_merge named _

theorem names_pathItems :
    (pathItems config properties methods routePrefix).names =
      [collectionRoute config routePrefix, itemRoute config routePrefix] := rfl

theorem get?_pathItems_collection :
    (pathItems config properties methods routePrefix).get? (collectionRoute config routePrefix) =
      some (.obj (pathItem config properties (methods.filter (!·.onItem)))) := if_pos rfl

theorem get?_pathItems_item :
    (pathItems config properties methods routePrefix).get? (itemRoute config routePrefix) =
      some (.obj (pathItem config properties (methods.filter (·.onItem)))) := by
  rw [pathItems, Fields.get?_cons, if_neg (Resource.routes_ne _ _)]
  exact if_pos rfl

/-- What the path items hold is a name of the resource, or the operation of a method that they have
in its place. -/
theorem of_operation?_pathItems
    (held : ({ paths := pathItems config properties methods routePrefix } : Document).operation?
      route verb = some v) :
    (verb, v) ∈ nameFields config ∨
      ∃ m ∈ methods, config.place routePrefix m = (route, verb) ∧
        v = operation config properties m := by
  obtain ⟨item, placed, held⟩ := Option.bind_eq_some_iff.1 held
  have either := List.mem_cons.1 (Fields.mem_of_get? placed)
  rw [List.mem_singleton] at either
  cases either with
  | inl first =>
    obtain ⟨rfl, rfl⟩ := Prod.mk.inj first
    refine (pathItem_field held).imp id fun found => ?_
    obtain ⟨m, mem, rfl, rfl⟩ := found
    exact ⟨m, List.mem_of_mem_filter mem,
      place_of_not_onItem (Method.not_onItem_of_mem_filter mem), rfl⟩
  | inr second =>
    obtain ⟨rfl, rfl⟩ := Prod.mk.inj second
    refine (pathItem_field held).imp id fun found => ?_
    obtain ⟨m, mem, rfl, rfl⟩ := found
    exact ⟨m, List.mem_of_mem_filter mem, place_of_onItem (Method.onItem_of_mem_filter mem), rfl⟩

/-- The operation of a method stands in its place. -/
theorem operation?_pathItems {m : Method} (listed : m ∈ methods) :
    ({ paths := pathItems config properties methods routePrefix } : Document).operation?
      (config.place routePrefix m).1 (config.place routePrefix m).2 =
        some (operation config properties m) := by
  cases onItem : m.onItem with
  | true =>
    rw [place_of_onItem onItem, Document.operation?, get?_pathItems_item, Option.bind_some]
    exact get?_pathItem_verb (fun _ => Method.onItem_of_mem_filter)
      (List.mem_filter.2 ⟨listed, onItem⟩)
  | false =>
    rw [place_of_not_onItem onItem, Document.operation?, get?_pathItems_collection,
      Option.bind_some]
    exact get?_pathItem_verb (fun _ => Method.not_onItem_of_mem_filter)
      (List.mem_filter.2 ⟨listed, by rw [onItem]; rfl⟩)

/-- The operations stand in the places of the methods and nowhere else. -/
theorem bijOn_places :
    Set.BijOn (config.place routePrefix) {m | m ∈ methods}
      ({ paths := pathItems config properties methods routePrefix } : Document).places := by
  refine ⟨?mapsTo, (place_injective config routePrefix).injOn, ?surjOn⟩
  case mapsTo =>
    intro m listed
    refine ⟨Option.isSome_iff_exists.2 ⟨_, operation?_pathItems listed⟩, ?_⟩
    exact m.not_isExtensionKey_verb
  case surjOn =>
    intro place here
    obtain ⟨there, plain⟩ := here
    obtain ⟨v, held⟩ := Option.isSome_iff_exists.1 there
    cases of_operation?_pathItems held with
    | inl named =>
      refine absurd ?_ plain
      rw [← Removal.isExtension_iff]
      have keys : ∀ f ∈ nameFields config, Removal.isExtension f.1 = true := by
        simp [nameFields, Removal.isExtension]
      exact keys _ named
    | inr found =>
      obtain ⟨m, listed, isPlace, -⟩ := found
      exact ⟨m, listed, isPlace⟩

/-- Operations of one resource have different identifiers. -/
theorem identifiersDistinct_pathItems :
    ({ paths := pathItems config properties methods routePrefix } :
      Document).IdentifiersDistinct := by
  have identified {route verb : String} {id : Json}
      (h : ({ paths := pathItems config properties methods routePrefix } : Document).identifier?
        route verb = some id) :
      ∃ m, config.place routePrefix m = (route, verb) ∧
        id = .str (m.name ++ config.interfaceName) := by
    obtain ⟨v, held, named⟩ := Option.bind_eq_some_iff.1 h
    cases of_operation?_pathItems held with
    | inl isName =>
      rw [Resource.identifier_of_mem_nameFields isName] at named
      cases named
    | inr found =>
      obtain ⟨m, -, isPlace, rfl⟩ := found
      exact ⟨m, isPlace, (Option.some.inj named).symm⟩
  intro route verb route' verb' id first second
  obtain ⟨m, isPlace, rfl⟩ := identified first
  obtain ⟨m', isPlace', same⟩ := identified second
  obtain rfl : m = m' :=
    Method.name_injective ((String.append_left_inj _).1 (Json.str.inj same))
  exact Prod.mk.inj (isPlace.symm.trans isPlace')

end PathItems

/-- **Each method has an operation of its own.** Whatever the order in which a schema lists known
methods, and however often, its paths are those of the collection and of an item, and their
operations are in bijection with the methods: each stands in the place of its method, with an
identifier that no other has, and on a route the verbs come in the order of the list. -/
theorem buildPaths_oneForEach {schema properties : Fields Json} {config : DocumentConfig}
    (isConfig : DocumentConfig.ofSchema schema = .ok config)
    (isProperties : schema.get? "properties" = some (.obj properties)) {methods : List Method}
    (known : config.methods = methods.map Method.name) (routePrefix : String) :
    ∃ paths, buildPaths schema routePrefix = .ok paths ∧
      OneForEach config properties methods routePrefix paths := by
  refine ⟨pathItems config properties methods routePrefix, ?built, names_pathItems,
    Resource.routes_ne _ _, ?verbs, fun m => operation?_pathItems, bijOn_places,
    identifiersDistinct_pathItems⟩
  case built =>
    have found : ResourceApi.properties schema = .ok properties := by
      rw [ResourceApi.properties, isProperties]
      rfl
    rw [buildPaths, isConfig, Results.ok_bind, found, Results.ok_bind, knownMethods_eq_ok.2 known]
    rfl
  case verbs =>
    intro route mem
    rw [names_pathItems, List.mem_cons, List.mem_singleton] at mem
    cases mem with
    | inl collection =>
      subst collection
      refine ⟨_, get?_pathItems_collection, ?_⟩
      rw [names_pathItem]
      congr 3
      refine List.filter_congr fun m _ => ?_
      simp [place_route_eq_collection]
    | inr item =>
      subst item
      refine ⟨_, get?_pathItems_item, ?_⟩
      rw [names_pathItem]
      congr 3
      refine List.filter_congr fun m _ => ?_
      simp [place_route_eq_item]

/-- A schema of tags in normal form, with the given methods. -/
def tagSchema (methods : List Method) : Fields Json := [
  ("x-documentConfig", .obj [("documentName", .str "Tag"), ("interfaceName", .str "Tag"),
    ("methods", .arr (methods.map fun m => .str m.name))]),
  ("type", .str "object"),
  ("properties", .obj [("_id", .obj [("type", .str "string")])]),
  ("required", .arr [])]

def tagConfig (methods : List Method) : DocumentConfig :=
  ⟨"Tag", "Tag", methods.map Method.name, none, none, []⟩

/-- Reading one tag and listing the tags are two operations, also where methods are listed out of
order and some of them twice. -/
theorem buildPaths_oneForEach_tag : ∃ paths item,
    buildPaths (tagSchema [.put, .getList, .get, .put, .post, .getList]) "/v1/" = .ok paths ∧
    paths.names = ["/v1/tag", "/v1/tag/\x7bid\x7d"] ∧
    paths.get? "/v1/tag/\x7bid\x7d" = some (.obj item) ∧
    Fields.names item = ["x-documentName", "x-interfaceName", "put", "get"] ∧
    ({ paths } : Document).IdentifiersDistinct := by
  obtain ⟨paths, built, oneForEach⟩ :=
    buildPaths_oneForEach
      (show DocumentConfig.ofSchema (tagSchema [.put, .getList, .get, .put, .post, .getList]) =
        .ok (tagConfig [.put, .getList, .get, .put, .post, .getList]) from rfl) rfl rfl "/v1/"
  have route : "/v1/tag/\x7bid\x7d" ∈ paths.names := by
    rw [oneForEach.routes]
    decide
  obtain ⟨item, placed, names⟩ := oneForEach.verbs _ route
  exact ⟨paths, item, built, oneForEach.routes, placed, names, oneForEach.identifiers⟩

end ResourceApi
