import Mathlib.Data.List.Count
import Mathlib.Data.List.Induction
import ResourceApi.Api.Document
import ResourceApi.Proofs.Json.Throughout
import ResourceApi.Proofs.Results

/-! # What one resource adds to a document

The paths and component schemas of a resource, its fragment, do not depend on the
document they are merged into. All patches of a resource are the same one, to an
operation that is there, so they can always be applied and one of them does it. A
fragment is thereby known in full: two path items, the collection's with the query
parameters set where the methods list it, and what the methods register. -/

namespace ResourceApi

/-- The paths and component schemas that a resource adds to a document. -/
structure Fragment where
  paths : Fields Json
  schemas : Fields Json

/-- The fragment of a schema: its path items with the patches applied, and its components. -/
def Fragment.ofSchema (schema : Fields Json) (options : Options) : Except Problem Fragment := do
  let paths ← buildPaths schema options.routePrefix
  let components ← buildComponents schema options.allowIdentifier options.routePrefix
  let patched ← applyPatches paths [] components.patches
  pure ⟨paths.merge patched, components.schemas⟩

namespace Document

def add (d : Document) (f : Fragment) : Document := d.merge f.paths f.schemas

theorem addResource_eq (d : Document) (schema : Fields Json) (options : Options) :
    d.addResource schema options = (Fragment.ofSchema schema options).map d.add := by
  unfold addResource Fragment.ofSchema
  cases buildPaths schema options.routePrefix with
  | error problem => rfl
  | ok paths =>
    cases buildComponents schema options.allowIdentifier options.routePrefix with
    | error problem => rfl
    | ok components =>
      simp only [Results.ok_bind]
      cases applyPatches paths [] components.patches <;> rfl

end Document

/-! ## Operations of a path item -/

namespace Method

/-- On one route, methods differ in their verbs. -/
theorem eq_of_verb {m m' : Method} (route : m.onItem = m'.onItem) (verb : m.verb = m'.verb) :
    m = m' := by
  cases m <;> cases m' <;> first | rfl | exact absurd route (by decide) | exact absurd verb (by decide)

variable {methods : List Method} {m : Method}

/-- The methods that an item's path item is made from address one item. -/
theorem onItem_of_mem_filter (mem : m ∈ methods.filter (·.onItem)) : m.onItem = true :=
  (List.mem_filter.1 mem).2

/-- Those that the collection's is made from do not. -/
theorem not_onItem_of_mem_filter (mem : m ∈ methods.filter (!·.onItem)) : m.onItem = false := by
  simpa using (List.mem_filter.1 mem).2

end Method

/-- The fields that name the resource of a path item. -/
def nameFields (config : DocumentConfig) : Fields Json :=
  [("x-documentName", .str config.documentName), ("x-interfaceName", .str config.interfaceName)]

/-- The operation of a method, as it stands in a path item. -/
def operation (config : DocumentConfig) (properties : Fields Json) (m : Method) : Json :=
  (Operation.ofMethod m config properties).toJson

theorem pathItem_append (config : DocumentConfig) (properties : Fields Json) (methods : List Method)
    (m : Method) :
    pathItem config properties (methods ++ [m]) =
      (pathItem config properties methods).put m.verb (operation config properties m) := by
  rw [pathItem, List.foldl_append]
  rfl

/-- What stands in a path item: the last operation on a verb, and the names. -/
theorem get?_pathItem (config : DocumentConfig) (properties : Fields Json) (methods : List Method)
    (name : String) :
    (pathItem config properties methods).get? name =
      ((methods.reverse.find? (·.verb == name)).map (operation config properties)).or
        ((nameFields config).get? name) := by
  induction methods using List.reverseRecOn with
  | nil => rfl
  | append_singleton methods m ih =>
    rw [pathItem_append, Fields.get?_put, ih, List.reverse_append, List.reverse_singleton,
      List.singleton_append, List.find?_cons]
    by_cases h : m.verb = name
    · simp [h]
    · rw [if_neg h, beq_eq_false_iff_ne.2 h]

/-- A verb of a path item on one route has the operation of its method. -/
theorem get?_pathItem_verb {config : DocumentConfig} {properties : Fields Json}
    {methods : List Method} {onItem : Bool} (route : ∀ m ∈ methods, m.onItem = onItem) {m : Method}
    (mem : m ∈ methods) :
    (pathItem config properties methods).get? m.verb = some (operation config properties m) := by
  rw [get?_pathItem]
  cases found : methods.reverse.find? (·.verb == m.verb) with
  | none =>
    have none := List.find?_eq_none.1 found m (List.mem_reverse.2 mem)
    simp at none
  | some m' =>
    have verb : m'.verb = m.verb := by simpa using List.find?_some found
    have mem' : m' ∈ methods := List.mem_reverse.1 (List.mem_of_find?_eq_some found)
    have same : m' = m := Method.eq_of_verb ((route m' mem').trans (route m mem).symm) verb
    rw [same]
    rfl

/-- Whatever a path item holds is the name of its resource or the operation of a method. -/
theorem pathItem_field {config : DocumentConfig} {properties : Fields Json} {methods : List Method}
    {name : String} {v : Json} (h : (pathItem config properties methods).get? name = some v) :
    (name, v) ∈ nameFields config ∨
      ∃ m ∈ methods, m.verb = name ∧ v = operation config properties m := by
  rw [get?_pathItem, Option.or_eq_some_iff] at h
  rcases h with found | ⟨-, named⟩
  · obtain ⟨m, last, rfl⟩ := Option.map_eq_some_iff.1 found
    have verb : m.verb = name := by simpa using List.find?_some last
    exact Or.inr ⟨m, List.mem_reverse.1 (List.mem_of_find?_eq_some last), verb, rfl⟩
  · exact Or.inl (Fields.mem_of_get? named)

/-! ## Patches -/

/-- An operation with its parameters replaced. -/
def withParameters (operation : Fields Json) (parameters : List Json) : Fields Json :=
  operation.put "parameters" (.arr parameters)

theorem withParameters_again (operation : Fields Json) (parameters : List Json) :
    withParameters (withParameters operation parameters) parameters =
      withParameters operation parameters :=
  Fields.put_of_get? (Fields.get?_put_self _ _ _)

namespace ParameterPatch

variable {p : ParameterPatch}

theorem set_obj {item operation : Fields Json} (h : item.get? p.verb = some (.obj operation)) :
    p.set (.obj item) = .ok (item.put p.verb (.obj (withParameters operation p.parameters))) := by
  have filled : (Json.obj item).isFalsy = false := by
    cases item with
    | nil => simp at h
    | cons f rest => rfl
  simp only [set, filled, Bool.false_eq_true, if_false, h]
  rfl

/-- There is no operation in what is taken for no. -/
theorem set_of_isFalsy {item : Json} (empty : item.isFalsy = true) :
    p.set item = .error (.noOperation p.verb p.route) := by
  unfold set
  exact if_pos empty

/-- What a patch is set in is not empty. -/
theorem filled_of_set {item : Json} {fields : Fields Json} (h : p.set item = .ok fields) :
    item.isFalsy = false := by
  cases empty : item.isFalsy with
  | false => rfl
  | true =>
    rw [set_of_isFalsy empty] at h
    cases h

/-- Once set, parameters may be set again. -/
theorem set_again (item operation : Fields Json) :
    p.set (.obj (item.put p.verb (.obj (withParameters operation p.parameters)))) =
      .ok (item.put p.verb (.obj (withParameters operation p.parameters))) := by
  have there := Fields.get?_put_self item p.verb (.obj (withParameters operation p.parameters))
  rw [set_obj there, withParameters_again, Fields.put_of_get? there]

end ParameterPatch

/-- A patch goes on from what an earlier one left. -/
theorem itemBefore?_of_patched {paths patched : Fields Json} {route : String} {item : Json}
    (there : patched.get? route = some item) (filled : item.isFalsy = false) :
    itemBefore? paths patched route = some item := by
  rw [itemBefore?, there, Option.filter_some_pos (by rw [filled, Bool.not_false]),
    Option.orElse_some]

/-- The first patch on a route goes on from the item of the paths. -/
theorem itemBefore?_of_not_patched {paths patched : Fields Json} {route : String}
    (fresh : patched.get? route = none) : itemBefore? paths patched route = paths.get? route := by
  rw [itemBefore?, fresh, Option.filter_none, Option.orElse_none]

theorem applyPatches_settled {paths patched : Fields Json} {p : ParameterPatch} {item : Fields Json}
    (there : patched.get? p.route = some (.obj item)) (settled : p.set (.obj item) = .ok item)
    (n : Nat) : applyPatches paths patched (List.replicate n p) = .ok patched := by
  induction n with
  | zero => rfl
  | succ n ih =>
    rw [List.replicate_succ, applyPatches,
      itemBefore?_of_patched there (ParameterPatch.filled_of_set settled), Option.getD_some, settled,
      Results.ok_bind, Fields.put_of_get? there, ih]

/-- A patch to an operation that is there, applied once or more often. -/
theorem applyPatches_replicate {paths : Fields Json} {p : ParameterPatch}
    {item operation : Fields Json} (there : paths.get? p.route = some (.obj item))
    (held : item.get? p.verb = some (.obj operation)) (n : Nat) :
    applyPatches paths [] (List.replicate (n + 1) p) =
      .ok [(p.route, .obj (item.put p.verb (.obj (withParameters operation p.parameters))))] := by
  rw [List.replicate_succ, applyPatches, itemBefore?_of_not_patched rfl, there, Option.getD_some,
    ParameterPatch.set_obj held, Results.ok_bind]
  exact applyPatches_settled (Fields.get?_put_self _ _ _) (ParameterPatch.set_again item operation) n

/-! ## Resources -/

/-- What the paths and the components of a schema are made from. -/
structure Resource where
  config : DocumentConfig
  properties : Fields Json
  /-- The required list of the root. -/
  required : List String
  methods : List Method

namespace Resource

def ofSchema (schema : Fields Json) : Except Problem Resource := do
  let config ← DocumentConfig.ofSchema schema
  let properties ← ResourceApi.properties schema
  let methods ← knownMethods config.methods
  pure ⟨config, properties, Required.names ((schema.get? "required").getD .null), methods⟩

variable (r : Resource)

/-- The query parameters of the collection's listing. -/
def queries : List Json := (Parameter.ofProperties r.properties).map Parameter.toJson

/-- The path item of the collection before patches. -/
def bareCollection : Fields Json :=
  pathItem r.config r.properties (r.methods.filter (!·.onItem))

/-- The listing of the collection before patches. -/
def bareListing : Fields Json :=
  ((operation r.config r.properties .getList).fields?).getD []

/-- The path item of the collection. -/
def collection : Fields Json :=
  if .getList ∈ r.methods then
    r.bareCollection.put "get" (.obj (withParameters r.bareListing r.queries))
  else r.bareCollection

/-- The path item of an item of the collection. -/
def item : Fields Json := pathItem r.config r.properties (r.methods.filter (·.onItem))

def paths (routePrefix : String) : Fields Json :=
  [(collectionRoute r.config routePrefix, .obj r.collection),
    (itemRoute r.config routePrefix, .obj r.item)]

def schemas (allowIdentifier : Bool) : Fields Json :=
  .ofPairs (r.methods.flatMap
    ((Shapes.of r.properties r.required allowIdentifier).registered r.config.interfaceName))

def fragment (options : Options) : Fragment :=
  ⟨r.paths options.routePrefix, r.schemas options.allowIdentifier⟩

/-- The patch that a listing asks for. -/
def patch (routePrefix : String) : ParameterPatch :=
  ⟨collectionRoute r.config routePrefix, "get", r.queries⟩

theorem buildPaths_eq (schema : Fields Json) (routePrefix : String) :
    buildPaths schema routePrefix =
      (ofSchema schema).map fun r => pathItems r.config r.properties r.methods routePrefix := by
  unfold buildPaths ofSchema
  cases DocumentConfig.ofSchema schema with
  | error problem => rfl
  | ok config =>
    cases ResourceApi.properties schema with
    | error problem => rfl
    | ok properties =>
      simp only [Results.ok_bind]
      cases knownMethods config.methods <;> rfl

theorem buildComponents_eq (schema : Fields Json) (allowIdentifier : Bool) (routePrefix : String) :
    buildComponents schema allowIdentifier routePrefix =
      (ofSchema schema).map fun r => ⟨r.schemas allowIdentifier,
        List.replicate (r.methods.count .getList) (r.patch routePrefix)⟩ := by
  have patches (ms : List Method) (p : Method → ParameterPatch) :
      (ms.filter (· = .getList)).map p = List.replicate (ms.count .getList) (p .getList) := by
    rw [List.filter_eq, List.map_replicate]
  unfold buildComponents ofSchema
  cases DocumentConfig.ofSchema schema with
  | error problem => rfl
  | ok config =>
    cases ResourceApi.properties schema with
    | error problem => rfl
    | ok properties =>
      simp only [Results.ok_bind]
      cases knownMethods config.methods with
      | error problem => rfl
      | ok methods =>
        simp only [Results.ok_bind, patches]
        rfl

theorem bareCollection_getList (h : .getList ∈ r.methods) :
    r.bareCollection.get? "get" = some (.obj r.bareListing) := by
  exact get?_pathItem_verb (m := .getList) (fun _ => Method.not_onItem_of_mem_filter)
    (List.mem_filter.2 ⟨h, rfl⟩)

/-- The patches of a resource can be applied to its paths, and set the parameters of the listing. -/
theorem applyPatches_patch (routePrefix : String) :
    ∃ patched, applyPatches (pathItems r.config r.properties r.methods routePrefix) []
        (List.replicate (r.methods.count .getList) (r.patch routePrefix)) = .ok patched ∧
      (pathItems r.config r.properties r.methods routePrefix).merge patched =
        r.paths routePrefix := by
  by_cases listed : .getList ∈ r.methods
  · obtain ⟨n, count⟩ := Nat.exists_eq_succ_of_ne_zero
      (Nat.pos_iff_ne_zero.1 (List.count_pos_iff.2 listed))
    have there : (pathItems r.config r.properties r.methods routePrefix).get?
        (r.patch routePrefix).route = some (.obj r.bareCollection) := if_pos rfl
    rw [count]
    refine ⟨_, applyPatches_replicate there (r.bareCollection_getList listed) n, ?_⟩
    rw [paths, collection, if_pos listed, Fields.merge_cons, Fields.merge_nil, pathItems,
      Fields.put]
    exact if_pos rfl
  · rw [List.count_eq_zero.2 listed]
    refine ⟨[], rfl, ?_⟩
    rw [paths, collection, if_neg listed]
    rfl

/-- **A schema contributes the fragment of its resource**, and fails only where the resource cannot
be read. -/
theorem fragment_eq (schema : Fields Json) (options : Options) :
    Fragment.ofSchema schema options = (ofSchema schema).map (·.fragment options) := by
  unfold Fragment.ofSchema
  rw [buildPaths_eq, buildComponents_eq]
  cases ofSchema schema with
  | error problem => rfl
  | ok r =>
    obtain ⟨patched, applied, merged⟩ := r.applyPatches_patch options.routePrefix
    simp only [Except.map, Results.ok_bind, applied, merged]
    rfl

/-! ## What a resource puts into a document -/

theorem routes_ne (config : DocumentConfig) (routePrefix : String) :
    collectionRoute config routePrefix ≠ itemRoute config routePrefix := by
  intro same
  have lengths := congrArg String.length same
  rw [itemRoute, String.length_append] at lengths
  have : "/\x7bid\x7d".length = 5 := rfl
  omega

theorem nodup_paths (routePrefix : String) : (r.paths routePrefix).names.Nodup := by
  simp [paths, routes_ne]

theorem nodup_schemas (allowIdentifier : Bool) : (r.schemas allowIdentifier).names.Nodup :=
  Fields.nodup_ofPairs _

/-- The route that the operation of a method stands on. -/
def route (routePrefix : String) (m : Method) : String :=
  if m.onItem then itemRoute r.config routePrefix else collectionRoute r.config routePrefix

/-- A value is the operation of a method, of which only the parameters may have been replaced. -/
def IsOperation (m : Method) (value : Json) : Prop :=
  ∀ name, name ≠ "parameters" →
    value.field? name = (operation r.config r.properties m).field? name

/-- The fields of a path item are the names of the resource and the operations of the methods that
stand on its route. -/
theorem paths_field {r : Resource} {routePrefix route verb : String} {item value : Json}
    (placed : (r.paths routePrefix).get? route = some item)
    (held : item.field? verb = some value) :
    (verb, value) ∈ nameFields r.config ∨
      ∃ m ∈ r.methods, r.route routePrefix m = route ∧ m.verb = verb ∧ r.IsOperation m value := by
  have bare {onItem : Bool} (onRoute : ∀ m, m.onItem = onItem → r.route routePrefix m = route)
      (h : (pathItem r.config r.properties (r.methods.filter (·.onItem == onItem))).get? verb =
        some value) :
      (verb, value) ∈ nameFields r.config ∨
        ∃ m ∈ r.methods, r.route routePrefix m = route ∧ m.verb = verb ∧ r.IsOperation m value := by
    rcases pathItem_field h with named | ⟨m, mem, same, rfl⟩
    · exact Or.inl named
    · obtain ⟨listed, on⟩ := List.mem_filter.1 mem
      exact Or.inr ⟨m, listed, onRoute m (by simpa using on), same, fun _ _ => rfl⟩
  rcases List.mem_cons.1 (Fields.mem_of_get? placed) with first | second
  · obtain ⟨rfl, rfl⟩ := Prod.mk.inj first
    have onRoute (m : Method) (on : m.onItem = false) :
        r.route routePrefix m = collectionRoute r.config routePrefix := by
      rw [Resource.route, on]
      rfl
    have isBare : r.bareCollection =
        pathItem r.config r.properties (r.methods.filter (·.onItem == false)) := by
      simp [bareCollection]
    rw [Json.field?_obj, collection, isBare] at held
    split at held
    · next listed =>
      rw [Fields.get?_put] at held
      split at held
      · next same =>
        cases held
        refine Or.inr ⟨.getList, listed, onRoute .getList rfl, same, fun name other => ?_⟩
        rw [Json.field?_obj, withParameters, Fields.get?_put_of_ne (Ne.symm other)]
        rfl
      · exact bare onRoute held
    · exact bare onRoute held
  · obtain ⟨rfl, rfl⟩ := Prod.mk.inj (List.mem_singleton.1 second)
    have onRoute (m : Method) (on : m.onItem = true) :
        r.route routePrefix m = itemRoute r.config routePrefix := by
      rw [Resource.route, on]
      rfl
    refine bare onRoute ?_
    simpa [item] using held

/-- The operation of each method stands on its route under its verb. -/
theorem get?_paths {m : Method} (listed : m ∈ r.methods) (routePrefix : String) :
    ∃ item value, (r.paths routePrefix).get? (r.route routePrefix m) = some item ∧
      item.field? m.verb = some value ∧ r.IsOperation m value := by
  cases on : m.onItem with
  | true =>
    refine ⟨.obj r.item, operation r.config r.properties m, ?_, ?_, fun _ _ => rfl⟩
    · rw [Resource.route, on, if_pos rfl, paths, Fields.get?_cons, if_neg (routes_ne _ _)]
      exact if_pos rfl
    · exact get?_pathItem_verb (fun _ => Method.onItem_of_mem_filter)
        (List.mem_filter.2 ⟨listed, on⟩)
  | false =>
    have bare : r.bareCollection.get? m.verb = some (operation r.config r.properties m) :=
      get?_pathItem_verb (fun _ => Method.not_onItem_of_mem_filter)
        (List.mem_filter.2 ⟨listed, by rw [on]; rfl⟩)
    have there : (r.paths routePrefix).get? (r.route routePrefix m) = some (.obj r.collection) := by
      rw [Resource.route, on]
      exact if_pos rfl
    by_cases listing : m = .getList
    · subst listing
      refine ⟨_, .obj (withParameters r.bareListing r.queries), there, ?_, fun name other => ?_⟩
      · rw [Json.field?_obj, collection, if_pos listed]
        exact Fields.get?_put_self ..
      · rw [Json.field?_obj, withParameters, Fields.get?_put_of_ne (Ne.symm other)]
        rfl
    · refine ⟨_, _, there, ?_, fun _ _ => rfl⟩
      have other : "get" ≠ m.verb := by
        intro same
        exact listing (Method.eq_of_verb on same.symm)
      rw [Json.field?_obj, collection]
      split
      · exact (Fields.get?_put_of_ne other ..).trans bare
      · exact bare

/-- The names of the component schemas are those that the methods register. -/
theorem mem_names_schemas {allowIdentifier : Bool} {name : String} :
    name ∈ (r.schemas allowIdentifier).names ↔
      ∃ m ∈ r.methods, name ∈ ((Shapes.of r.properties r.required allowIdentifier).registered
        r.config.interfaceName m).map (·.1) := by
  rw [schemas, Fields.ofPairs, Fields.mem_names_merge, Fields.names_nil]
  simp only [Fields.names, List.map_flatMap, List.mem_flatMap, List.not_mem_nil, false_or]

end Resource
end ResourceApi
