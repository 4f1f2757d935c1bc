import ResourceApi.Proofs.Api.PatchedListing
import ResourceApi.Proofs.Json.Entrywise
import ResourceApi.Proofs.Resource.Untouched

/-! # Only the set of methods matters

A schema lists its methods, but what is made of them is looked up by route, verb and name.
All that is written under one of these is the same, whichever method of the list writes it
and however often, and a patch that is applied again changes nothing. So the order of the
list shows only in the order of fields, and a repetition in nothing at all. -/

namespace ResourceApi

/-! ## Values whose fields are rearranged -/

/-- Values that are equal but for the order of fields, at every level. -/
inductive Json.Rearranged : Json → Json → Prop
  | same (v : Json) : Rearranged v v
  | fields {as bs : Fields Json} (names : as.names.Perm bs.names)
      (values : ∀ name v w, as.get? name = some v → bs.get? name = some w → Rearranged v w) :
      Rearranged (.obj as) (.obj bs)

namespace Json.Rearranged

variable {as bs : Fields Json}

/-- Fields that hold equal values. -/
theorem of_get? (nodup : as.names.Nodup) (nodup' : bs.names.Nodup)
    (same : ∀ name, as.get? name = bs.get? name) : Rearranged (.obj as) (.obj bs) := by
  refine .fields (Fields.perm_names nodup nodup' same) ?_
  intro name v w here there
  obtain rfl : v = w := Option.some.inj (here.symm.trans ((same name).trans there))
  exact .same v

/-- Fields in the same order, each with a value whose own fields may be rearranged. -/
theorem of_entrywise (each : Fields.Entrywise (fun _ => Rearranged) as bs) :
    Rearranged (.obj as) (.obj bs) := by
  refine .fields (.of_eq each.names.symm) ?_
  intro name v w here there
  have related := each.get? name
  rw [here, there] at related
  cases related with
  | some rearranged => exact rearranged

theorem fields_of_obj (h : Rearranged (.obj as) (.obj bs)) : as.names.Perm bs.names ∧
    ∀ name v w, as.get? name = some v → bs.get? name = some w → Rearranged v w := by
  cases h with
  | fields names values => exact ⟨names, values⟩
  | same =>
    refine ⟨.refl _, ?_⟩
    intro name v w here there
    obtain rfl : v = w := Option.some.inj (here.symm.trans there)
    exact .same v

/-- Merging fields that are rearranged gives fields that are rearranged. -/
theorem merge (fs : Fields Json) (nodup : as.names.Nodup) (nodup' : bs.names.Nodup)
    (h : Rearranged (.obj as) (.obj bs)) : Rearranged (.obj (fs.merge as)) (.obj (fs.merge bs)) := by
  have new {cs : Fields Json} (once : cs.names.Nodup) : (fs.merge cs).names =
      fs.names ++ cs.names.filter fun n => !fs.names.contains n := by
    rw [Fields.names_merge, Fields.newNames, Required.eraseDups_eq_self (once.filter _)]
  obtain ⟨names, values⟩ := fields_of_obj h
  refine .fields ?_ ?_
  · rw [new nodup, new nodup']
    exact (names.filter _).append_left _
  · intro name v w here there
    rw [Fields.get?_merge nodup] at here
    rw [Fields.get?_merge nodup'] at there
    cases found : as.get? name with
    | some a =>
      obtain ⟨b, found'⟩ := Fields.exists_of_mem_names
        (names.mem_iff.1 (Fields.mem_names_of_get? found))
      rw [found, Option.some_or] at here
      rw [found', Option.some_or] at there
      cases here
      cases there
      exact values name _ _ found found'
    | none =>
      have found' : bs.get? name = none :=
        Fields.get?_eq_none_iff.2 fun mem =>
          Fields.get?_eq_none_iff.1 found (names.mem_iff.2 mem)
      rw [found, Option.none_or] at here
      rw [found', Option.none_or, here] at there
      cases there
      exact .same v

end Json.Rearranged

/-! ## Resources with other lists of the same methods -/

section PathItem

variable {config : DocumentConfig} {properties : Fields Json} {methods methods' : List Method}

/-- What stands in a path item of one route hangs on the set of its methods. -/
theorem get?_pathItem_congr {onItem : Bool} (route : ∀ m ∈ methods, m.onItem = onItem)
    (same : ∀ m, m ∈ methods ↔ m ∈ methods') (name : String) :
    (pathItem config properties methods).get? name =
      (pathItem config properties methods').get? name := by
  by_cases listed : ∃ m ∈ methods, m.verb = name
  · obtain ⟨m, mem, rfl⟩ := listed
    have route' : ∀ m ∈ methods', m.onItem = onItem := by
      intro m mem
      exact route m ((same m).2 mem)
    rw [get?_pathItem_verb route mem, get?_pathItem_verb route' ((same m).1 mem)]
  · have absent {ms : List Method} (among : ∀ m ∈ ms, m ∈ methods) :
        ms.reverse.find? (·.verb == name) = none := by
      refine List.find?_eq_none.2 fun m mem isVerb => listed ?_
      exact ⟨m, among m (List.mem_reverse.1 mem), beq_iff_eq.1 isVerb⟩
    rw [get?_pathItem, get?_pathItem, absent fun _ => id, absent fun m => (same m).2]

end PathItem

namespace Resource

variable {r : Resource} {methods : List Method}

/-- The resource with another list of methods. -/
def withMethods (r : Resource) (methods : List Method) : Resource :=
  { r with config := { r.config with methods := methods.map Method.name }, methods }

theorem collection_withMethods (same : ∀ m, m ∈ r.methods ↔ m ∈ methods) :
    (Json.obj r.collection).Rearranged (.obj (r.withMethods methods).collection) := by
  have bare (name : String) :
      r.bareCollection.get? name = (r.withMethods methods).bareCollection.get? name := by
    refine get?_pathItem_congr (fun _ => Method.not_onItem_of_mem_filter) (fun m => ?_) name
    rw [List.mem_filter, List.mem_filter, same]
    rfl
  have nodup (r : Resource) : r.collection.names.Nodup := by
    rw [collection]
    split
    · exact Fields.nodup_put (nodup_pathItem ..) ..
    · exact nodup_pathItem ..
  refine .of_get? (nodup _) (nodup _) fun name => ?_
  -- both lists are patched, or neither is
  have lists : (.getList ∈ (r.withMethods methods).methods) = (.getList ∈ r.methods) :=
    propext (same _).symm
  simp only [collection, lists]
  split
  · rw [Fields.get?_put, Fields.get?_put, bare]
    rfl
  · exact bare name

theorem item_withMethods (same : ∀ m, m ∈ r.methods ↔ m ∈ methods) :
    (Json.obj r.item).Rearranged (.obj (r.withMethods methods).item) := by
  refine .of_get? (nodup_pathItem ..) (nodup_pathItem ..) fun name => ?_
  refine get?_pathItem_congr (fun _ => Method.onItem_of_mem_filter) (fun m => ?_) name
  rw [List.mem_filter, List.mem_filter, same]
  rfl

theorem paths_withMethods (same : ∀ m, m ∈ r.methods ↔ m ∈ methods) (routePrefix : String) :
    (Json.obj (r.paths routePrefix)).Rearranged
      (.obj ((r.withMethods methods).paths routePrefix)) :=
  .of_entrywise (.cons (collection_withMethods same) (.cons (item_withMethods same) .nil))

theorem schemas_withMethods (same : ∀ m, m ∈ r.methods ↔ m ∈ methods) (allowIdentifier : Bool) :
    (Json.obj (r.schemas allowIdentifier)).Rearranged
      (.obj ((r.withMethods methods).schemas allowIdentifier)) := by
  refine .of_get? (r.nodup_schemas _) (nodup_schemas _ _) fun name => ?_
  ext v
  constructor
  · intro found
    obtain ⟨m, listed, registered⟩ := List.mem_flatMap.1 (Fields.mem_of_get?_ofPairs found)
    exact get?_schemas ((same m).1 listed) registered
  · intro found
    obtain ⟨m, listed, registered⟩ := List.mem_flatMap.1 (Fields.mem_of_get?_ofPairs found)
    exact get?_schemas ((same m).2 listed) registered

/-- Documents to which one resource is added with two lists of the same methods. -/
theorem add_withMethods (same : ∀ m, m ∈ r.methods ↔ m ∈ methods) (d : Document)
    (options : Options) :
    (d.add (r.fragment options)).toJson.Rearranged
      (d.add ((r.withMethods methods).fragment options)).toJson := by
  have paths := (paths_withMethods same options.routePrefix).merge d.paths (r.nodup_paths _)
    (nodup_paths _ _)
  have schemas := (schemas_withMethods same options.allowIdentifier).merge d.schemas
    (r.nodup_schemas _) (nodup_schemas _ _)
  exact .of_entrywise (.cons (.same _) (.cons (.same _) (.cons paths
    (.cons (.of_entrywise (.cons schemas .nil)) .nil))))

end Resource

/-! ## Schemas that differ in their methods -/

/-- A schema without the methods of its configuration. -/
def methodsErased (schema : Fields Json) : Fields Json :=
  schema.mapEntries fun name v => if name = configKey then withoutMethods v else v

namespace DocumentConfig

variable {block block' : Fields Json} {config config' : DocumentConfig}

/-- Of a block, the methods are only read as the methods. -/
theorem ofBlock_erase (alike : Fields.erase block "methods" = Fields.erase block' "methods")
    (read : ofBlock block = .ok config) (read' : ofBlock block' = .ok config') :
    config' = { config with methods := config'.methods } := by
  have get? {key : String} (other : "methods" ≠ key) : block'.get? key = block.get? key := by
    rw [← Fields.get?_erase_of_ne other, ← alike, Fields.get?_erase_of_ne other]
  have spelling_eq {camel snake : String} (other : "methods" ≠ camel) (other' : "methods" ≠ snake) :
      spelling block' camel snake = spelling block camel snake := by
    rw [spelling, spelling, Fields.has, Fields.has, Fields.has, Fields.has, get? other, get? other']
  have spelled_eq {camel snake : String} (other : "methods" ≠ camel) (other' : "methods" ≠ snake) :
      spelled block' camel snake = spelled block camel snake := by
    rw [spelled, spelled, get? other, get? other']
  simp only [ofBlock, get?_spelling, Results.bind_eq_ok] at read read'
  simp (disch := decide) only [spelling_eq, spelled_eq] at read'
  obtain ⟨document, isDocument, interface, isInterface, methods, -, type, isType, keyPrefix,
    isPrefix, built⟩ := read
  obtain ⟨_, isDocument', _, isInterface', methods', -, _, isType', _, isPrefix', built'⟩ := read'
  cases isDocument.symm.trans isDocument'
  cases isInterface.symm.trans isInterface'
  cases isType.symm.trans isType'
  cases isPrefix.symm.trans isPrefix'
  cases built
  cases built'
  congr 1
  -- the methods are no extra field, so erasing them first changes nothing
  generalize isKnown : [spelling block "documentName" "document_name",
    spelling block "interfaceName" "interface_name", "methods",
    spelling block "documentType" "document_type", spelling block "keyPrefix" "key_prefix"] = known
  have drops : (!known.contains "methods") = false := by
    simp [← isKnown]
  rw [← Fields.filter_erase (p := fun key => !known.contains key) drops, ← alike]
  exact Fields.filter_erase (p := fun key => !known.contains key) drops _

/-- The configurations of two schemas that differ in their methods do so too. -/
theorem ofSchema_erase {schema schema' : Fields Json}
    (alike : methodsErased schema = methodsErased schema') (read : ofSchema schema = .ok config)
    (read' : ofSchema schema' = .ok config') :
    config' = { config with methods := config'.methods } := by
  obtain ⟨b, isBlock, read⟩ := Results.bind_eq_ok.1 read
  obtain ⟨b', isBlock', read'⟩ := Results.bind_eq_ok.1 read'
  have erased : withoutMethods (.obj b) = withoutMethods (.obj b') := by
    have found := congrArg (Fields.get? · configKey) alike
    simp only [methodsErased, Fields.get?_mapEntries, (block_eq_ok.1 isBlock).1,
      (block_eq_ok.1 isBlock').1, if_true, Option.map_some] at found
    exact Option.some.inj found
  have completed (b : Fields Json) :
      Fields.erase (completeBlock b) "methods" = Fields.erase b "methods" := by
    rw [completeBlock]
    split
    · exact Fields.erase_put ..
    · rfl
  refine ofBlock_erase ?_ read read'
  rw [completed, completed]
  exact Json.obj.inj erased

end DocumentConfig

/-- What stands beside the configuration does not depend on the methods. -/
theorem get?_of_methodsErased {schema schema' : Fields Json}
    (alike : methodsErased schema = methodsErased schema') {name : String}
    (other : name ≠ configKey) : schema.get? name = schema'.get? name := by
  have found := congrArg (Fields.get? · name) alike
  simpa only [methodsErased, Fields.get?_mapEntries, if_neg other, Option.map_id'] using found

/-- The resources of two schemas that differ in their methods do so too. -/
theorem Resource.ofSchema_erase {schema schema' : Fields Json} {r r' : Resource}
    (alike : methodsErased schema = methodsErased schema') (isResource : ofSchema schema = .ok r)
    (isResource' : ofSchema schema' = .ok r') : r' = r.withMethods r'.methods := by
  obtain ⟨isConfig, isProperties, isRequired, known⟩ := parts_of_ofSchema isResource
  obtain ⟨isConfig', isProperties', isRequired', known'⟩ := parts_of_ofSchema isResource'
  have config := DocumentConfig.ofSchema_erase alike isConfig isConfig'
  rw [knownMethods_eq_ok.1 known'] at config
  have properties : r'.properties = r.properties := by
    rw [get?_of_methodsErased alike (by decide), isProperties'] at isProperties
    exact Json.obj.inj (Option.some.inj isProperties)
  have required : r'.required = r.required := by
    rw [isRequired, isRequired', get?_of_methodsErased alike (by decide)]
  calc r' = ⟨r'.config, r'.properties, r'.required, r'.methods⟩ := rfl
    _ = r.withMethods r'.methods := by rw [config, properties, required, withMethods]

/-- **Only the set of methods matters.** If two normal forms differ in nothing but their methods, and
these are known and the same but for their order and for repetitions, then what becomes of any
document by adding the one or the other differs at most in the order of fields. -/
theorem addResource_methodSet {schema schema' normal normal' : Fields Json}
    (distinct : (Json.obj schema).Distinct) (distinct' : (Json.obj schema').Distinct)
    (h : normalForm schema = .ok normal) (h' : normalForm schema' = .ok normal')
    (alike : methodsErased normal = methodsErased normal') {config config' : DocumentConfig}
    (isConfig : DocumentConfig.ofSchema normal = .ok config)
    (isConfig' : DocumentConfig.ofSchema normal' = .ok config')
    (known : ∀ name ∈ config.methods, name ∈ Method.all.map Method.name)
    (same : ∀ name, name ∈ config.methods ↔ name ∈ config'.methods) (d : Document)
    (options : Options) :
    ∃ d₁ d₂, d.addResource normal options = .ok d₁ ∧ d.addResource normal' options = .ok d₂ ∧
      d₁.toJson.Rearranged d₂.toJson := by
  obtain ⟨r, isResource, rfl, methods⟩ :=
    Resource.exists_of_normalForm distinct h isConfig known
  obtain ⟨r', isResource', rfl, methods'⟩ :=
    Resource.exists_of_normalForm distinct' h' isConfig' fun name mem =>
      known name ((same name).2 mem)
  have sameMethods : ∀ m, m ∈ r.methods ↔ m ∈ r'.methods := by
    intro m
    have named := same m.name
    rwa [methods, methods', List.mem_map_of_injective Method.name_injective,
      List.mem_map_of_injective Method.name_injective] at named
  refine ⟨_, _, Document.addResource_eq_ok.2 ⟨r, isResource, rfl⟩,
    Document.addResource_eq_ok.2 ⟨r', isResource', rfl⟩, ?_⟩
  rw [Resource.ofSchema_erase alike isResource isResource']
  exact Resource.add_withMethods sameMethods d options

/-- Tags that can be put, read and listed, in one order and in another. -/
theorem addResource_methodSet_tag :
    methodsErased (tagSchema [.put, .getList, .get, .put, .getList]) =
      methodsErased (tagSchema [.get, .getList, .put]) ∧
    ∃ d₁ d₂,
      ({} : Document).addResource (tagSchema [.put, .getList, .get, .put, .getList]) {} = .ok d₁ ∧
      ({} : Document).addResource (tagSchema [.get, .getList, .put]) {} = .ok d₂ ∧
      d₁.toJson.Rearranged d₂.toJson := by
  have same (name : String) :
      name ∈ (tagConfig [.put, .getList, .get, .put, .getList]).methods ↔
        name ∈ (tagConfig [.get, .getList, .put]).methods := by
    simp only [tagConfig, List.map, List.mem_cons, List.not_mem_nil, or_false]
    tauto
  have distinct : (Json.obj (tagSchema [.put, .getList, .get, .put, .getList])).Distinct := by
    decide
  have distinct' : (Json.obj (tagSchema [.get, .getList, .put])).Distinct := by decide
  exact ⟨rfl, addResource_methodSet distinct distinct' rfl rfl rfl rfl rfl (by decide) same {} {}⟩

end ResourceApi
