import Mathlib.Data.List.Nodup
import ResourceApi.Proofs.Api.Listing

/-! # Names of query parameters

A collection is filtered by the names of its properties, and where a property asks for a
range, by a lower and an upper bound besides. The names of bounds are put together from the
name of the property, and nothing keeps another property from having such a name itself.
That is the only way in which two filters of a listing come to share a name. -/

namespace ResourceApi

/-! ## Filters of a property -/

/-- What is put before the name of a property to name its bounds. -/
def boundPrefixes : List String := ["min_", "max_"]

/-- A property that the collection can be filtered by. -/
def IsFilter (v : Json) : Prop :=
  ∃ property, v = .obj property ∧ Parameter.hasType property "object" = false

/-- A property that the collection can be filtered by with bounds. -/
def IsRange (v : Json) : Prop :=
  IsFilter v ∧ v.field? "x-format" = some (.str Parameter.rangeFormat)

/-- No filter has the name of a bound of another property. -/
def BoundsFree (properties : Fields Json) : Prop :=
  ∀ name v, properties.get? name = some v → IsRange v → ∀ bound ∈ boundPrefixes,
    ∀ w, properties.get? (bound ++ name) = some w → ¬ IsFilter w

/-- The names of the filters that one property gives. -/
def filterNames (p : String × Json) : List String :=
  ((match p.2 with
    | .obj property => Parameter.queries p.1 property
    | _ => []) : List Parameter).map Parameter.name

theorem names_ofProperties (properties : Fields Json) :
    (Parameter.ofProperties properties).map Parameter.name = properties.flatMap filterNames := by
  rw [Parameter.ofProperties, List.map_flatMap]
  rfl

variable {p q : String × Json} {name name' bound bound' : String}

/-- A property gives its own name, and those of its bounds. -/
theorem mem_filterNames : name ∈ filterNames p ↔
    (IsFilter p.2 ∧ name = p.1) ∨ (IsRange p.2 ∧ ∃ bound ∈ boundPrefixes, name = bound ++ p.1) := by
  obtain ⟨own, v⟩ := p
  cases v with
  | obj property =>
    simp only [filterNames, Parameter.queries, IsRange, IsFilter, Json.field?_obj, Json.obj.injEq,
      boundPrefixes]
    cases object : Parameter.hasType property "object" <;>
      by_cases ranged : Fields.get? property "x-format" = some (.str Parameter.rangeFormat) <;>
        simp [object, ranged]
  | null | bool | int | float | str | arr => simp [filterNames, IsRange, IsFilter]

/-- A bound and a name are told apart in what they are put together to. -/
theorem bound_inj (isBound : bound ∈ boundPrefixes) (isBound' : bound' ∈ boundPrefixes)
    (same : bound ++ name = bound' ++ name') : bound = bound' ∧ name = name' := by
  have lengths : ∀ b ∈ boundPrefixes, b.toList.length = 4 := by decide
  have chars := congrArg String.toList same
  rw [String.toList_append, String.toList_append] at chars
  have apart := List.append_inj chars ((lengths _ isBound).trans (lengths _ isBound').symm)
  exact ⟨String.toList_inj.1 apart.1, String.toList_inj.1 apart.2⟩

theorem bound_ne (isBound : bound ∈ boundPrefixes) (name : String) : bound ++ name ≠ name := by
  intro same
  have filled : ∀ b ∈ boundPrefixes, 0 < b.length := by decide
  have longer := congrArg String.length same
  rw [String.length_append] at longer
  have := filled _ isBound
  omega

theorem nodup_filterNames (p : String × Json) : (filterNames p).Nodup := by
  obtain ⟨own, v⟩ := p
  have low : "min_" ++ own ≠ own := bound_ne (by decide) own
  have high : "max_" ++ own ≠ own := bound_ne (by decide) own
  have apart : "min_" ++ own ≠ "max_" ++ own := by
    intro same
    exact absurd (bound_inj (by decide) (by decide) same).1 (by decide)
  cases v with
  | obj property =>
    simp only [filterNames, Parameter.queries]
    split
    · exact List.nodup_nil
    · split <;> simp [low.symm, high.symm, apart]
  | null | bool | int | float | str | arr => exact List.nodup_nil

/-- Two properties of different names give the same filter only if a bound of one is the other. -/
theorem shared_filterNames (differ : p.1 ≠ q.1) (mem : name ∈ filterNames p)
    (mem' : name ∈ filterNames q) :
    (IsRange p.2 ∧ IsFilter q.2 ∧ ∃ bound ∈ boundPrefixes, q.1 = bound ++ p.1) ∨
      (IsRange q.2 ∧ IsFilter p.2 ∧ ∃ bound ∈ boundPrefixes, p.1 = bound ++ q.1) := by
  cases mem_filterNames.1 mem with
  | inl own =>
    obtain ⟨isFilter, rfl⟩ := own
    cases mem_filterNames.1 mem' with
    | inl own' => exact absurd own'.2 differ
    | inr ofBound => exact .inr ⟨ofBound.1, isFilter, ofBound.2⟩
  | inr ofBound =>
    obtain ⟨isRange, bound, isBound, rfl⟩ := ofBound
    cases mem_filterNames.1 mem' with
    | inl own => exact .inl ⟨isRange, own.1, bound, isBound, own.2.symm⟩
    | inr ofBound' =>
      obtain ⟨-, bound', isBound', same⟩ := ofBound'
      exact absurd (bound_inj isBound isBound' same).2 differ

/-- The filters of properties have different names exactly if no bound is another filter. -/
theorem nodup_ofProperties_iff {properties : Fields Json} (nodup : properties.names.Nodup) :
    ((Parameter.ofProperties properties).map Parameter.name).Nodup ↔ BoundsFree properties := by
  rw [names_ofProperties, List.nodup_flatMap]
  constructor
  · intro apart name v isProperty isRange bound isBound w isOther isFilter
    -- either of the two properties may come first
    have : Std.Symm (Function.onFun List.Disjoint filterNames) := ⟨fun _ _ h => h.symm⟩
    have differ : (name, v) ≠ (bound ++ name, w) := by
      intro same
      exact bound_ne isBound name (congrArg Prod.fst same).symm
    have disjoint : List.Disjoint (filterNames (name, v)) (filterNames (bound ++ name, w)) :=
      apart.2.forall (Fields.mem_of_get? isProperty) (Fields.mem_of_get? isOther) differ
    exact disjoint (mem_filterNames.2 (.inr ⟨isRange, bound, isBound, rfl⟩))
      (mem_filterNames.2 (.inl ⟨isFilter, rfl⟩))
  · intro free
    refine ⟨fun p _ => nodup_filterNames p, ?_⟩
    refine (List.pairwise_map.1 nodup).imp_of_mem ?_
    intro p q isProperty isOther differ name mem mem'
    have found := Fields.get?_of_mem nodup isProperty
    have found' := Fields.get?_of_mem nodup isOther
    cases shared_filterNames differ mem mem' with
    | inl clash =>
      obtain ⟨isRange, isFilter, bound, isBound, same⟩ := clash
      exact free _ _ found isRange bound isBound _ (same ▸ found') isFilter
    | inr clash =>
      obtain ⟨isRange, isFilter, bound, isBound, same⟩ := clash
      exact free _ _ found' isRange bound isBound _ (same ▸ found) isFilter

/-! ## Filters of a listing -/

/-- The names of the parameters that an operation declares. -/
def Json.parameterNames (operation : Json) : List String :=
  (((operation.field? "parameters").bind Json.items?).getD []).filterMap fun p =>
    (p.field? "name").bind Json.str?

theorem parameterNames_of_declared {operation : Json} {parameters : List Parameter}
    (declared : operation.field? "parameters" = some (.arr (parameters.map Parameter.toJson))) :
    operation.parameterNames = parameters.map Parameter.name := by
  rw [Json.parameterNames, declared, Option.bind_some, Json.items?, Option.getD_some,
    List.filterMap_map]
  exact congrFun (List.filterMap_eq_map (f := Parameter.name)) parameters

/-- The listing of the resource added last declares the filters of its properties. -/
theorem Resource.listing_add {r : Resource} (listed : .getList ∈ r.methods) (d : Document)
    (options : Options) :
    ∃ listing, (d.add (r.fragment options)).operation?
        (collectionRoute r.config options.routePrefix) "get" = some listing ∧
      listing.field? "parameters" = some (.arr r.queries) := by
  refine ⟨.obj (withParameters r.bareListing r.queries), ?_, Fields.get?_put_self ..⟩
  have placed : (r.paths options.routePrefix).get? (collectionRoute r.config options.routePrefix) =
      some (.obj r.collection) := if_pos rfl
  rw [Document.operation?, get?_paths_add placed, Option.bind_some, Json.field?_obj, collection,
    if_pos listed]
  exact Fields.get?_put_self ..

/-- **Filters share a name only where a bound is named like another filter.** The query parameters
of a resource have different names if and only if none of its filters has the name of a bound of
another one. Every listing that is added declares exactly these parameters, and so declares one
twice in no other case. -/
theorem queryParameters_distinct {properties : Fields Json} (nodup : properties.names.Nodup) :
    (((Parameter.ofProperties properties).map Parameter.name).Nodup ↔ BoundsFree properties) ∧
      ∀ (schema : Fields Json) (config : DocumentConfig) (d d' : Document) (options : Options),
        schema.get? "properties" = some (.obj properties) →
        DocumentConfig.ofSchema schema = .ok config → "getList" ∈ config.methods →
        d.addResource schema options = .ok d' →
        ∃ listing, d'.operation? (collectionRoute config options.routePrefix) "get" = some listing ∧
          listing.field? "parameters" =
            some (.arr ((Parameter.ofProperties properties).map Parameter.toJson)) ∧
          (listing.parameterNames.Nodup ↔ BoundsFree properties) := by
  have different := nodup_ofProperties_iff nodup
  refine ⟨different, ?_⟩
  intro schema config d d' options isProperties isConfig lists added
  obtain ⟨r, isResource, rfl⟩ := Document.addResource_eq_ok.1 added
  obtain ⟨isConfig', isProperties', -, isMethods⟩ := Resource.parts_of_ofSchema isResource
  obtain rfl : config = r.config := Except.ok.inj (isConfig.symm.trans isConfig')
  obtain rfl : properties = r.properties := by
    rw [isProperties] at isProperties'
    exact Json.obj.inj (Option.some.inj isProperties')
  obtain ⟨listing, there, declared⟩ :=
    Resource.listing_add (mem_of_knownMethods isMethods lists) d options
  refine ⟨listing, there, declared, ?_⟩
  rw [parameterNames_of_declared declared]
  exact different

/-- The listing of orders declares each of its filters once. -/
theorem queryParameters_distinct_order :
    BoundsFree Compilation.orderResource.properties ∧
      ∃ d' listing, ({} : Document).addResource orderNormal {} = .ok d' ∧
        d'.operation? "/order" "get" = some listing ∧ listing.parameterNames.Nodup := by
  have nodup : Compilation.orderResource.properties.names.Nodup := by decide
  obtain ⟨differ, declared⟩ := queryParameters_distinct nodup
  obtain ⟨d', added⟩ : ∃ d', ({} : Document).addResource orderNormal {} = .ok d' := ⟨_, rfl⟩
  obtain ⟨listing, there, -, once⟩ :=
    declared orderNormal Compilation.orderResource.config {} d' {} rfl rfl (by decide) added
  have free : BoundsFree Compilation.orderResource.properties := differ.1 (by decide)
  exact ⟨free, d', listing, added, there, once.2 free⟩

/-- Prices in a range, and a least price besides. -/
def priceSchema : Fields Json := [
  ("x-documentConfig", .obj [("documentName", .str "Price"), ("interfaceName", .str "Price"),
    ("methods", .arr [.str "getList"])]),
  ("type", .str "object"),
  ("properties", .obj [
    ("price", .obj [("type", .str "number"), ("x-format", .str "minMax")]),
    ("min_price", .obj [("type", .str "number")])])]

/-- The lower bound of the price has the name of the least price, and the listing declares both. -/
theorem queryParameters_clash : ∃ normal properties d' listing,
    normalForm priceSchema = .ok normal ∧ normal.get? "properties" = some (.obj properties) ∧
    ¬ ((Parameter.ofProperties properties).map Parameter.name).Nodup ∧
    ({} : Document).addResource normal {} = .ok d' ∧
    d'.operation? "/price" "get" = some listing ∧ ¬ listing.parameterNames.Nodup :=
  ⟨_, _, _, _, rfl, rfl, by decide, rfl, rfl, by decide⟩

end ResourceApi
