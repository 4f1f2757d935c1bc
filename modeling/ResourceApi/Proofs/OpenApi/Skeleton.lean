import ResourceApi.Proofs.Api.Fragment
import ResourceApi.Proofs.OpenApi.Fitting

/-! # The skeleton of a generated document

What a resource adds to a document fits an API description wherever the text of a schema
does not reach: responses, bodies and operations do in any case, whatever the names. The
path items are left to the schemas and the descriptions of their parameters, and the
component schemas to themselves. -/

namespace ResourceApi

open OpenApi

/-! ## Responses and bodies -/

@[simp] theorem fits_jsonContent (name : String) :
    Fits (jsonContent name) (.map (.record .mediaType)) := by
  simp [jsonContent, componentRef, schemaShape, fits_union, fits_record, Record.fields,
    Fields.get?]

@[simp] theorem fits_response (r : Response) : Fits r.toJson (orReference .response) := by
  unfold Response.toJson
  rw [Unaddressed.fits_orReference]
  · cases r.component <;> simp [fits_record, Record.fields, Fields.get?]
  · cases r.component <;> constructor <;> rfl

@[simp] theorem fits_requestBody (b : RequestBody) :
    Fits b.toJson (orReference .requestBody) := by
  unfold RequestBody.toJson
  rw [Unaddressed.fits_orReference ⟨rfl, rfl⟩]
  simp [fits_record, Record.fields, Fields.get?]

/-- An operation fits if its parameters do. -/
theorem fits_operation (o : Operation) :
    Fits o.toJson (.record .operation) ↔
      ∀ p ∈ o.parameters, Fits p.toJson (orReference .parameter) := by
  unfold Operation.toJson
  cases o.body <;> simp [fits_record, Record.fields, externalDocs, Fields.get?]

/-! ## Parameters -/

/-- The value has the shape of a schema. -/
def IsSchema (v : Json) : Prop := Fits v (.record .schema)

/-- A parameter has a schema, and a description that is a text or is not there. -/
structure ParameterFits (parameter : Json) : Prop where
  schema : ∃ v, parameter.field? "schema" = some v ∧ IsSchema v
  description : ∀ v, parameter.field? "description" = some v → ∃ text, v = .str text

/-- The schema of a parameter holds nothing but constraints of a scalar, and null is no
description. -/
structure Parameter.Plain (p : Parameter) : Prop where
  schema : ∀ name ∈ p.schema.names, name ∈ scalarKeywords
  description : p.description ≠ some .null

namespace Parameter

theorem Plain.unaddressed {p : Parameter} (plain : p.Plain) : Unaddressed p.schema := by
  have absent {name : String} (other : name ∉ scalarKeywords) : p.schema.get? name = none :=
    Fields.get?_eq_none_iff.2 fun mem => other (plain.schema name mem)
  exact ⟨absent (by decide), absent (by decide)⟩

theorem parameterFits_toJson {p : Parameter} :
    ParameterFits p.toJson ↔
      IsSchema (.obj p.schema) ∧ ∀ d, p.description = some d → ∃ text, d = .str text := by
  unfold toJson
  constructor
  · intro ⟨⟨v, found, isSchema⟩, text⟩
    cases found
    refine ⟨isSchema, fun d described => text d ?_⟩
    rw [described]
    rfl
  · intro ⟨isSchema, text⟩
    refine ⟨⟨_, rfl, isSchema⟩, fun d found => text d ?_⟩
    cases described : p.description with
    | none => simp [described, Fields.get?] at found
    | some d' => simpa [described, Fields.get?] using found

/-- A plain parameter fits if its schema and its description do. -/
theorem Plain.fits_iff {p : Parameter} (plain : p.Plain) :
    Fits p.toJson (orReference .parameter) ↔ ParameterFits p.toJson := by
  rw [parameterFits_toJson, IsSchema, ← plain.unaddressed.fits_schemaShape]
  unfold toJson
  rw [Unaddressed.fits_orReference]
  · cases described : p.description with
    | none =>
      cases p.placement <;>
        simp [fits_record, Record.fields, parameterFields, Fields.get?, Placement.name]
    | some d =>
      have notNull : d ≠ .null := by
        intro null
        exact plain.description (null ▸ described)
      cases p.placement <;>
        simp [fits_record, Record.fields, parameterFields, Fields.get?, Placement.name, notNull,
          and_comm]
  · cases p.description <;> constructor <;> rfl

theorem names_scalarSchema (property : Fields Json) :
    ∀ name ∈ Fields.names (scalarSchema property), name ∈ scalarKeywords := by
  intro name mem
  simp only [Fields.names, scalarSchema, List.mem_map, List.mem_filterMap,
    Option.map_eq_some_iff] at mem
  obtain ⟨_, ⟨key, listed, v, -, rfl⟩, rfl⟩ := mem
  exact listed

theorem description?_ne_null (property : Fields Json) : description? property ≠ some .null := by
  intro null
  have truthy := (Option.filter_eq_some_iff.1 null).2
  cases truthy

theorem plain_identifier (property : Fields Json) : (identifier property).Plain :=
  ⟨names_scalarSchema property, description?_ne_null property⟩

theorem names_querySchema (property : Fields Json) :
    ∀ name ∈ Fields.names (querySchema property), name ∈ scalarKeywords := by
  intro name mem
  unfold querySchema at mem
  split at mem
  · rw [Fields.names_put] at mem
    split at mem
    · exact names_scalarSchema property name mem
    · rcases List.mem_append.1 mem with old | new
      · exact names_scalarSchema property name old
      · obtain rfl := List.mem_singleton.1 new
        decide
  · exact names_scalarSchema property name mem

theorem plain_ofProperties (properties : Fields Json) :
    ∀ p ∈ ofProperties properties, p.Plain := by
  intro p mem
  obtain ⟨⟨name, v⟩, -, query⟩ := List.mem_flatMap.1 mem
  cases v with
  | obj property =>
    dsimp only at query
    unfold queries at query
    split at query
    · cases query
    · have plainQuery (name : String) {description : Option Json} (notNull : description ≠ some .null) :
          Parameter.Plain ⟨name, .query, false, querySchema property, description⟩ :=
        ⟨names_querySchema property, notNull⟩
      rcases List.mem_cons.1 query with rfl | bound
      · exact plainQuery name (description?_ne_null property)
      · split at bound
        · simp only [List.mem_cons, List.not_mem_nil, or_false] at bound
          rcases bound with rfl | rfl <;> exact plainQuery _ (Option.some_ne_none _).symm
        · cases bound
  | null | bool | int | float | str | arr => cases query

end Parameter

/-! ## Path items -/

/-- What a resource puts into its path items: its names, and operations whose parameters are
plain. -/
inductive Generated : String → Json → Prop
  | resourceName {key : String} (text : String) :
    key ∈ ["x-documentName", "x-interfaceName"] → Generated key (.str text)
  | operation (m : Method) {o : Operation} :
    (∀ p ∈ o.parameters, p.Plain) → Generated m.verb o.toJson

namespace Resource

variable (r : Resource)

theorem plain_ofMethod (m : Method) (config : DocumentConfig) (properties : Fields Json) :
    ∀ p ∈ (Operation.ofMethod m config properties).parameters, p.Plain := by
  intro p mem
  unfold Operation.ofMethod at mem
  dsimp only at mem
  split at mem
  · obtain ⟨property, -, rfl⟩ := Option.map_eq_some_iff.1 (Option.mem_toList.1 mem)
    exact Parameter.plain_identifier property
  · cases mem

theorem generated_pathItem {methods : List Method} {name : String} {v : Json}
    (held : (pathItem r.config r.properties methods).get? name = some v) : Generated name v := by
  rcases pathItem_field held with named | ⟨m, -, rfl, rfl⟩
  · simp only [nameFields, List.mem_cons, Prod.mk.injEq, List.not_mem_nil, or_false] at named
    rcases named with ⟨rfl, rfl⟩ | ⟨rfl, rfl⟩ <;> exact .resourceName _ (by decide)
  · exact .operation m (plain_ofMethod m r.config r.properties)

/-- The listing with its query parameters is an operation too. -/
theorem listing_eq :
    Json.obj (withParameters r.bareListing r.queries) =
      ({ Operation.ofMethod .getList r.config r.properties with
        parameters := Parameter.ofProperties r.properties } : Operation).toJson := by
  rfl

theorem generated_collection {name : String} {v : Json}
    (held : r.collection.get? name = some v) : Generated name v := by
  unfold collection at held
  split at held
  · rw [Fields.get?_put] at held
    split at held
    · next same =>
      rw [← Option.some.inj held, ← same, listing_eq]
      exact .operation .getList (Parameter.plain_ofProperties r.properties)
    · exact r.generated_pathItem held
  · exact r.generated_pathItem held

theorem generated_paths {routePrefix : String} {f : String × Json}
    (mem : f ∈ r.paths routePrefix) :
    ∃ item : Fields Json, f.2 = .obj item ∧
      ∀ name v, item.get? name = some v → Generated name v := by
  simp only [paths, List.mem_cons, List.not_mem_nil, or_false] at mem
  rcases mem with rfl | rfl
  · exact ⟨_, rfl, fun _ _ => r.generated_collection⟩
  · exact ⟨_, rfl, fun _ _ => r.generated_pathItem⟩

end Resource

/-- A parameter of an operation in a path item. -/
def ParameterOf (item parameter : Json) : Prop :=
  ∃ (m : Method) (operation : Json) (parameters : List Json),
    item.field? m.verb = some operation ∧
      operation.field? "parameters" = some (.arr parameters) ∧ parameter ∈ parameters

theorem Generated.ne_null {name : String} {v : Json} (h : Generated name v) : v ≠ .null := by
  cases h <;> exact Json.noConfusion

theorem Generated.exists_operation {m : Method} {v : Json} (h : Generated m.verb v) :
    ∃ o : Operation, (∀ p ∈ o.parameters, p.Plain) ∧ v = o.toJson := by
  generalize named : m.verb = name at h
  cases h with
  | resourceName _ mem =>
    rw [← named] at mem
    exact absurd mem (by cases m <;> decide)
  | operation _ plain => exact ⟨_, plain, rfl⟩

/-- Names other than those of the resource and of verbs do not occur. -/
theorem get?_eq_none_of_generated {item : Fields Json}
    (generated : ∀ name v, item.get? name = some v → Generated name v) {name : String}
    (other : name ∉ ["x-documentName", "x-interfaceName"] ++ Method.all.map Method.verb) :
    item.get? name = none := by
  cases found : item.get? name with
  | none => rfl
  | some v =>
    refine absurd (List.mem_append.2 ?_) other
    cases generated name v found with
    | resourceName _ mem => exact Or.inl mem
    | operation m => exact Or.inr (by cases m <;> decide)

/-- Besides its operations, nothing in a generated path item is looked at. -/
theorem fitsPath_iff_operations {item : Fields Json}
    (generated : ∀ name v, item.get? name = some v → Generated name v) :
    FitsPath (.obj item) ↔
      ∀ (m : Method) v, item.get? m.verb = some v → Fits v (.record .operation) := by
  constructor
  · intro fits m v held
    have rule : FieldRule.optional m.verb (.record .operation) ∈ Record.pathItem.fields := by
      cases m <;> simp [Record.fields, Method.verb, Method.name]
    exact (holds_optional.1 (fits_record.1 fits _ rule) v held).resolve_left
      (generated _ v held).ne_null
  · intro each
    have absent : ∀ name ∈ ["$ref", "ref", "summary", "description", "servers", "parameters"],
        item.get? name = none := by
      intro name mem
      refine get?_eq_none_of_generated generated ?_
      revert name
      decide
    refine fits_record.2 fun rule mem => ?_
    simp only [Record.fields, List.mem_append, List.mem_map] at mem
    rcases mem with (first | ⟨name, listed, rfl⟩) | last
    · simp only [List.mem_cons, List.not_mem_nil, or_false] at first
      rcases first with rfl | rfl | rfl <;> simp [absent]
    · have isVerb : name ∈ Method.all.map Method.verb := by
        revert name
        decide
      obtain ⟨m, -, rfl⟩ := List.mem_map.1 isVerb
      exact holds_optional.2 fun v held => Or.inr (each m v held)
    · simp only [List.mem_cons, List.not_mem_nil, or_false] at last
      rcases last with rfl | rfl <;> simp [absent]

/-- **A generated path item fits** if the parameters of its operations do. -/
theorem fitsPath_iff_parameters {item : Fields Json}
    (generated : ∀ name v, item.get? name = some v → Generated name v) :
    FitsPath (.obj item) ↔ ∀ p, ParameterOf (.obj item) p → ParameterFits p := by
  rw [fitsPath_iff_operations generated]
  constructor
  · intro fits p ⟨m, operation, parameters, held, listed, mem⟩
    obtain ⟨o, plain, rfl⟩ := (generated m.verb operation held).exists_operation
    obtain rfl := Json.arr.inj (Option.some.inj listed)
    obtain ⟨q, mem', rfl⟩ := List.mem_map.1 mem
    exact (plain q mem').fits_iff.1 ((fits_operation o).1 (fits m _ held) q mem')
  · intro each m v held
    obtain ⟨o, plain, rfl⟩ := (generated m.verb v held).exists_operation
    refine (fits_operation o).2 fun p mem => (plain p mem).fits_iff.2 ?_
    exact each _ ⟨m, _, _, held, rfl, List.mem_map_of_mem mem⟩

/-! ## Component schemas -/

theorem unaddressed_objectShape (properties : Fields Json) (required : List Json) :
    Unaddressed (objectShape properties required) := by
  unfold objectShape
  split <;> constructor <;> rfl

/-- What the methods of a resource register are objects of their own, and no references. -/
theorem Shapes.unaddressed_registered {properties : Fields Json} {required : List String}
    {allowIdentifier : Bool} {interfaceName : String} {m : Method} {s : String × Json}
    (mem : s ∈ (Shapes.of properties required allowIdentifier).registered interfaceName m) :
    ∃ fields, s.2 = .obj fields ∧ Unaddressed fields := by
  have response : Unaddressed (Shapes.of properties required allowIdentifier).response := ⟨rfl, rfl⟩
  have write : Unaddressed (Shapes.of properties required allowIdentifier).write := by
    unfold Shapes.of
    dsimp only
    split <;> exact unaddressed_objectShape ..
  have change : Unaddressed (Shapes.of properties required allowIdentifier).change := ⟨rfl, rfl⟩
  simp only [registered] at mem
  cases m with
  | get =>
    obtain rfl := List.mem_singleton.1 mem
    exact ⟨_, rfl, response⟩
  | getList =>
    rcases List.mem_cons.1 mem with rfl | listing
    · exact ⟨_, rfl, response⟩
    · obtain rfl := List.mem_singleton.1 listing
      exact ⟨_, rfl, rfl, rfl⟩
  | post | put =>
    rcases List.mem_cons.1 mem with rfl | answer
    · exact ⟨_, rfl, write⟩
    · obtain rfl := List.mem_singleton.1 answer
      exact ⟨_, rfl, response⟩
  | patch =>
    rcases List.mem_cons.1 mem with rfl | answer
    · exact ⟨_, rfl, change⟩
    · obtain rfl := List.mem_singleton.1 answer
      exact ⟨_, rfl, response⟩
  | delete | options | head | trace => cases mem

theorem Resource.fitsSchema_iff (r : Resource) {allowIdentifier : Bool} {s : String × Json}
    (mem : s ∈ r.schemas allowIdentifier) : FitsSchema s.2 ↔ IsSchema s.2 := by
  have registered := (Fields.mem_merge mem).resolve_left List.not_mem_nil
  obtain ⟨m, -, mem'⟩ := List.mem_flatMap.1 registered
  obtain ⟨fields, isObject, unaddressed⟩ := Shapes.unaddressed_registered mem'
  rw [isObject]
  exact unaddressed.fits_schemaShape

end ResourceApi
