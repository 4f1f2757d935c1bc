import ResourceApi.Proofs.Resource.Positions

/-! # What normalizing leaves alone

Schema files are overwritten with their normal forms, so everything that normalizing
does not mean to write must stay. It writes the declaration of required names of every
object that it reaches, the type of a root that has none, and methods where the
configuration leaves them open. Without these keys a schema and its normal form are the
same, in every value and in the order of all fields (`normalForm_unwritten`). -/

namespace ResourceApi

namespace Fields

variable {α β : Type}

/-- Putting a field is not seen in what is made of the fields, if nothing is made of a new one and
of one that was there the same as before. -/
theorem filterMap_put {g : String × α → Option β} {fs : Fields α} {name : String} {v : α}
    (same : ∀ old, fs.get? name = some old → g (name, v) = g (name, old))
    (fresh : fs.get? name = none → g (name, v) = none) :
    (fs.put name v).filterMap g = fs.filterMap g := by
  induction fs with
  | nil =>
    rw [put, List.filterMap_cons_none (fresh rfl)]
  | cons f rest ih =>
    obtain ⟨n, w⟩ := f
    rw [get?_cons] at same fresh
    by_cases here : n = name
    · subst here
      rw [put, if_pos rfl, List.filterMap_cons, List.filterMap_cons, same w (if_pos rfl)]
    · rw [if_neg here] at same fresh
      rw [put, if_neg here, List.filterMap_cons, List.filterMap_cons, ih same fresh]

theorem filterMap_put_of_get? {g : String × α → Option β} {fs : Fields α} {name : String}
    {v old : α} (found : fs.get? name = some old) (same : g (name, v) = g (name, old)) :
    (fs.put name v).filterMap g = fs.filterMap g := by
  refine filterMap_put (fun w here => ?_) fun absent => ?_
  · rw [same, Option.some.inj (found.symm.trans here)]
  · rw [found] at absent
    cases absent

theorem erase_put (fs : Fields α) (name : String) (v : α) :
    (fs.put name v).erase name = fs.erase name := by
  induction fs with
  | nil => simp [put, erase]
  | cons f rest ih =>
    obtain ⟨n, w⟩ := f
    by_cases here : n = name
    · simp [put, erase, here]
    · simp [put, erase, here, ih]

/-- A new field goes behind all others, and one that is there keeps its place. -/
theorem names_prefix_put (fs : Fields α) (name : String) (v : α) :
    fs.names <+: (fs.put name v).names := by
  rw [names_put]
  split
  · exact List.prefix_rfl
  · exact List.prefix_append ..

end Fields

namespace Required

/-! ## Trees without their lists -/

mutual
/-- A node without the declarations of required names of the objects that flattening reaches in
it: the node itself if it is an object, and those below it. -/
def unlisted : Json → Json
  | .obj fields =>
    if isArrayOfObjects (.obj fields) then .obj (unlistedItems fields)
    else if isObject (.obj fields) then .obj (unlistedFields fields)
    else .obj fields
  | v => v

/-- The fields of an array of objects. -/
def unlistedItems : List (String × Json) → Fields Json
  | [] => []
  | (name, v) :: rest => (name, if name = "items" then unlisted v else v) :: unlistedItems rest

/-- The fields of an object, its own declaration left out. -/
def unlistedFields : List (String × Json) → Fields Json
  | [] => []
  | (name, v) :: rest =>
    if name = "required" then unlistedFields rest
    else (name, if name = "properties" then unlistedProperties v else v) :: unlistedFields rest

def unlistedProperties : Json → Json
  | .obj properties => .obj (unlistedEach properties)
  | v => v

def unlistedEach : List (String × Json) → Fields Json
  | [] => []
  | (name, v) :: rest => (name, unlisted v) :: unlistedEach rest
end

/-- What is left of a field of an object. -/
def unlistedField (f : String × Json) : Option (String × Json) :=
  if f.1 = "required" then none
  else some (f.1, if f.1 = "properties" then unlistedProperties f.2 else f.2)

theorem unlistedField_properties {properties properties' : Fields Json}
    (same : unlistedEach properties' = unlistedEach properties) :
    unlistedField ("properties", .obj properties') =
      unlistedField ("properties", .obj properties) := by
  simp [unlistedField, unlistedProperties, same]

theorem unlistedFields_eq (fields : Fields Json) :
    unlistedFields fields = fields.filterMap unlistedField := by
  induction fields with
  | nil => rfl
  | cons f rest ih =>
    obtain ⟨name, v⟩ := f
    rw [unlistedFields, ih, List.filterMap_cons, unlistedField]
    by_cases required : name = "required"
    · simp only [if_pos required]
    · simp only [if_neg required]

theorem unlistedItems_eq (fields : Fields Json) :
    unlistedItems fields =
      fields.filterMap fun f => some (f.1, if f.1 = "items" then unlisted f.2 else f.2) := by
  induction fields with
  | nil => rfl
  | cons f rest ih => rw [unlistedItems, ih, List.filterMap_cons]

section Flatten

variable {location : String} {properties properties' : Fields Json} {demanding : List String}

theorem unlistedEach_of_flattenEach
    (h : flattenEach location properties = .ok (demanding, properties'))
    (below : ∀ f ∈ properties, ∀ p, flatten (placeOf location f.1) f.2 = .ok p →
      unlisted p.attached = unlisted f.2) :
    unlistedEach properties' = unlistedEach properties := by
  induction properties generalizing demanding properties' with
  | nil => cases h; rfl
  | cons f rest ih =>
    obtain ⟨-, p, hp, s, hs, heq⟩ := flattenEach_cons.1 h
    cases heq
    rw [unlistedEach, unlistedEach, below f List.mem_cons_self p hp,
      ih hs fun g mem => below g (List.mem_cons_of_mem _ mem)]

/-- Flattening changes nothing but the declarations of the objects that it reaches. The induction
is on the tree; fields are put into an array or an object where they were, except for a new
declaration, which is left out. -/
theorem unlisted_attached {location : String} {node : Json} {f : Flattened}
    (h : flatten location node = .ok f) : unlisted f.attached = unlisted node := by
  induction h using flatten_induction with
  | @items _ fields items g kind found below onItems =>
    have kind' : isArrayOfObjects (.obj (fields.put "items" g.attached)) = true :=
      (isArrayOfObjects_attached (flatten_eq_ok.2 (.items kind found below))).trans kind
    change unlisted (.obj (fields.put "items" g.attached)) = _
    rw [unlisted, if_pos kind', unlisted, if_pos kind, unlistedItems_eq, unlistedItems_eq]
    congr 1
    exact Fields.filterMap_put_of_get? found (by simp only [if_true, onItems])
  | object kind found each ih =>
    have onProperties := unlistedEach_of_flattenEach each fun q mem p hp => ih q mem hp
    have object := (isObject_attached (flatten_eq_ok.2 (.object kind found each))).trans kind
    have array := not_isArrayOfObjects object
    rw [Flattening.attached_object] at object array ⊢
    rw [unlisted, array, object, unlisted, not_isArrayOfObjects kind, kind]
    simp only [Bool.false_eq_true, if_false, if_true, unlistedFields_eq]
    congr 1
    rw [Fields.filterMap_put (fun _ _ => rfl) fun _ => rfl]
    exact Fields.filterMap_put_of_get? found (unlistedField_properties onProperties)
  | other => rfl

end Flatten

/-! ## Reached objects -/

/-- The names of the fields of a node. -/
def keys (node : Json) : List String := (node.fields?.getD []).names

/-- What flattening preserves of an object that it reaches. -/
structure Preserves (n n' : Json) : Prop where
  /-- A new field goes behind all others. -/
  keys : keys n <+: keys n'
  /-- The properties keep their order. -/
  order : ∀ properties, n.field? "properties" = some (.obj properties) →
    ∃ properties', n'.field? "properties" = some (.obj properties') ∧
      Fields.names properties' = Fields.names properties
  /-- A property that is not reached is what it was, and so is all that is below it. -/
  apart : ∀ name p, property? n name = some p → isObject p = false →
    isArrayOfObjects p = false → property? n' name = some p
  /-- An array of objects is what it was but for its items. -/
  array : ∀ name p, property? n name = some p → isArrayOfObjects p = true →
    ∃ (fields : Fields Json) (items items' : Json), p = .obj fields ∧
      fields.get? "items" = some items ∧
      property? n' name = some (.obj (fields.put "items" items'))

theorem preserves_of_flatten {location : String} {n : Json} {f : Flattened}
    (h : flatten location n = .ok f) (object : isObject n = true) : Preserves n f.attached where
  keys := by
    obtain ⟨_, _, _, _, rfl, -, -, rfl⟩ := object_of_flatten h object
    exact (Fields.names_prefix_put ..).trans (Fields.names_prefix_put ..)
  order := by
    intro properties here
    obtain ⟨_, _, _, _, rfl, found, each, rfl⟩ := object_of_flatten h object
    cases found.symm.trans here
    refine ⟨_, ?_, flattenEach_names each⟩
    exact (Fields.get?_put_of_ne (by decide) ..).trans (Fields.get?_put_self ..)
  apart := by
    intro name p here other array
    obtain ⟨-, g, hg, here'⟩ := property?_of_flatten h object here
    rw [flatten_of_other _ array other] at hg
    cases hg
    exact here'
  array := by
    intro name p here array
    obtain ⟨-, g, hg, here'⟩ := property?_of_flatten h object here
    obtain ⟨_, _, _, rfl, found, -, rfl⟩ := array_of_flatten hg array
    exact ⟨_, _, _, rfl, found, here'⟩

end Required

open Required

/-! ## The root -/

/-- Whether a schema leaves its methods open: its configuration has none, or null. -/
def opensMethods (schema : Fields Json) : Bool :=
  ((schema.get? configKey).bind Json.fields?).any DocumentConfig.lacksMethods

def withoutMethods : Json → Json
  | .obj block => .obj (Fields.erase block "methods")
  | v => v

/-- What is left of a field of the root without a type and methods that `schema` does not have. -/
def unwrittenField (schema : Fields Json) (f : String × Json) : Option (String × Json) :=
  if f.1 = "type" ∧ schema.has "type" = false then none
  else some (f.1, if f.1 = configKey ∧ opensMethods schema = true then withoutMethods f.2 else f.2)

/-- The fields of a root without what normalizing `schema` writes: the declarations of required
names of all objects that are reached, and the type and the methods that `schema` lacks. -/
def unwritten (schema fields : Fields Json) : Fields Json :=
  unlistedFields (fields.filterMap (unwrittenField schema))

theorem unwritten_eq (schema fields : Fields Json) :
    unwritten schema fields =
      fields.filterMap fun f => (unwrittenField schema f).bind unlistedField := by
  rw [unwritten, unlistedFields_eq, List.filterMap_filterMap]

section Root

variable {schema fields : Fields Json}

theorem unwritten_put_required (list : Json) :
    unwritten schema (fields.put "required" list) = unwritten schema fields := by
  rw [unwritten_eq, unwritten_eq]
  refine Fields.filterMap_put (fun _ _ => ?_) fun _ => ?_ <;>
    simp [unwrittenField, unlistedField, configKey]

theorem unwritten_put_properties {properties properties' : Fields Json}
    (found : fields.get? "properties" = some (.obj properties))
    (same : unlistedEach properties' = unlistedEach properties) :
    unwritten schema (fields.put "properties" (.obj properties')) = unwritten schema fields := by
  rw [unwritten_eq, unwritten_eq]
  refine Fields.filterMap_put_of_get? found ?_
  simp [unwrittenField, configKey, unlistedField_properties same]

theorem unwritten_withRootType (same : fields.has "type" = schema.has "type") :
    unwritten schema (withRootType fields) = unwritten schema fields := by
  rw [withRootType]
  split
  · next given =>
    rw [Bool.and_eq_true, Bool.not_eq_true'] at given
    rw [unwritten_eq, unwritten_eq]
    refine Fields.filterMap_put (fun _ _ => ?_) fun _ => ?_ <;>
      simp [unwrittenField, ← same, given.1]
  · rfl

theorem withoutMethods_completeBlock {b : Fields Json}
    (found : schema.get? configKey = some (.obj b)) :
    (if opensMethods schema then withoutMethods (.obj (DocumentConfig.completeBlock b))
      else .obj (DocumentConfig.completeBlock b)) =
    if opensMethods schema then withoutMethods (.obj b) else .obj b := by
  have opens : opensMethods schema = DocumentConfig.lacksMethods b := by
    rw [opensMethods, found]
    rfl
  rw [opens, DocumentConfig.completeBlock]
  cases DocumentConfig.lacksMethods b with
  | false => rfl
  | true => simp only [if_true, withoutMethods, Fields.erase_put]

theorem unwritten_complete {b : Fields Json} (h : DocumentConfig.block schema = .ok b) :
    unwritten schema (DocumentConfig.complete schema) = unwritten schema schema := by
  have found := (DocumentConfig.block_eq_ok.1 h).1
  rw [DocumentConfig.complete_of_block h, unwritten_eq, unwritten_eq]
  refine Fields.filterMap_put_of_get? found ?_
  have same := withoutMethods_completeBlock found
  simp [unwrittenField, same, configKey]

/-- What is flattened has all fields of the schema in their places. -/
theorem names_prefix_prepared (schema : Fields Json) : schema.names <+: (prepared schema).names := by
  have completed : schema.names <+: (DocumentConfig.complete schema).names := by
    rw [DocumentConfig.complete]
    split
    · exact List.prefix_rfl
    · split
      · exact Fields.names_prefix_put ..
      · exact List.prefix_rfl
  refine completed.trans ?_
  rw [prepared, withRootType]
  split
  · exact Fields.names_prefix_put ..
  · exact List.prefix_rfl

theorem Required.Preserves.of_prepared {n' : Json}
    (preserved : Preserves (.obj (prepared schema)) n') : Preserves (.obj schema) n' where
  keys := (names_prefix_prepared schema).trans preserved.keys
  order := by
    intro properties here
    refine preserved.order properties ?_
    rw [Json.field?_obj, prepared_get? schema _ (by decide) (by decide)]
    exact here
  apart := by
    intro name p here
    exact preserved.apart name p ((property?_prepared schema name).trans here)
  array := by
    intro name p here
    exact preserved.array name p ((property?_prepared schema name).trans here)

end Root

/-- **Normalizing changes nothing but what it means to write.** Without the declarations of the
objects that are reached, and without a type and methods that the schema lacks, the normal form
is the schema, in every value and in the order of all fields. What is new goes last, in the
configuration too; and at every reached object the properties keep their order, all that is not
reached below them is what it was, and arrays of objects are what they were but for their items. -/
theorem normalForm_unwritten {schema normal : Fields Json} (h : normalForm schema = .ok normal) :
    unwritten schema normal = unwritten schema schema ∧
      (∃ b b', schema.get? configKey = some (.obj b) ∧ normal.get? configKey = some (.obj b') ∧
        Fields.names b <+: Fields.names b') ∧
      ∀ way n, Follows (.obj (prepared schema)) way → at? (.obj schema) way = some n →
        ∃ n', at? (.obj normal) way = some n' ∧ Preserves n n' := by
  obtain ⟨-, object, f, hf, attached⟩ := normalForm_eq_ok.1 h
  obtain ⟨b, hb, hb'⟩ := block_of_normalForm h
  refine ⟨?same, ?config, ?reached⟩
  case same =>
    cases flatten_eq_ok.1 hf with
    | items array => rw [not_isArrayOfObjects object] at array; cases array
    | other _ other => rw [other] at object; cases object
    | @object _ properties properties' _ _ found each =>
      obtain rfl := Json.obj.inj attached
      have below : unlistedEach properties' = unlistedEach properties :=
        unlistedEach_of_flattenEach each fun _ _ _ hp => unlisted_attached hp
      have typed : (DocumentConfig.complete schema).has "type" = schema.has "type" := by
        rw [Fields.has, DocumentConfig.complete_get? schema (by decide), Fields.has]
      calc unwritten schema _
        _ = unwritten schema ((prepared schema).put "properties" (.obj properties')) :=
          unwritten_put_required _
        _ = unwritten schema (prepared schema) := unwritten_put_properties found below
        _ = unwritten schema (DocumentConfig.complete schema) := unwritten_withRootType typed
        _ = unwritten schema schema := unwritten_complete hb
  case config =>
    refine ⟨b, _, (DocumentConfig.block_eq_ok.1 hb).1, (DocumentConfig.block_eq_ok.1 hb').1, ?_⟩
    rw [DocumentConfig.completeBlock]
    split
    · exact Fields.names_prefix_put ..
    · exact List.prefix_rfl
  case reached =>
    intro way n follows there
    cases way with
    | nil =>
      cases there
      exact ⟨_, rfl, .of_prepared (attached ▸ preserves_of_flatten hf object)⟩
    | cons step way =>
      rw [← at?_prepared_cons] at there
      obtain ⟨n', there', became⟩ := at?_attached hf there
      rw [attached] at there'
      refine ⟨n', there', ?_⟩
      cases became with
      | flattened _ kind hg => exact preserves_of_flatten hg kind
      | kept apart => exact absurd follows apart

/-- An order gets a type and a list at its end, and methods in their place. -/
theorem normalForm_unwritten_order : normalForm orderSchema = .ok orderNormal ∧
    unwritten orderSchema orderNormal = unwritten orderSchema orderSchema ∧
    ∃ n', at? (.obj orderNormal) [.property "buyer"] = some n' ∧
      ∃ n, at? (.obj orderSchema) [.property "buyer"] = some n ∧ Preserves n n' := by
  obtain ⟨same, -, reached⟩ := normalForm_unwritten normalForm_orderSchema
  obtain ⟨n', there', preserved⟩ := reached [.property "buyer"] _
    (.property rfl (show property? _ "buyer" = _ from rfl) (.here rfl)) rfl
  exact ⟨normalForm_orderSchema, same, n', there', _, rfl, preserved⟩

end ResourceApi
