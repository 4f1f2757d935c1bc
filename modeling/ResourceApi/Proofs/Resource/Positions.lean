import ResourceApi.Proofs.Resource.NormalForm

/-! # Positions in a schema

A position is the way from the root of a schema to one of its nodes, through properties
and items. Normalizing keeps every position. Where it follows the way it flattens the
node at the end of it; a node anywhere else keeps its own declaration and its
properties as they were. -/

namespace ResourceApi.Required

/-- A step from a node to one right below it. -/
inductive Step where
  | property (name : String)
  | items
  deriving DecidableEq

def below? (node : Json) : Step → Option Json
  | .property name => property? node name
  | .items => node.field? "items"

/-- The node at a position. -/
def at? : Json → List Step → Option Json
  | node, [] => some node
  | node, step :: rest => (below? node step).bind fun n => at? n rest

theorem at?_property {node p : Json} {name : String} {rest : List Step}
    (found : property? node name = some p) : at? node (.property name :: rest) = at? p rest := by
  rw [at?, below?, found, Option.bind_some]

theorem at?_items {node items : Json} {rest : List Step} (found : node.field? "items" = some items) :
    at? node (.items :: rest) = at? items rest := by
  rw [at?, below?, found, Option.bind_some]

theorem distinct_below? {node n : Json} {step : Step} (distinct : node.Distinct)
    (found : below? node step = some n) : n.Distinct := by
  cases step with
  | property name => exact distinct_property? distinct found
  | items => exact distinct.field? found

theorem distinct_at? {node n : Json} {way : List Step} (distinct : node.Distinct)
    (there : at? node way = some n) : n.Distinct := by
  induction way generalizing node with
  | nil =>
    cases there
    exact distinct
  | cons step rest ih =>
    obtain ⟨m, found, there⟩ := Option.bind_eq_some_iff.1 there
    exact ih (distinct_below? distinct found) there

/-! ## Ways that are followed -/

/-- The ways to objects that flattening follows from a node: through the properties of objects, and
to the items of arrays of objects. -/
inductive Follows : Json → List Step → Prop
  | here {node : Json} : isObject node = true → Follows node []
  | property {node p : Json} {name : String} {rest : List Step} :
    isObject node = true → property? node name = some p → Follows p rest →
    Follows node (.property name :: rest)
  | items {node items : Json} {rest : List Step} :
    isArrayOfObjects node = true → node.field? "items" = some items → Follows items rest →
    Follows node (.items :: rest)

variable {node p items : Json} {name : String} {way rest : List Step}

theorem follows_property (object : isObject node = true) (isProperty : property? node name = some p) :
    Follows node (.property name :: rest) ↔ Follows p rest := by
  constructor
  · intro follows
    cases follows with
    | property _ found onward =>
      obtain rfl := Option.some.inj (isProperty.symm.trans found)
      exact onward
  · exact .property object isProperty

theorem follows_items (array : isArrayOfObjects node = true)
    (isItems : node.field? "items" = some items) :
    Follows node (.items :: rest) ↔ Follows items rest := by
  constructor
  · intro follows
    cases follows with
    | items _ found onward =>
      obtain rfl := Option.some.inj (isItems.symm.trans found)
      exact onward
  · exact .items array isItems

/-- Below what is no object only items are followed. -/
theorem not_follows_of_not_isObject (kind : isObject node = false)
    (other : way.head? ≠ some .items) : ¬ Follows node way := by
  intro follows
  cases follows with
  | here object => rw [object] at kind; cases kind
  | property object => rw [object] at kind; cases kind
  | items => exact other rfl

/-- Only the items of an array of objects are followed. -/
theorem not_follows_of_not_isArrayOfObjects (kind : isArrayOfObjects node = false) :
    ¬ Follows node (.items :: rest) := by
  intro follows
  cases follows with
  | items array => rw [array] at kind; cases kind

/-- Flattening follows ways to the nodes that it reaches. -/
theorem Follows.reached (follows : Follows node way) :
    (isObject node = true → ∃ n, at? node way = some n ∧ Reached node n) ∧
      (isArrayOfObjects node = true → ∃ items n, node.field? "items" = some items ∧
        at? node way = some n ∧ Reached items n) := by
  induction follows with
  | here object =>
    refine ⟨fun _ => ⟨_, rfl, .refl⟩, fun array => ?_⟩
    rw [not_isArrayOfObjects object] at array
    cases array
  | @property node p name rest object found onward ih =>
    refine ⟨fun _ => ?_, fun array => ?_⟩
    · rw [at?_property found]
      cases onward with
      | here object' =>
        exact ⟨p, rfl, .single (.property found object')⟩
      | property object' =>
        obtain ⟨n, there, reached⟩ := ih.1 object'
        exact ⟨n, there, .head (.property found object') reached⟩
      | items array =>
        obtain ⟨items, n, isItems, there, reached⟩ := ih.2 array
        exact ⟨n, there, .head (.items found array isItems) reached⟩
    · rw [not_isArrayOfObjects object] at array
      cases array
  | @items node items rest array found onward ih =>
    refine ⟨fun object => ?_, fun _ => ?_⟩
    · rw [not_isArrayOfObjects object] at array
      cases array
    · obtain ⟨_, items', found', object⟩ := isArrayOfObjects_eq_true.1 array
      obtain rfl := Option.some.inj (found.symm.trans found')
      obtain ⟨n, there, reached⟩ := ih.1 object
      exact ⟨items, n, found, (at?_items found).trans there, reached⟩

/-! ## What becomes of the node at a position -/

/-- What has become of the node at a position: flattening has followed the way to it and flattened
it, or its own declaration and its properties are what they were. -/
inductive Became (root : Json) (way : List Step) : Json → Json → Prop
  | flattened {n : Json} {location : String} {f : Flattened} :
    Follows root way → isObject n = true → flatten location n = .ok f →
    Became root way n f.attached
  | kept {n n' : Json} :
    ¬ Follows root way → n'.field? "required" = n.field? "required" →
    n'.field? "properties" = n.field? "properties" → Became root way n n'

theorem Became.of_iff {root root' n n' : Json} {way way' : List Step}
    (became : Became root way n n') (same : Follows root' way' ↔ Follows root way) :
    Became root' way' n n' := by
  cases became with
  | flattened follows object h => exact .flattened (same.2 follows) object h
  | kept other required properties =>
    exact .kept (fun follows => other (same.1 follows)) required properties

section Below

variable {location : String} {f : Flattened}

/-- A property of an object is flattened with it, and stays its property. -/
theorem property?_of_flatten (h : flatten location node = .ok f) (object : isObject node = true)
    (isProperty : property? node name = some p) :
    p.isObj = true ∧ ∃ g, flatten (placeOf location name) p = .ok g ∧
      property? f.attached name = some g.attached := by
  obtain ⟨_, _, _, _, rfl, found, each, rfl⟩ := object_of_flatten h object
  rw [property?_of_get? found] at isProperty
  obtain ⟨isObj, g, hg, found', _⟩ := flattenEach_get? each isProperty
  exact ⟨isObj, g, hg, (property?_attached name).trans found'⟩

/-- The items of an array of objects are flattened with it, and stay its items. -/
theorem items_of_flatten (h : flatten location node = .ok f)
    (array : isArrayOfObjects node = true) (isItems : node.field? "items" = some items) :
    ∃ place g, flatten place items = .ok g ∧ f.attached.field? "items" = some g.attached := by
  obtain ⟨_, _, g, rfl, found, hg, rfl⟩ := array_of_flatten h array
  obtain rfl := Option.some.inj (found.symm.trans isItems)
  exact ⟨_, g, hg, Fields.get?_put_self ..⟩

/-- What is no object keeps its properties. -/
theorem properties_of_not_isObject (h : flatten location node = .ok f)
    (kind : isObject node = false) :
    f.attached.field? "properties" = node.field? "properties" :=
  field?_of_not_isObject h kind (by decide)

/-- What is no array of objects keeps its items. -/
theorem items_of_not_isArrayOfObjects (h : flatten location node = .ok f)
    (kind : isArrayOfObjects node = false) :
    f.attached.field? "items" = node.field? "items" := by
  cases flatten_eq_ok.1 h with
  | items array => rw [array] at kind; cases kind
  | object =>
    exact (Fields.get?_put_of_ne (by decide) ..).trans (Fields.get?_put_of_ne (by decide) ..)
  | other => rfl

end Below

/-- **Flattening keeps positions**, and what becomes of the node at one hangs on whether flattening
follows the way there. -/
theorem at?_attached {location : String} {node n : Json} {f : Flattened} {way : List Step}
    (h : flatten location node = .ok f) (there : at? node way = some n) :
    ∃ n', at? f.attached way = some n' ∧ Became node way n n' := by
  induction way generalizing node location f with
  | nil =>
    obtain rfl : node = n := Option.some.inj there
    refine ⟨f.attached, rfl, ?_⟩
    cases kind : isObject node with
    | true => exact .flattened (.here kind) kind h
    | false =>
      exact .kept (not_follows_of_not_isObject kind nofun) (required_of_not_isObject h kind)
        (properties_of_not_isObject h kind)
  | cons step rest ih =>
    obtain ⟨m, found, onward⟩ := Option.bind_eq_some_iff.1 there
    cases step with
    | property name =>
      cases kind : isObject node with
      | true =>
        obtain ⟨_, g, hg, found'⟩ := property?_of_flatten h kind found
        obtain ⟨n', onward', became⟩ := ih hg onward
        exact ⟨n', (at?_property found').trans onward', became.of_iff (follows_property kind found)⟩
      | false =>
        refine ⟨n, ?_, .kept (not_follows_of_not_isObject kind nofun) rfl rfl⟩
        rw [at?, below?, property?, properties_of_not_isObject h kind]
        exact there
    | items =>
      cases kind : isArrayOfObjects node with
      | true =>
        obtain ⟨_, g, hg, found'⟩ := items_of_flatten h kind found
        obtain ⟨n', onward', became⟩ := ih hg onward
        exact ⟨n', (at?_items found').trans onward', became.of_iff (follows_items kind found)⟩
      | false =>
        refine ⟨n, ?_, .kept (not_follows_of_not_isArrayOfObjects kind) rfl rfl⟩
        rw [at?, below?, items_of_not_isArrayOfObjects h kind]
        exact there

/-! ## Flags in the normal form -/

/-- The node's own list has the name of one of its properties. -/
def Requires (node : Json) (name : String) : Prop :=
  ∃ listed, node.field? "required" = some (.arr listed) ∧ .str name ∈ listed

theorem requires_iff {list : List String} (written : node.field? "required" = some (listJson list)) :
    Requires node name ↔ name ∈ list := by
  constructor
  · rintro ⟨listed, isList, mem⟩
    cases written.symm.trans isList
    obtain ⟨n, named, same⟩ := List.mem_map.1 mem
    cases same
    exact named
  · exact fun named => ⟨_, written, List.mem_map_of_mem named⟩

theorem prepared_get? (schema : Fields Json) (key : String) (type : key ≠ "type")
    (config : key ≠ configKey) : (prepared schema).get? key = schema.get? key := by
  rw [prepared, withRootType_get? _ type, DocumentConfig.complete_get? schema config]

/-- Completing a schema does not touch what is below its root. -/
theorem property?_prepared (schema : Fields Json) (name : String) :
    property? (.obj (prepared schema)) name = property? (.obj schema) name := by
  rw [property?, property?, Json.field?_obj, Json.field?_obj,
    prepared_get? schema _ (by decide) (by decide)]

/-- Completing a schema does not touch the nodes below its root. -/
theorem at?_prepared_cons (schema : Fields Json) (step : Step) (way : List Step) :
    at? (.obj (prepared schema)) (step :: way) = at? (.obj schema) (step :: way) := by
  cases step with
  | property name => rw [at?, at?, below?, below?, property?_prepared]
  | items =>
    rw [at?, at?, below?, below?, Json.field?_obj, Json.field?_obj,
      prepared_get? schema _ (by decide) (by decide)]

/-- What is flattened has the positions of the schema, and what the nodes there declare. -/
theorem at?_prepared {schema : Fields Json} {n : Json} (there : at? (.obj schema) way = some n) :
    ∃ n', at? (.obj (prepared schema)) way = some n' ∧
      n'.field? "required" = n.field? "required" ∧
      n'.field? "properties" = n.field? "properties" := by
  cases way with
  | nil =>
    cases there
    exact ⟨_, rfl, prepared_get? schema _ (by decide) (by decide),
      prepared_get? schema _ (by decide) (by decide)⟩
  | cons step way => exact ⟨n, (at?_prepared_cons schema step way).trans there, rfl, rfl⟩

/-- Every node that is followed in a normal form has its list. -/
theorem lists_of_follows {schema normal : Fields Json} (distinct : (Json.obj schema).Distinct)
    (h : normalForm schema = .ok normal) {way : List Step} (follows : Follows (.obj normal) way) :
    ∃ n list, at? (.obj normal) way = some n ∧ Lists n list := by
  obtain ⟨n, there, reached⟩ := follows.reached.1 (isObject_of_normalForm h)
  obtain ⟨list, lists⟩ := (settled_of_normalForm h distinct reached).lists
  exact ⟨n, list, there, lists⟩

/-- **A flag is listed where flattening follows the way to its node**, and where the node lists the
property itself; and the property keeps it. -/
theorem flag_of_normalForm {schema normal : Fields Json} (distinct : (Json.obj schema).Distinct)
    (h : normalForm schema = .ok normal) {n : Json} (there : at? (.obj schema) way = some n)
    (isProperty : property? n name = some p) (other : isObject p = false)
    (flag : p.field? "required" = some (.bool true)) :
    ∃ n', at? (.obj normal) way = some n' ∧
      (∃ q, property? n' name = some q ∧ q.field? "required" = some (.bool true)) ∧
      (Follows (.obj (prepared schema)) way ∨ Requires n name → Requires n' name) := by
  obtain ⟨-, -, f, hf, attached⟩ := normalForm_eq_ok.1 h
  obtain ⟨n₀, there₀, required, properties⟩ := at?_prepared there
  have isProperty₀ : property? n₀ name = some p := by
    rw [property?, properties]
    exact isProperty
  obtain ⟨n', there', became⟩ := at?_attached hf there₀
  refine ⟨n', attached ▸ there', ?_⟩
  cases became with
  | flattened follows object hg =>
    obtain ⟨_, q, hq, isProperty'⟩ := property?_of_flatten hg object isProperty₀
    have flag' := (required_of_not_isObject hq other).trans flag
    refine ⟨⟨_, isProperty', flag'⟩, fun _ => ?_⟩
    have distinct₀ := distinct_at? (prepared_throughout onNames_namesDistinct distinct) there₀
    obtain ⟨list, lists⟩ := (settled_attached distinct₀ hg object).lists
    exact (requires_iff lists.written).2
      (lists.flagged name _ isProperty' ((isObject_attached hq).trans other) flag')
  | kept apart required' properties' =>
    refine ⟨⟨p, ?_, flag⟩, fun listed => ?_⟩
    · rw [property?, properties']
      exact isProperty₀
    · rcases listed with follows | ⟨listed, isList, mem⟩
      · exact absurd follows apart
      · exact ⟨listed, required'.trans (required.trans isList), mem⟩

end ResourceApi.Required
