import ResourceApi.Api.Components
import ResourceApi.Proofs.Resource.Positions

/-! # Positions in cleaned nodes

Cleaning takes fields away from every node of a schema and keeps the nodes: as long as
the removal leaves properties and items alone, the node at a position of the cleaned
schema is the cleaned node of that position. -/

namespace ResourceApi.Removal

open Required (property? at? below?)

variable {r : Removal} {fields : Fields Json} {key name : String} {node : Json}

/-! ## Fields of a cleaned node -/

/-- A field of a cleaned node is the cleaned field, if it is not taken away. -/
theorem get?_cleanFields (nodup : fields.names.Nodup) :
    (r.cleanFields fields).get? key =
      (fields.get? key).bind fun v => if r.drops key v then none else some (r.cleanValue key v) := by
  induction fields with
  | nil => rfl
  | cons field rest ih =>
    obtain ⟨k, v⟩ := field
    obtain ⟨fresh, nodup⟩ := List.nodup_cons.1 nodup
    rw [cleanFields, Fields.get?_cons]
    by_cases same : k = key
    · subst same
      have absent : Fields.get? rest k = none := Fields.get?_eq_none_iff.2 fresh
      rw [if_pos rfl, Option.bind_some]
      split
      · rw [ih nodup, absent]
        rfl
      · rw [Fields.get?_cons, if_pos rfl]
    · rw [if_neg same]
      split
      · exact ih nodup
      · rw [Fields.get?_cons, if_neg same]
        exact ih nodup

theorem of_get?_cleanFields {w : Json} (found : (r.cleanFields fields).get? key = some w) :
    ∃ v, r.drops key v = false ∧ w = r.cleanValue key v := by
  induction fields with
  | nil => cases found
  | cons field rest ih =>
    obtain ⟨k, v⟩ := field
    rw [cleanFields] at found
    split at found
    · exact ih found
    · next kept =>
      rw [Fields.get?_cons] at found
      split at found
      · next same =>
        cases same
        cases found
        exact ⟨v, eq_false_of_ne_true kept, rfl⟩
      · exact ih found

/-- A key that is removed is not found. -/
theorem field?_cleanProperty_of_key (removed : key ∈ r.keys) (node : Json) :
    (r.cleanProperty node).field? key = none := by
  cases node with
  | obj fields =>
    cases found : (r.cleanFields fields).get? key with
    | none => exact found
    | some w =>
      obtain ⟨v, kept, -⟩ := of_get?_cleanFields found
      simp [drops, removed] at kept
  | null | bool | int | float | str | arr => rfl

theorem field?_cleanProperty (distinct : node.Distinct) :
    (r.cleanProperty node).field? key =
      (node.field? key).bind fun v => if r.drops key v then none else some (r.cleanValue key v) := by
  cases node with
  | obj fields =>
    rw [cleanProperty, Json.field?_obj, Json.field?_obj]
    exact get?_cleanFields distinct.nodup
  | null | bool | int | float | str | arr => rfl

/-- Every property is cleaned, whatever its name. -/
theorem get?_cleanEach (properties : Fields Json) (name : String) :
    (r.cleanEach properties).get? name = (properties.get? name).map r.cleanProperty := by
  induction properties with
  | nil => rfl
  | cons p rest ih =>
    rw [cleanEach, Fields.get?_cons, Fields.get?_cons]
    split
    · rfl
    · exact ih

/-! ## Nodes below a cleaned node -/

/-- The removal leaves the nodes of a schema where they are. -/
structure KeepsNodes (r : Removal) : Prop where
  properties : ∀ v, r.drops "properties" v = false
  items : ∀ v, r.drops "items" v = false

theorem property?_cleanProperty (keeps : r.KeepsNodes) (distinct : node.Distinct) :
    property? (r.cleanProperty node) name = (property? node name).map r.cleanProperty := by
  rw [property?, property?, field?_cleanProperty distinct]
  cases node.field? "properties" with
  | none => rfl
  | some v =>
    rw [Option.bind_some, Option.bind_some, keeps.properties]
    cases v with
    | obj properties =>
      exact get?_cleanEach properties name
    | null | bool | int | float | str | arr => rfl

theorem items_cleanProperty (keeps : r.KeepsNodes) (distinct : node.Distinct) :
    (r.cleanProperty node).field? "items" = (node.field? "items").map r.cleanProperty := by
  rw [field?_cleanProperty distinct]
  cases node.field? "items" with
  | none => rfl
  | some v =>
    rw [Option.bind_some, keeps.items]
    cases v with
    | obj fields => rfl
    | null | bool | int | float | str | arr => rfl

/-- **The node at a position of a cleaned schema** is the cleaned node of that position. -/
theorem at?_cleanProperty (keeps : r.KeepsNodes) (distinct : node.Distinct) (way : List Required.Step) :
    at? (r.cleanProperty node) way = (at? node way).map r.cleanProperty := by
  induction way generalizing node with
  | nil => rfl
  | cons step rest ih =>
    have here : below? (r.cleanProperty node) step = (below? node step).map r.cleanProperty := by
      cases step with
      | property name => exact property?_cleanProperty keeps distinct
      | items => exact items_cleanProperty keeps distinct
    rw [at?, at?, here]
    cases found : below? node step with
    | none => rfl
    | some n => exact ih (Required.distinct_below? distinct found)

/-! ## Everything in a cleaned node is cleaned -/

theorem cleaned_of_below? {n : Json} {step : Required.Step}
    (found : below? (r.cleanProperty node) step = some n) : ∃ m, n = r.cleanProperty m := by
  cases step with
  | property name =>
    obtain ⟨cleaned, properties, isCleaned, isProperties, here⟩ :=
      Required.property?_eq_some.1 (show property? _ name = some n from found)
    cases node with
    | obj fields =>
      cases isCleaned
      obtain ⟨v, -, same⟩ := of_get?_cleanFields isProperties
      cases v with
      | obj given =>
        cases same
        rw [get?_cleanEach] at here
        obtain ⟨m, -, rfl⟩ := Option.map_eq_some_iff.1 here
        exact ⟨m, rfl⟩
      | null | bool | int | float | str | arr => cases same
    | null | bool | int | float | str | arr => cases isCleaned
  | items =>
    cases node with
    | obj fields =>
      obtain ⟨v, -, rfl⟩ := of_get?_cleanFields (show Fields.get? _ "items" = some n from found)
      refine ⟨v, ?_⟩
      cases v <;> rfl
    | null | bool | int | float | str | arr => cases found

theorem cleaned_of_at? {n : Json} {way : List Required.Step}
    (there : at? (r.cleanProperty node) way = some n) : ∃ m, n = r.cleanProperty m := by
  induction way generalizing node with
  | nil => exact ⟨node, (Option.some.inj there).symm⟩
  | cons step rest ih =>
    obtain ⟨k, found, onward⟩ := Option.bind_eq_some_iff.1 there
    obtain ⟨m, rfl⟩ := cleaned_of_below? found
    exact ih onward

end ResourceApi.Removal
