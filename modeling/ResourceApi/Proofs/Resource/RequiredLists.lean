import Mathlib.Logic.Relation
import ResourceApi.Proofs.Resource.Flattening

/-! # Nodes with settled lists

What the required lists of a normalized tree say about it. `Settled` is the condition
on one node; flattening makes it hold at every node it reaches (`settled_of_flatten`),
and a tree in which it holds at every reached node is left as it is by flattening
(`stable_of_settled`). So flattening what was flattened changes nothing. -/

namespace ResourceApi.Required

/-! ## Reached nodes -/

/-- The nodes below a node that flattening goes on to: the properties that are objects, and the
items of those that are arrays of objects. -/
inductive Child : Json → Json → Prop
  | property {node p : Json} {name : String} :
    property? node name = some p → isObject p = true → Child node p
  | items {node p items : Json} {name : String} :
    property? node name = some p → isArrayOfObjects p = true →
    p.field? "items" = some items → Child node items

/-- The nodes that flattening reaches from a node, the node itself among them. -/
def Reached : Json → Json → Prop := Relation.ReflTransGen Child

theorem Child.isObject {node child : Json} (h : Child node child) : isObject child = true := by
  cases h with
  | property _ object => exact object
  | items _ array found =>
    obtain ⟨_, items, found', object⟩ := isArrayOfObjects_eq_true.1 array
    rw [found] at found'
    exact Option.some.inj found' ▸ object

/-! ## Settled lists -/

/-- `list` is what a node requires, and agrees with what its properties demand. -/
structure Lists (node : Json) (list : List String) : Prop where
  written : node.field? "required" = some (listJson list)
  nodup : list.Nodup
  /-- A listed name is a property that is not switched off. -/
  listed : ∀ name ∈ list, ∃ p, property? node name = some p ∧ p.isObj = true ∧
    p.field? "required" ≠ some (.bool false)
  /-- A property with the flag is listed. -/
  flagged : ∀ name p, property? node name = some p → isObject p = false →
    p.field? "required" = some (.bool true) → name ∈ list
  /-- An object that requires something is listed. -/
  nested : ∀ name p items, property? node name = some p → isObject p = true →
    p.field? "required" = some (.arr items) → items ≠ [] → name ∈ list

/-- A node whose properties are objects and whose list is settled. -/
structure Settled (node : Json) : Prop where
  properties : ∃ ps, node.field? "properties" = some (.obj ps) ∧ ∀ p ∈ ps, p.2.isObj = true
  lists : ∃ list, Lists node list

/-! ## Lists that are combined -/

theorem mem_combine {kept demanding : List String} {name : String} :
    name ∈ combine kept demanding ↔ name ∈ kept ∨ name ∈ demanding := by
  rw [combine, List.mem_append, List.mem_filter]
  by_cases h : name ∈ kept <;> simp [h]

theorem nodup_combine {kept demanding : List String} (k : kept.Nodup) (d : demanding.Nodup) :
    (combine kept demanding).Nodup := by
  rw [combine, List.nodup_append]
  refine ⟨k, d.filter _, ?_⟩
  rintro n old m new rfl
  simp [old] at new

/-- Nothing is added if all that demand it are listed. -/
theorem combine_eq_self {kept demanding : List String} (h : ∀ n ∈ demanding, n ∈ kept) :
    combine kept demanding = kept := by
  rw [combine, List.filter_eq_nil_iff.2, List.append_nil]
  intro n mem
  simp [h n mem]

theorem nodup_eraseDups (names : List String) : names.eraseDups.Nodup := by
  cases names with
  | nil => exact List.nodup_nil
  | cons n rest =>
    rw [List.eraseDups_cons, List.nodup_cons]
    refine ⟨?_, nodup_eraseDups _⟩
    intro again
    have kept := List.mem_filter.1 (List.mem_eraseDups.1 again)
    simp at kept
termination_by names.length
decreasing_by
  have := List.length_filter_le (fun m => !m == n) rest
  simp only [List.length_cons]
  omega

theorem eraseDups_eq_self {names : List String} (h : names.Nodup) : names.eraseDups = names := by
  induction names with
  | nil => rfl
  | cons n rest ih =>
    obtain ⟨fresh, nodup⟩ := List.nodup_cons.1 h
    have all : (rest.filter fun m => !m == n) = rest := by
      rw [List.filter_eq_self]
      intro m mem
      have other : m ≠ n := fun same => fresh (same ▸ mem)
      simpa using other
    rw [List.eraseDups_cons, all, ih nodup]

theorem nodup_kept (node properties : Fields Json) : (kept node properties).Nodup :=
  (nodup_eraseDups _).filter _

theorem stays_of_kept {node properties : Fields Json} {name : String}
    (h : name ∈ kept node properties) : stays properties name = true := (List.mem_filter.1 h).2

theorem names_listJson (list : List String) : names (listJson list) = list := by
  rw [listJson, names, List.filterMap_map]
  exact List.filterMap_some

theorem listJson_injective {list list' : List String} (same : listJson list = listJson list') :
    list = list' := by
  rw [← names_listJson list, same, names_listJson]

/-- A list of which every name stays is kept as it is. -/
theorem kept_eq_self {node properties : Fields Json} {list : List String}
    (written : node.get? "required" = some (listJson list)) (nodup : list.Nodup)
    (stay : ∀ name ∈ list, stays properties name = true) : kept node properties = list := by
  rw [kept, written, Option.getD_some, names_listJson, eraseDups_eq_self nodup]
  exact List.filter_eq_self.2 stay

/-! ## The node that flattening gives -/

theorem Flattening.attached_object {fields properties properties' : Fields Json}
    {demanding : List String} :
    (Flattened.mk (some (combine (kept fields properties) demanding))
        (.obj (fields.put "properties" (.obj properties')))).attached =
      .obj ((fields.put "properties" (.obj properties')).put "required"
        (listJson (combine (kept fields properties) demanding))) := rfl

section Attached

variable {location : String} {node : Json} {f : Flattened}

/-- Flattening does not change what kind of node it is given. -/
theorem isObject_attached (h : flatten location node = .ok f) :
    isObject f.attached = isObject node := by
  cases flatten_eq_ok.1 h with
  | items => exact isObject_put (by decide) _
  | object => exact (isObject_put (by decide) _).trans (isObject_put (by decide) _)
  | other => rfl

theorem isObj_attached (h : flatten location node = .ok f) : f.attached.isObj = node.isObj := by
  cases flatten_eq_ok.1 h with
  | items => rfl
  | object => rfl
  | other => rfl

theorem isArrayOfObjects_attached (h : flatten location node = .ok f) :
    isArrayOfObjects f.attached = isArrayOfObjects node := by
  cases flatten_eq_ok.1 h with
  | @items fields items g kind found below =>
    rw [kind, isArrayOfObjects_eq_true]
    obtain ⟨type, items', found', object⟩ := isArrayOfObjects_eq_true.1 kind
    rw [Json.field?_obj] at type found'
    rw [found] at found'
    cases found'
    refine ⟨(Fields.get?_put_of_ne (by decide) ..).trans type, g.attached, ?_, ?_⟩
    · exact Fields.get?_put_self ..
    · rw [isObject_attached below, object]
  | object kind =>
    rw [not_isArrayOfObjects kind]
    exact not_isArrayOfObjects ((isObject_attached h).trans kind)
  | other => rfl

/-- Only objects get a list. -/
theorem list_of_not_isObject (h : flatten location node = .ok f) (kind : isObject node = false) :
    f.list = none := by
  cases flatten_eq_ok.1 h with
  | items => rfl
  | object object => rw [object] at kind; cases kind
  | other => rfl

/-- What is no object keeps all its fields but the items. -/
theorem field?_of_not_isObject (h : flatten location node = .ok f) (kind : isObject node = false)
    {name : String} (other : name ≠ "items") : f.attached.field? name = node.field? name := by
  cases flatten_eq_ok.1 h with
  | items => exact Fields.get?_put_of_ne (Ne.symm other) ..
  | object object => rw [object] at kind; cases kind
  | other => rfl

/-- What is no object keeps its own declaration. -/
theorem required_of_not_isObject (h : flatten location node = .ok f)
    (kind : isObject node = false) : f.attached.field? "required" = node.field? "required" :=
  field?_of_not_isObject h kind (by decide)

/-- An object gets the list it is found to have. -/
theorem required_of_isObject (h : flatten location node = .ok f) (kind : isObject node = true) :
    ∃ list, f.list = some list ∧ f.attached.field? "required" = some (listJson list) := by
  obtain ⟨_, _, _, _, -, -, -, rfl⟩ := object_of_flatten h kind
  exact ⟨_, rfl, Fields.get?_put_self ..⟩

/-- A node is not switched off by flattening. -/
theorem required_ne_off (h : flatten location node = .ok f)
    (on : node.field? "required" ≠ some (.bool false)) :
    f.attached.field? "required" ≠ some (.bool false) := by
  cases kind : isObject node with
  | false => rwa [required_of_not_isObject h kind]
  | true =>
    obtain ⟨list, _, written⟩ := required_of_isObject h kind
    rw [written]
    simp [listJson]

/-- A node that demands to be listed is not switched off by flattening. -/
theorem required_ne_off_of_demands (h : flatten location node = .ok f)
    (demands : f.demands (hasFlag node) = true) :
    f.attached.field? "required" ≠ some (.bool false) := by
  cases kind : isObject node with
  | false =>
    rw [Flattened.demands, list_of_not_isObject h kind] at demands
    rw [required_of_not_isObject h kind, hasFlag_eq_true.1 (by simpa using demands)]
    simp
  | true =>
    obtain ⟨list, _, written⟩ := required_of_isObject h kind
    rw [written]
    simp [listJson]

end Attached

/-! ## Flattening settles what it reaches -/

section Object

variable {location : String} {fields properties properties' : Fields Json} {demanding : List String}

theorem property?_attached {list : Json} (name : String) :
    property? (.obj ((fields.put "properties" (.obj properties')).put "required" list)) name =
      properties'.get? name :=
  property?_of_get? ((Fields.get?_put_of_ne (by decide) ..).trans (Fields.get?_put_self ..)) name

/-- The list of an object agrees with what its flattened properties demand. -/
theorem lists_of_flattenEach (nodup : properties.names.Nodup)
    (h : flattenEach location properties = .ok (demanding, properties')) :
    Lists (.obj ((fields.put "properties" (.obj properties')).put "required"
        (listJson (combine (kept fields properties) demanding))))
      (combine (kept fields properties) demanding) where
  written := Fields.get?_put_self ..
  nodup := nodup_combine (nodup_kept _ _) ((flattenEach_sublist h).nodup nodup)
  listed := by
    intro name mem
    rw [property?_attached]
    rcases mem_combine.1 mem with old | new
    · obtain ⟨v, found, isObj, on⟩ := stays_eq_true.1 (stays_of_kept old)
      obtain ⟨_, p, hp, found', _⟩ := flattenEach_get? h found
      exact ⟨p.attached, found', (isObj_attached hp).trans isObj, required_ne_off hp on⟩
    · obtain ⟨v, p, found, isObj, hp, demands⟩ := flattenEach_demanding h nodup new
      obtain ⟨_, q, hq, found', _⟩ := flattenEach_get? h found
      rw [hp] at hq
      cases hq
      exact ⟨p.attached, found', (isObj_attached hp).trans isObj,
        required_ne_off_of_demands hp demands⟩
  flagged := by
    intro name w found kind flag
    rw [property?_attached] at found
    obtain ⟨v, _, _, p, hp, rfl, named⟩ := flattenEach_get?_result h found
    rw [isObject_attached hp] at kind
    rw [required_of_not_isObject hp kind] at flag
    refine mem_combine.2 (Or.inr (named ?_))
    rw [Flattened.demands, hasFlag_eq_true.2 flag, Bool.true_or]
  nested := by
    intro name w items found kind written some
    rw [property?_attached] at found
    obtain ⟨v, _, _, p, hp, rfl, named⟩ := flattenEach_get?_result h found
    rw [isObject_attached hp] at kind
    obtain ⟨list, isList, written'⟩ := required_of_isObject hp kind
    rw [written] at written'
    cases written'
    refine mem_combine.2 (Or.inr (named ?_))
    have nonempty : list ≠ [] := by
      rintro rfl
      exact some rfl
    rw [Flattened.demands, isList]
    simp [nonempty]

end Object

/-- Each child of what flattening gives is what flattening gives of a child. -/
theorem child_attached {location : String} {node : Json} {f : Flattened}
    (h : flatten location node = .ok f) (object : isObject node = true) {child : Json}
    (below : Child f.attached child) :
    ∃ original place g, Child node original ∧ flatten place original = .ok g ∧
      child = g.attached := by
  obtain ⟨fields, properties, properties', demanding, rfl, found, each, rfl⟩ :=
    object_of_flatten h object
  rw [Flattening.attached_object] at below
  have original {name : String} {v : Json} (isProperty : properties.get? name = some v) :
      property? (.obj fields) name = some v := (property?_of_get? found name).trans isProperty
  cases below with
  | property isProperty object' =>
    rw [property?_attached] at isProperty
    obtain ⟨v, found', _, p, hp, rfl, _⟩ := flattenEach_get?_result each isProperty
    rw [isObject_attached hp] at object'
    exact ⟨v, _, p, .property (original found') object', hp, rfl⟩
  | items isProperty array isItems =>
    rw [property?_attached] at isProperty
    obtain ⟨v, found', _, p, hp, rfl, _⟩ := flattenEach_get?_result each isProperty
    rw [isArrayOfObjects_attached hp] at array
    obtain ⟨_, items, g, rfl, foundItems, hg, rfl⟩ := array_of_flatten hp array
    have same := (Fields.get?_put_self ..).symm.trans isItems
    exact ⟨items, _, g, .items (original found') array foundItems, hg, (Option.some.inj same).symm⟩

/-- Each node reached in what flattening gives is what flattening gives of a reached node. -/
theorem reached_attached {location : String} {node : Json} {f : Flattened}
    (h : flatten location node = .ok f) (object : isObject node = true) {n : Json}
    (reached : Reached f.attached n) :
    ∃ original place g, Reached node original ∧ isObject original = true ∧
      flatten place original = .ok g ∧ n = g.attached := by
  induction reached with
  | refl => exact ⟨node, location, f, .refl, object, h, rfl⟩
  | tail _ here ih =>
    obtain ⟨above, place, g, reached, object', hg, rfl⟩ := ih
    obtain ⟨original, place', g', child, hg', rfl⟩ := child_attached hg object' here
    exact ⟨original, place', g', reached.tail child, child.isObject, hg', rfl⟩

/-- Flattening an object settles it. -/
theorem settled_attached {location : String} {node : Json} {f : Flattened}
    (distinct : node.Distinct) (h : flatten location node = .ok f)
    (object : isObject node = true) : Settled f.attached := by
  obtain ⟨fields, properties, properties', demanding, rfl, found, each, rfl⟩ :=
    object_of_flatten h object
  have nodup := (distinct.get? found).nodup
  refine ⟨⟨properties', ?_, ?_⟩, _, lists_of_flattenEach nodup each⟩
  · exact (Fields.get?_put_of_ne (by decide) ..).trans (Fields.get?_put_self ..)
  · intro p mem
    have found' := Fields.get?_of_mem (flattenEach_names each ▸ nodup) mem
    obtain ⟨v, _, isObj, q, hq, same, _⟩ := flattenEach_get?_result each found'
    rw [same, isObj_attached hq, isObj]

theorem Child.distinct {node child : Json} (h : Child node child) (distinct : node.Distinct) :
    child.Distinct := by
  cases h with
  | property found _ => exact distinct_property? distinct found
  | items found _ isItems => exact (distinct_property? distinct found).field? isItems

theorem Reached.distinct {node n : Json} (h : Reached node n) (distinct : node.Distinct) :
    n.Distinct := by
  induction h with
  | refl => exact distinct
  | tail _ here ih => exact here.distinct ih

/-- Every node that is reached in what flattening gives is settled. -/
theorem settled_of_flatten {location : String} {node : Json} {f : Flattened}
    (distinct : node.Distinct) (h : flatten location node = .ok f)
    (object : isObject node = true) {n : Json} (reached : Reached f.attached n) : Settled n := by
  obtain ⟨original, place, g, from', object', hg, rfl⟩ := reached_attached h object reached
  exact settled_attached (from'.distinct distinct) hg object'

/-! ## What is settled is left as it is -/

/-- If flattening leaves every property as it is and every one that demands it is listed, then
all properties stay, and no name is missing in the list. -/
theorem flattenEach_of_settled {location : String} {properties : Fields Json} {list : List String}
    (each : ∀ p ∈ properties, p.2.isObj = true ∧
      ∃ f, flatten (placeOf location p.1) p.2 = .ok f ∧ f.attached = p.2 ∧
        (f.demands (hasFlag p.2) = true → p.1 ∈ list)) :
    ∃ demanding, flattenEach location properties = .ok (demanding, properties) ∧
      ∀ name ∈ demanding, name ∈ list := by
  induction properties with
  | nil => exact ⟨[], rfl, fun _ h => by cases h⟩
  | cons p rest ih =>
    obtain ⟨isObj, f, hf, same, named⟩ := each p List.mem_cons_self
    obtain ⟨demanding, hs, all⟩ := ih fun q mem => each q (List.mem_cons_of_mem _ mem)
    refine ⟨if f.demands (hasFlag p.2) then p.1 :: demanding else demanding,
      flattenEach_cons.2 ⟨isObj, f, hf, _, hs, ?_⟩, ?_⟩
    · rw [same]
    · intro name mem
      split at mem
      · next demands =>
        rcases List.mem_cons.1 mem with rfl | later
        · exact named demands
        · exact all name later
      · exact all name mem

/-- Flattening leaves the node as it is, wherever it stands, and finds the list it has. -/
def Stable (node : Json) : Prop :=
  ∀ location, ∃ f, flatten location node = .ok f ∧ f.attached = node ∧
    ∀ list, Lists node list → f.list = some list

/-- A property is left as it is if the children that it makes are, and it is listed if it
demands it. -/
theorem property_of_settled {node p : Json} {name : String} {list : List String}
    (here : property? node name = some p) (lists : Lists node list)
    (settled : ∀ child, Child node child → Settled child)
    (stable : ∀ child, Child node child → Stable child) (location : String) :
    ∃ f, flatten location p = .ok f ∧ f.attached = p ∧
      (f.demands (hasFlag p) = true → name ∈ list) := by
  cases object : isObject p with
  | true =>
    have child : Child node p := .property here object
    obtain ⟨f, hf, same, isList⟩ := stable p child location
    obtain ⟨below, belowLists⟩ := (settled p child).lists
    refine ⟨f, hf, same, ?_⟩
    intro demands
    -- the declaration is a list, so that the demand comes from what is below
    have written := belowLists.written
    rw [Flattened.demands, isList below belowLists, hasFlag, written] at demands
    have some : below ≠ [] := by simpa [listJson, isFlag] using demands
    exact lists.nested name p _ here object written (by simpa using some)
  | false =>
    have flag (f : Flattened) (none : f.list = none) (demands : f.demands (hasFlag p) = true) :
        name ∈ list := by
      rw [Flattened.demands, none] at demands
      exact lists.flagged name p here object (hasFlag_eq_true.1 (by simpa using demands))
    cases array : isArrayOfObjects p with
    | false => exact ⟨⟨none, p⟩, flatten_of_other _ array object, rfl, flag _ rfl⟩
    | true =>
      obtain ⟨_, items, isItems, _⟩ := isArrayOfObjects_eq_true.1 array
      obtain ⟨f, hf, same, _⟩ := stable items (.items here array isItems) (location ++ ".items")
      obtain ⟨fields, rfl, found⟩ := Json.field?_eq_some.1 isItems
      refine ⟨_, flatten_eq_ok.2 (.items array found hf), ?_, flag _ rfl⟩
      rw [same, Fields.put_of_get? found]
      rfl

/-- Flattening leaves a node as it is that is settled and whose children are left as they are. -/
theorem stable_of_children {node : Json} (object : isObject node = true) (distinct : node.Distinct)
    (here : Settled node) (settled : ∀ child, Child node child → Settled child)
    (stable : ∀ child, Child node child → Stable child) : Stable node := by
  intro location
  obtain ⟨⟨properties, isProperties, areObjects⟩, list, lists⟩ := here
  obtain ⟨fields, rfl, found⟩ := Json.field?_eq_some.1 isProperties
  have property := property?_of_get? found
  obtain ⟨demanding, each, all⟩ : ∃ demanding,
      flattenEach location properties = .ok (demanding, properties) ∧
        ∀ name ∈ demanding, name ∈ list := by
    refine flattenEach_of_settled fun p mem => ⟨areObjects p mem, ?_⟩
    have isProperty := (property p.1).trans (Fields.get?_of_mem (distinct.get? found).nodup mem)
    exact property_of_settled isProperty lists settled stable _
  have stay : ∀ name ∈ list, stays properties name = true := by
    intro name mem
    obtain ⟨p, isProperty, rest⟩ := lists.listed name mem
    exact stays_eq_true.2 ⟨p, property name ▸ isProperty, rest⟩
  have unchanged : combine (kept fields properties) demanding = list := by
    rw [kept_eq_self lists.written lists.nodup stay, combine_eq_self all]
  refine ⟨_, flatten_eq_ok.2 (.object object found each), ?_, ?_⟩
  · rw [Flattening.attached_object, unchanged, Fields.put_of_get? found,
      Fields.put_of_get? lists.written]
  · intro list' lists'
    rw [unchanged, listJson_injective (Option.some.inj (lists.written.symm.trans lists'.written))]

theorem Child.sizeOf_lt {node child : Json} (h : Child node child) :
    sizeOf child < sizeOf node := by
  cases h with
  | property found _ => exact sizeOf_lt_of_property? found
  | items found _ isItems =>
    exact Nat.lt_trans (Json.sizeOf_lt_of_field? isItems) (sizeOf_lt_of_property? found)

/-- Flattening leaves a tree as it is in which every reached node is settled. -/
theorem stable_of_settled {node : Json} (object : isObject node = true) (distinct : node.Distinct)
    (settled : ∀ n, Reached node n → Settled n) : Stable node :=
  stable_of_children object distinct (settled node .refl)
    (fun child h => settled child (.single h))
    (fun child h => stable_of_settled h.isObject (h.distinct distinct)
      fun n reached => settled n (reached.head h))
termination_by sizeOf node
decreasing_by exact h.sizeOf_lt

end ResourceApi.Required
