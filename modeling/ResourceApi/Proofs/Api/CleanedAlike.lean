import ResourceApi.Proofs.Api.Variants

/-! # Removals that clean alike

Cleaning with one removal and then with another is cleaning once with both, so it may be
repeated and done in any order. Whether two removals clean a schema alike is told by the nodes
that cleaning goes to: they have to take the same fields from each. An answer loses its marks
whatever they hold, and a request that changes parts, which is cleaned twice, only those that
hold a truth value; so both have the same properties exactly where all marks do. -/

namespace ResourceApi

namespace Removal

/-- The nodes that cleaning a node goes to: the node, and those in its properties and items. -/
inductive Visits : Json → Fields Json → Prop
  | here {fields : Fields Json} : Visits (.obj fields) fields
  | property {fields properties n : Fields Json} {name : String} {p : Json} :
    ("properties", .obj properties) ∈ fields → (name, p) ∈ properties → Visits p n →
    Visits (.obj fields) n
  | items {fields n : Fields Json} {items : Json} :
    ("items", items) ∈ fields → Visits items n → Visits (.obj fields) n

/-- Two removals take the same fields from a node. -/
def Agree (r s : Removal) (node : Fields Json) : Prop :=
  ∀ f ∈ node, r.drops f.1 f.2 = s.drops f.1 f.2

variable {r s : Removal} {node : Json} {n : Fields Json}

/-! ## What is equal after cleaning -/

/-- A cleaned node holds nothing more that is taken away. -/
theorem drops_of_mem_cleanFields {fields : Fields Json} {key : String} {v : Json}
    (mem : (key, v) ∈ r.cleanFields fields) : r.drops key v = false := by
  induction fields with
  | nil => cases mem
  | cons field rest ih =>
    obtain ⟨k, w⟩ := field
    rw [cleanFields] at mem
    split at mem
    · exact ih mem
    · next kept =>
      rcases List.mem_cons.1 mem with same | later
      · cases same
        rw [drops_cleanValue]
        exact eq_false_of_ne_true kept
      · exact ih later

/-- What one removal takes away and the other keeps would be missed in the one cleaned node. -/
theorem cleanFields_ne_cons {fields more : Fields Json} {key : String} {v : Json}
    (taken : r.drops key v = true) : r.cleanFields fields ≠ (key, s.cleanValue key v) :: more := by
  intro same
  have kept : r.drops key (s.cleanValue key v) = false :=
    drops_of_mem_cleanFields (same ▸ List.mem_cons_self)
  rw [drops_cleanValue, taken] at kept
  cases kept

theorem cleanFields_eq_iff {fields : Fields Json} :
    r.cleanFields fields = s.cleanFields fields ↔
      ∀ f ∈ fields, r.drops f.1 f.2 = s.drops f.1 f.2 ∧
        (r.drops f.1 f.2 = false → r.cleanValue f.1 f.2 = s.cleanValue f.1 f.2) := by
  induction fields with
  | nil => simp [cleanFields]
  | cons field rest ih =>
    obtain ⟨key, v⟩ := field
    rw [List.forall_mem_cons, ← ih, cleanFields, cleanFields]
    cases here : r.drops key v with
    | true =>
      cases there : s.drops key v with
      | true => simp
      | false => simpa using cleanFields_ne_cons here
    | false =>
      cases there : s.drops key v with
      | true => simpa using (cleanFields_ne_cons there).symm
      | false => simp

theorem cleanEach_eq_iff {properties : Fields Json} :
    r.cleanEach properties = s.cleanEach properties ↔
      ∀ p ∈ properties, r.cleanProperty p.2 = s.cleanProperty p.2 := by
  induction properties with
  | nil => simp [cleanEach]
  | cons p rest ih =>
    obtain ⟨name, v⟩ := p
    rw [List.forall_mem_cons, ← ih, cleanEach, cleanEach, List.cons.injEq, Prod.mk.injEq]
    simp

theorem cleanValue_properties (r : Removal) (properties : Fields Json) :
    r.cleanValue "properties" (.obj properties) = .obj (r.cleanEach properties) := by
  rw [cleanValue, if_pos rfl]

theorem cleanValue_items (r : Removal) (items : Json) :
    r.cleanValue "items" items = r.cleanProperty items := by
  cases items <;> rfl

/-! ## Cleaning alike is agreeing everywhere -/

theorem agree_of_visits (keeps : r.KeepsNodes) (visits : Visits node n)
    (same : r.cleanProperty node = s.cleanProperty node) : Agree r s n := by
  have each {fields : Fields Json}
      (same : r.cleanProperty (.obj fields) = s.cleanProperty (.obj fields)) :=
    cleanFields_eq_iff.1 (Json.obj.inj same)
  induction visits with
  | here => exact fun f mem => (each same f mem).1
  | property isProperties mem _ ih =>
    have kept := (each same _ isProperties).2 (keeps.properties _)
    rw [cleanValue_properties, cleanValue_properties, Json.obj.injEq] at kept
    exact ih (cleanEach_eq_iff.1 kept _ mem)
  | items isItems _ ih =>
    have kept := (each same _ isItems).2 (keeps.items _)
    rw [cleanValue_items, cleanValue_items] at kept
    exact ih kept

/-- Agreement on a node and equality below it. -/
theorem cleanFields_eq_of_below {fields : Fields Json} (agree : Agree r s fields)
    (properties : ∀ ps, ("properties", .obj ps) ∈ fields →
      ∀ p ∈ ps, r.cleanProperty p.2 = s.cleanProperty p.2)
    (items : ∀ v, ("items", v) ∈ fields → r.cleanProperty v = s.cleanProperty v) :
    r.cleanFields fields = s.cleanFields fields := by
  rw [cleanFields_eq_iff]
  rintro ⟨key, v⟩ mem
  refine ⟨agree _ mem, fun _ => ?_⟩
  cases v with
  | null | bool | int | float | str | arr => rfl
  | obj inner =>
    by_cases isProperties : key = "properties"
    · subst isProperties
      rw [cleanValue_properties, cleanValue_properties, Json.obj.injEq, cleanEach_eq_iff]
      exact properties inner mem
    · by_cases isItems : key = "items"
      · subst isItems
        rw [cleanValue_items, cleanValue_items]
        exact items _ mem
      · rw [cleanValue, cleanValue, if_neg isProperties, if_neg isProperties, if_neg isItems,
          if_neg isItems]

theorem cleanProperty_congr :
    ∀ node, (∀ n, Visits node n → Agree r s n) → r.cleanProperty node = s.cleanProperty node
  | .obj fields, agree => by
    rw [cleanProperty, cleanProperty, Json.obj.injEq]
    refine cleanFields_eq_of_below (agree fields .here) ?_ ?_
    · intro ps isProperties p inside
      exact cleanProperty_congr p.2 fun n visits => agree n (.property isProperties inside visits)
    · intro v isItems
      exact cleanProperty_congr v fun n visits => agree n (.items isItems visits)
  | .null, _ | .bool _, _ | .int _, _ | .float _, _ | .str _, _ | .arr _, _ => rfl
termination_by node => sizeOf node
decreasing_by
  · exact (Json.sizeOf_lt_of_mem inside).trans (Json.sizeOf_lt_of_mem isProperties)
  · exact Json.sizeOf_lt_of_mem isItems

/-- Two removals that leave the nodes of a schema where they are clean it alike exactly if they agree
at every node that cleaning goes to. -/
theorem cleanProperty_eq_iff (keeps : r.KeepsNodes) :
    r.cleanProperty node = s.cleanProperty node ↔ ∀ n, Visits node n → Agree r s n :=
  ⟨fun same _ visits => agree_of_visits keeps visits same, cleanProperty_congr node⟩

/-- Removals that take the same away from any node clean alike. -/
theorem cleanFields_congr (same : ∀ key v, r.drops key v = s.drops key v) (fields : Fields Json) :
    r.cleanFields fields = s.cleanFields fields :=
  Json.obj.inj (cleanProperty_congr (.obj fields) fun _ _ f _ => same f.1 f.2)

/-! ## Answers and changes -/

theorem not_isExtensionKey_mark {key : String} (mark : key ∈ ["index", "unique"]) :
    ¬ IsExtensionKey key := by
  rw [← isExtension_iff]
  revert key
  decide

/-- An answer and a change lose the same fields of a node if its marks hold truth values. -/
theorem agree_answer_change_iff {node : Fields Json} :
    Agree ⟨markers, []⟩ (bodyRemoval.both ⟨["required"], []⟩) node ↔
      ∀ key ∈ ["index", "unique"], ∀ v, (key, v) ∈ node → ∃ b, v = .bool b := by
  have one (key : String) (v : Json) : (⟨markers, []⟩ : Removal).drops key v =
      (bodyRemoval.both ⟨["required"], []⟩).drops key v ↔
        (key ∈ ["index", "unique"] → ∃ b, v = .bool b) := by
    rw [Bool.eq_iff_iff, drops_answer, drops_change, LostInAnswers, LostInChanges, LostInBodies]
    have mark := @not_isExtensionKey_mark key
    simp only [List.mem_cons, List.not_mem_nil, or_false] at mark ⊢
    grind
  constructor
  · intro agree key mark v mem
    exact (one key v).1 (agree (key, v) mem) mark
  · intro marks f mem
    exact (one f.1 f.2).2 fun mark => marks f.1 mark f.2 mem

end Removal

open Removal

/-- **Cleaning in passes is cleaning once with all removals.** So a pass may be repeated, and passes
may be made in any order. A request that changes parts, whose properties are cleaned in two passes,
has the properties of an answer but for the identifier at the top if and only if, wherever cleaning
goes below the others, what stands under `index` and `unique` is a truth value. -/
theorem cleaning_fuses :
    (∀ (keys keys' flags flags' : List String) (node : Fields Json),
      cleanFields ⟨keys', flags'⟩ (cleanFields ⟨keys, flags⟩ node) =
        cleanFields ⟨keys ++ keys', flags ++ flags'⟩ node) ∧
    (∀ (r : Removal) (node : Fields Json), r.cleanFields (r.cleanFields node) = r.cleanFields node) ∧
    (∀ (r s : Removal) (node : Fields Json),
      s.cleanFields (r.cleanFields node) = r.cleanFields (s.cleanFields node)) ∧
    ∀ (properties : Fields Json) (required : List Json),
      shapeProperties (partialShape (withoutIdentifier (bodyShape properties required))) =
          withoutIdentifierName (shapeProperties (responseShape properties)) ↔
        ∀ p ∈ withoutIdentifierName properties, ∀ n, Visits p.2 n →
          ∀ key ∈ ["index", "unique"], ∀ v, (key, v) ∈ n → ∃ b, v = .bool b := by
  refine ⟨fun keys keys' flags flags' node => cleanFields_cleanFields _ _ node,
    fun r node => ?again, fun r s node => ?swapped, fun properties required => ?shapes⟩
  case again =>
    rw [cleanFields_cleanFields]
    exact cleanFields_congr (fun key v => by rw [drops_both, Bool.or_self]) node
  case swapped =>
    rw [cleanFields_cleanFields, cleanFields_cleanFields]
    exact cleanFields_congr (fun key v => by rw [drops_both, drops_both, Bool.or_comm]) node
  case shapes =>
    have change : shapeProperties (partialShape (withoutIdentifier (bodyShape properties required))) =
        (bodyRemoval.both ⟨["required"], []⟩).cleanEach (withoutIdentifierName properties) := by
      rw [withoutIdentifierName, ← cleanEach_cleanEach,
        ← cleanEach_filter bodyRemoval (· != identifierName)]
      rfl
    have answer : withoutIdentifierName (shapeProperties (responseShape properties)) =
        (⟨markers, []⟩ : Removal).cleanEach (withoutIdentifierName properties) :=
      cleanEach_filter _ (· != identifierName) properties
    rw [change, answer, eq_comm, cleanEach_eq_iff]
    refine forall₂_congr fun p _ => ?_
    rw [cleanProperty_eq_iff keepsNodes_answer]
    exact forall₂_congr fun n _ => agree_answer_change_iff

/-- A mark that holds a number stays in a change and is missing from an answer. -/
example :
    let size : Fields Json := [("size", .obj [("type", .str "string"), ("index", .int 1)])]
    shapeProperties (partialShape (withoutIdentifier (bodyShape size []))) = size ∧
      shapeProperties (responseShape size) = [("size", .obj [("type", .str "string")])] := by
  decide

end ResourceApi
