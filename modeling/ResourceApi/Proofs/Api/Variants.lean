import ResourceApi.Proofs.Api.CleanedTwice
import ResourceApi.Proofs.Api.PublishedLists

/-! # What the shapes of a resource leave out

The shapes in which a resource is sent and received are its properties without the keys
that only mark them. Each shape has a rule for the fields that a node loses; the node keeps
all others in their order, with the values that they had but for what is lost further down.
The rules speak of keys of nodes and never of names of properties: every property is in
every shape, whatever it is called, except for the identifier at the top of those shapes
that are without it. -/

namespace ResourceApi

open Required

/-! ## Rules and the nodes they make -/

/-- A key that starts as those of extensions do. -/
def IsExtensionKey (key : String) : Prop := ∃ rest, key = "x-" ++ rest

/-- What a node loses in an answer. -/
def LostInAnswers (key : String) (_ : Json) : Prop :=
  IsExtensionKey key ∨ key ∈ ["index", "unique", "required"]

/-- What a node loses in a request that gives every part. -/
def LostInBodies (key : String) (v : Json) : Prop :=
  IsExtensionKey key ∨ (key ∈ ["index", "unique", "required"] ∧ ∃ b, v = .bool b) ∨
    key = "required" ∧ v.isFalsy = true

/-- What a node loses in a request that changes parts. -/
def LostInChanges (key : String) (v : Json) : Prop := LostInBodies key v ∨ key = "required"

/-- How the value of a field is kept: its properties under their names, its items as an object, and
everything else as it is. -/
inductive Carried : String → Json → Json → Prop
  | properties {given shown : Fields Json} : shown.names = given.names →
    Carried "properties" (.obj given) (.obj shown)
  | items {given shown : Fields Json} : Carried "items" (.obj given) (.obj shown)
  | same {key : String} {v : Json} : (key = "properties" ∨ key = "items" → v.isObj = false) →
    Carried key v v

/-- The fields of a node without those that a rule takes from it. -/
structure Reduced (lost : String → Json → Prop) (given shown : Fields Json) : Prop where
  order : shown.names.Sublist given.names
  left : ∀ key v, given.get? key = some v → lost key v → shown.get? key = none
  kept : ∀ key v, given.get? key = some v → ¬ lost key v →
    ∃ w, shown.get? key = some w ∧ Carried key v w

/-- A node without the fields that a rule takes from it; what is no object stays as it is. -/
inductive ReducedTo (lost : String → Json → Prop) : Json → Json → Prop
  | node {given shown : Fields Json} : Reduced lost given shown →
    ReducedTo lost (.obj given) (.obj shown)
  | other {v : Json} : v.isObj = false → ReducedTo lost v v

/-- The node at a position below a property. -/
def nodeAt? (properties : Fields Json) (name : String) (way : List Step) : Option Json :=
  (properties.get? name).bind fun p => at? p way

/-- The properties of a shape: all that are given, and below them the same nodes at the same
positions, each without the fields that a rule takes from it. -/
structure Shows (lost : String → Json → Prop) (given shown : Fields Json) : Prop where
  names : shown.names = given.names
  nodes : ∀ name way,
    Option.Rel (ReducedTo lost) (nodeAt? given name way) (nodeAt? shown name way)

/-! ## Cleaned properties -/

namespace Removal

variable {r : Removal} {lost : String → Json → Prop}

theorem names_cleanEach (r : Removal) (properties : Fields Json) :
    (r.cleanEach properties).names = properties.names := by
  induction properties with
  | nil => rfl
  | cons p rest ih => rw [cleanEach, Fields.names_cons, Fields.names_cons, ih]

theorem names_cleanFields (r : Removal) (fields : Fields Json) :
    (r.cleanFields fields).names.Sublist fields.names := by
  induction fields with
  | nil => exact List.Sublist.slnil
  | cons field rest ih =>
    rw [cleanFields]
    split
    · exact ih.cons field.1
    · exact ih.cons_cons field.1

theorem carried_cleanValue (r : Removal) (key : String) (v : Json) :
    Carried key v (r.cleanValue key v) := by
  cases v with
  | obj fields =>
    rw [cleanValue]
    split
    · next properties =>
      subst properties
      exact .properties (names_cleanEach r fields)
    · next notProperties =>
      split
      · next items =>
        subst items
        exact .items
      · next notItems => exact .same fun other => absurd other (not_or.2 ⟨notProperties, notItems⟩)
  | null | bool | int | float | str | arr => exact .same fun _ => rfl

/-- A removal takes the fields from a node that its rule names. -/
theorem reducedTo_cleanProperty (rule : ∀ key v, r.drops key v = true ↔ lost key v) {node : Json}
    (distinct : node.Distinct) : ReducedTo lost node (r.cleanProperty node) := by
  cases node with
  | obj fields =>
    have found (key : String) : (r.cleanFields fields).get? key = (Fields.get? fields key).bind
        fun v => if r.drops key v then none else some (r.cleanValue key v) :=
      get?_cleanFields distinct.nodup
    refine .node ⟨names_cleanFields r fields, ?_, ?_⟩
    · intro key v here isLost
      rw [found, here, Option.bind_some, if_pos ((rule key v).2 isLost)]
    · intro key v here isKept
      refine ⟨r.cleanValue key v, ?_, carried_cleanValue r key v⟩
      rw [found, here, Option.bind_some, if_neg (fun drops => isKept ((rule key v).1 drops))]
  | null | bool | int | float | str | arr => exact .other rfl

/-- Cleaned properties are those that are given, as the rule of the removal shows them. -/
theorem shows_cleanEach (keeps : r.KeepsNodes) (rule : ∀ key v, r.drops key v = true ↔ lost key v)
    {properties : Fields Json} (distinct : (Json.obj properties).Distinct) :
    Shows lost properties (r.cleanEach properties) where
  names := names_cleanEach r properties
  nodes name way := by
    unfold nodeAt?
    rw [get?_cleanEach]
    cases isProperty : properties.get? name with
    | none => exact .none
    | some p =>
      have distinct' := distinct.get? isProperty
      rw [Option.map_some, Option.bind_some, Option.bind_some,
        at?_cleanProperty keeps distinct' way]
      cases there : at? p way with
      | none => exact .none
      | some n => exact .some (reducedTo_cleanProperty rule (distinct_at? distinct' there))

theorem cleanEach_filter (r : Removal) (p : String → Bool) (properties : Fields Json) :
    (r.cleanEach properties).filter (fun f => p f.1) =
      r.cleanEach (properties.filter fun f => p f.1) := by
  induction properties with
  | nil => rfl
  | cons f rest ih =>
    rw [cleanEach, List.filter_cons, List.filter_cons]
    split
    · rw [cleanEach, ih]
    · exact ih

/-! ## The removals of the shapes -/

theorem isExtension_iff (key : String) : isExtension key = true ↔ IsExtensionKey key := by
  unfold isExtension IsExtensionKey
  rw [List.isPrefixOf_iff_prefix]
  constructor
  · intro starts
    obtain ⟨rest, spelt⟩ := starts
    exact ⟨String.ofList rest, String.toList_inj.1 (by simp [← spelt])⟩
  · intro starts
    obtain ⟨rest, rfl⟩ := starts
    exact ⟨rest.toList, String.toList_append.symm⟩

theorem isBool_iff (v : Json) : isBool v = true ↔ ∃ b, v = .bool b := by
  cases v <;> simp [isBool]

theorem drops_answer (key : String) (v : Json) :
    (⟨markers, []⟩ : Removal).drops key v = true ↔ LostInAnswers key v := by
  simp only [drops, LostInAnswers, markers, Bool.or_eq_true, isExtension_iff]
  simp
  grind

theorem drops_body (key : String) (v : Json) :
    bodyRemoval.drops key v = true ↔ LostInBodies key v := by
  simp only [drops, LostInBodies, markers, Bool.or_eq_true, isExtension_iff, Bool.and_eq_true,
    isBool_iff]
  simp [or_assoc]

theorem drops_change (key : String) (v : Json) :
    (bodyRemoval.both ⟨["required"], []⟩).drops key v = true ↔ LostInChanges key v := by
  rw [drops_both, Bool.or_eq_true, drops_body, LostInChanges]
  simp only [drops, Bool.or_eq_true, isExtension_iff]
  simp [LostInBodies]
  grind

theorem keepsNodes_answer : (⟨markers, []⟩ : Removal).KeepsNodes where
  properties _ := rfl
  items _ := rfl

theorem keepsNodes_change : (bodyRemoval.both ⟨["required"], []⟩).KeepsNodes where
  properties _ := rfl
  items _ := rfl

end Removal

/-! ## The shapes of a resource -/

/-- The properties without the identifier. -/
def withoutIdentifierName (properties : Fields Json) : Fields Json :=
  properties.filter fun p => p.1 != identifierName

theorem distinct_withoutIdentifierName {properties : Fields Json}
    (distinct : (Json.obj properties).Distinct) :
    (Json.obj (withoutIdentifierName properties)).Distinct := by
  obtain ⟨nodup, inside⟩ := Json.distinct_obj.1 distinct
  refine Json.distinct_obj.2 ⟨nodup.sublist (List.filter_sublist.map _), ?_⟩
  intro p stays
  exact inside p (List.mem_of_mem_filter stays)

/-- A change has the properties of a body without its identifier, cleaned once more. -/
theorem partialShape_bodyShape (properties : Fields Json) (required : List String) :
    partialShape (withoutIdentifier (bodyShape properties (required.map .str))) =
      objectShape ((bodyRemoval.both ⟨["required"], []⟩).cleanEach
        (withoutIdentifierName properties)) [] := by
  rw [withoutIdentifier_bodyShape, partialShape,
    Removal.cleanEach_filter bodyRemoval (· != identifierName) properties,
    ← Removal.cleanEach_cleanEach]
  rfl

/-- **The shapes leave out the keys that only mark, and nothing else.** Whatever the names of the
properties are, an answer and a body have them all, and the shapes without an identifier all but
the identifier at the top; and every node below has its fields but for those of its rule. -/
theorem shapes_leaveOut {properties : Fields Json} (distinct : (Json.obj properties).Distinct)
    (required : List String) :
    ∃ answer body bare change,
      (responseShape properties = objectShape answer [] ∧
        Shows LostInAnswers properties answer) ∧
      (bodyShape properties (required.map .str) = objectShape body (required.map .str) ∧
        Shows LostInBodies properties body) ∧
      (withoutIdentifier (bodyShape properties (required.map .str)) =
          objectShape bare ((required.filter (· ≠ identifierName)).map .str) ∧
        Shows LostInBodies (withoutIdentifierName properties) bare) ∧
      (partialShape (withoutIdentifier (bodyShape properties (required.map .str))) =
          objectShape change [] ∧
        Shows LostInChanges (withoutIdentifierName properties) change) := by
  have distinct' := distinct_withoutIdentifierName distinct
  refine ⟨_, _, _, _, ⟨rfl, ?answer⟩, ⟨rfl, ?body⟩, ⟨withoutIdentifier_bodyShape _ _, ?bare⟩,
    ⟨partialShape_bodyShape _ _, ?change⟩⟩
  case answer =>
    exact Removal.shows_cleanEach Removal.keepsNodes_answer Removal.drops_answer distinct
  case body => exact Removal.shows_cleanEach keepsNodes_bodyRemoval Removal.drops_body distinct
  case bare =>
    rw [Removal.cleanEach_filter bodyRemoval (· != identifierName) properties]
    exact Removal.shows_cleanEach keepsNodes_bodyRemoval Removal.drops_body distinct'
  case change =>
    -- a change was cleaned twice, by one rule that joins both
    exact Removal.shows_cleanEach Removal.keepsNodes_change Removal.drops_change distinct'

/-- Properties that are named like the keys of nodes. -/
def keywordProperties : Fields Json := [
  ("_id", .obj [("type", .str "string"), ("unique", .bool true)]),
  ("required", .obj [("type", .str "boolean"), ("required", .bool true)]),
  ("items", .obj [("type", .str "array"), ("items", .obj [("type", .str "object"),
    ("properties", .obj [("_id", .obj [("type", .str "string"), ("x-format", .str "minMax")]),
      ("index", .obj [("type", .str "number"), ("index", .int 3)])]),
    ("required", .arr [.str "_id"])])]),
  ("x-note", .str "any")]

/-- A change has them all but for the identifier at the top: the identifier of an item stays there,
without what marks it. -/
theorem shapes_leaveOut_keywordProperties : (Json.obj keywordProperties).Distinct ∧
    ∃ change, partialShape (withoutIdentifier (bodyShape keywordProperties [.str "required"])) =
        objectShape change [] ∧
      change.names = ["required", "items", "x-note"] ∧
      ReducedTo LostInChanges (.obj [("type", .str "string"), ("x-format", .str "minMax")])
        (.obj [("type", .str "string")]) ∧
      nodeAt? change "items" [.items, .property "_id"] = some (.obj [("type", .str "string")]) := by
  have distinct : (Json.obj keywordProperties).Distinct := by decide
  obtain ⟨-, -, -, change, -, -, -, isChange, shows⟩ := shapes_leaveOut distinct ["required"]
  refine ⟨distinct, change, isChange, shows.names, ?_⟩
  have nested := shows.nodes "items" [.items, .property "_id"]
  obtain rfl : _ = change := congrArg shapeProperties isChange
  exact ⟨by cases nested; assumption, rfl⟩

end ResourceApi
