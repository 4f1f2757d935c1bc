import ResourceApi.Proofs.Api.Cleaned

/-! # Required flags in request bodies

A request body is made of the cleaned properties of a normal form and the list of its
root. Cleaning takes the flags away from all properties. Where normalizing has followed
the way to a node, its flags have become names in its list, and the list is kept; a
node that normalizing does not go to loses its flags unless it lists them itself. -/

namespace ResourceApi

open Required

/-- What is taken away from the properties of a request body. -/
abbrev bodyRemoval : Removal := ⟨[], markers⟩

/-- The body of a request that gives every part of a resource, its identifier included. -/
def requestBody (normal : Fields Json) : Except Problem Json :=
  (properties normal).map fun ps =>
    .obj (bodyShape ps ((names ((normal.get? "required").getD .null)).map .str))

namespace Required

variable {node p : Json} {name : String} {way : List Step}

theorem keepsNodes_bodyRemoval : bodyRemoval.KeepsNodes where
  properties _ := rfl
  items _ := rfl

/-- A list that names something is not taken away. -/
theorem Requires.cleaned (distinct : node.Distinct) (requires : Requires node name) :
    Requires (bodyRemoval.cleanProperty node) name := by
  obtain ⟨listed, isList, mem⟩ := requires
  refine ⟨listed, ?_, mem⟩
  have some : listed.isEmpty = false := List.isEmpty_eq_false_iff.2 (List.ne_nil_of_mem mem)
  have stays : bodyRemoval.drops "required" (.arr listed) = false := by
    rw [Removal.drops, Json.isFalsy, some]
    rfl
  rw [Removal.field?_cleanProperty distinct, isList, Option.bind_some, stays]
  rfl

/-- A flag is taken away. -/
theorem required_cleaned (distinct : p.Distinct) {b : Bool}
    (flag : p.field? "required" = some (.bool b)) :
    (bodyRemoval.cleanProperty p).field? "required" = none := by
  rw [Removal.field?_cleanProperty distinct, flag]
  rfl

/-! ## The root of a body -/

variable {ps : Fields Json} {listed : List Json}

theorem property?_body (name : String) :
    property? (.obj (bodyShape ps listed)) name = (ps.get? name).map bodyRemoval.cleanProperty :=
  Removal.get?_cleanEach ps name

theorem requires_body (mem : .str name ∈ listed) : Requires (.obj (bodyShape ps listed)) name := by
  refine ⟨listed, ?_, mem⟩
  have some : listed.isEmpty = false := List.isEmpty_eq_false_iff.2 (List.ne_nil_of_mem mem)
  rw [bodyShape, objectShape, some]
  rfl

/-- Below a property of a body, there are the cleaned nodes of the normal form. -/
theorem at?_of_property? {normal : Fields Json} {body : Json} (distinct : (Json.obj normal).Distinct)
    (ofNormal : normal.get? "properties" = some (.obj ps))
    (here : property? body name = (ps.get? name).map bodyRemoval.cleanProperty) (rest : List Step) :
    at? body (.property name :: rest) =
      (at? (.obj normal) (.property name :: rest)).map bodyRemoval.cleanProperty := by
  rw [at?, at?, below?, below?, here, property?_of_get? ofNormal]
  cases found : ps.get? name with
  | none => rfl
  | some q =>
    have distinct' := (distinct.get? ofNormal).get? found
    exact Removal.at?_cleanProperty keepsNodes_bodyRemoval distinct' rest

/-- Below its root, the body holds the cleaned nodes of the normal form. -/
theorem at?_body {normal : Fields Json} (distinct : (Json.obj normal).Distinct)
    (ofNormal : normal.get? "properties" = some (.obj ps)) (name : String) (rest : List Step) :
    at? (.obj (bodyShape ps listed)) (.property name :: rest) =
      (at? (.obj normal) (.property name :: rest)).map bodyRemoval.cleanProperty :=
  at?_of_property? distinct ofNormal (property?_body name) rest

end Required

/-- **No flag that normalizing follows the way to is lost in a request body.** Wherever a property
below the root of a schema has the flag and is no object, the body has its node at the same
position, and the property there without the flag; and the node lists the property if
normalizing follows the way to it, or if it did so from the start. -/
theorem requestBody_requires {schema normal : Fields Json} (distinct : (Json.obj schema).Distinct)
    (h : normalForm schema = .ok normal) {way : List Step} {n p : Json} {name : String}
    (there : at? (.obj schema) way = some n) (start : way.head? ≠ some .items)
    (isProperty : property? n name = some p) (other : isObject p = false)
    (flag : p.field? "required" = some (.bool true)) :
    ∃ body n', requestBody normal = .ok body ∧ at? body way = some n' ∧
      (∃ q, property? n' name = some q ∧ q.field? "required" = none) ∧
      (Follows (.obj (prepared schema)) way ∨ Requires n name → Requires n' name) := by
  obtain ⟨m, there', ⟨q, isProperty', flag'⟩, requires⟩ :=
    flag_of_normalForm distinct h there isProperty other flag
  have distinct' := normalForm_distinct h distinct
  have distinctM := distinct_at? distinct' there'
  have unflagged := required_cleaned (distinct_property? distinctM isProperty') flag'
  obtain ⟨ps, isPs, -⟩ := (settled_of_normalForm h distinct .refl).properties
  rw [Json.field?_obj] at isPs
  have bodyOf : requestBody normal =
      .ok (.obj (bodyShape ps ((names ((normal.get? "required").getD .null)).map .str))) := by
    rw [requestBody, properties, isPs]
    rfl
  match way with
  | [] =>
    -- the body has the names of the root's list
    obtain rfl : .obj normal = m := Option.some.inj there'
    rw [property?_of_get? isPs] at isProperty'
    refine ⟨_, _, bodyOf, rfl, ⟨_, ?_, unflagged⟩, fun listed => ?_⟩
    · rw [property?_body, isProperty']
      rfl
    · obtain ⟨items, isList, mem⟩ := requires listed
      refine requires_body (List.mem_map_of_mem ?_)
      rw [Json.field?_obj] at isList
      rw [isList]
      exact List.mem_filterMap.2 ⟨_, mem, rfl⟩
  | .property first :: rest =>
    refine ⟨_, bodyRemoval.cleanProperty m, bodyOf, ?_, ⟨_, ?_, unflagged⟩, fun listed => ?_⟩
    · rw [at?_body distinct' isPs, there']
      rfl
    · rw [Removal.property?_cleanProperty keepsNodes_bodyRemoval distinctM, isProperty']
      rfl
    · exact (requires listed).cleaned distinctM
  | .items :: rest => exact absurd rfl start

/-- The flag of an item's number below an array of orders becomes a name in the body. -/
theorem requestBody_requires_lines : ∃ body items,
    requestBody orderNormal = .ok body ∧ at? body [.property "lines", .items] = some items ∧
      (∃ q, property? items "sku" = some q ∧ q.field? "required" = none) ∧
      Requires items "sku" := by
  have follows : Follows (.obj (prepared orderSchema)) [.property "lines", .items] :=
    .property rfl rfl (.items rfl rfl (.here rfl))
  obtain ⟨body, items, bodyOf, there, unflagged, requires⟩ :=
    requestBody_requires (by decide) normalForm_orderSchema
      (show at? (.obj orderSchema) [.property "lines", .items] = some _ from rfl) (by decide)
      (show property? _ "sku" = some _ from rfl) rfl rfl
  exact ⟨body, items, bodyOf, there, unflagged, requires (.inl follows)⟩

/-! ## A flag that is lost -/

/-- A resource with a property that has properties of its own but no type. -/
def statusSchema : Fields Json := [
  ("type", .str "object"),
  ("x-documentConfig", .obj [("documentName", .str "Status"), ("interfaceName", .str "Status"),
    ("methods", .arr [.str "put"])]),
  ("properties", .obj [
    ("meta", .obj [("properties", .obj [
      ("note", .obj [("type", .str "string"), ("required", .bool true)])])])])]

/-- Normalizing does not go to the node without a type, and cleaning does. -/
theorem requestBody_drops_flag : ∃ normal body n n' p,
    normalForm statusSchema = .ok normal ∧ requestBody normal = .ok body ∧
    at? (.obj statusSchema) [.property "meta"] = some n ∧ property? n "note" = some p ∧
    isObject p = false ∧ p.field? "required" = some (.bool true) ∧
    at? body [.property "meta"] = some n' ∧
    property? n' "note" = some (.obj [("type", .str "string")]) ∧ ¬ Requires n' "note" := by
  refine ⟨_, _, _, _, _, rfl, rfl, rfl, rfl, rfl, rfl, rfl, rfl, ?_⟩
  rintro ⟨listed, isList, -⟩
  cases isList

end ResourceApi
