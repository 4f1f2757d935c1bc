import ResourceApi.Json.Basic
import ResourceApi.OpenApi.Records
import ResourceApi.Validation.Scalar

/-! # Checking the shape of a value

A value is checked from the inside out: the checks of its parts are functions of
the shape that the part will be held to, and the check of the whole asks them. So
the walk follows the value, while shapes refer to records by name and may be
recursive. -/

namespace ResourceApi.OpenApi

/-- What a value lacks, as a function of the shape it is held to. -/
abbrev Check := Shape → List Finding

/-- A value one level deep: its parts are given by their checks. -/
inductive Node where
  | null
  | scalar (s : Scalar)
  | list (items : List Check)
  | map (fields : Fields Check)

namespace Node

def asScalar : Node → Scalar
  | scalar s => s
  | _ => .other

def here {α : Type} : Except Fault α → List Finding
  | .ok _ => []
  | .error f => [⟨[], f⟩]

/-- The findings in the parts of a list held to one shape. -/
def checkItems (item : Shape) (position : Nat) : List Check → List Finding
  | [] => []
  | c :: rest =>
    (c item).map (Finding.under (toString position)) ++ checkItems item (position + 1) rest

def checkValues (value : Shape) (fields : Fields Check) : List Finding :=
  fields.flatMap fun f => (f.2 value).map (Finding.under f.1)

/-- The finding of one field of a record, by either spelling. -/
def checkField (fields : Fields Check) (rule : FieldRule) : List Finding :=
  let found := (fields.get? rule.key).map (rule.key, ·)
  let found := found.orElse fun _ =>
    rule.alternative.bind fun other => (fields.get? other).map (other, ·)
  match found with
  | some (name, check) => (check rule.shape).map (Finding.under name)
  | none => if rule.required then [⟨[rule.key], .missing⟩] else []

mutual
/-- What a value of known parts lacks. -/
def check (node : Node) : Shape → List Finding
  | .anything => []
  | .text => here node.asScalar.readText
  | .truth => here node.asScalar.readBool
  | .count => here node.asScalar.readCount
  | .number => here node.asScalar.readNumber
  | .positive => here node.asScalar.readPositive
  | .oneOf names => match node with
    | scalar (.text s) => if names.contains s then [] else [⟨[], .notOneOf names⟩]
    | _ => [⟨[], .notOneOf names⟩]
  | .list mayBeEmpty item => match node with
    | list [] => if mayBeEmpty then [] else [⟨[], .emptyList⟩]
    | list items => checkItems item 0 items
    | _ => [⟨[], .notList⟩]
  | .map value => match node with
    | map fields => checkValues value fields
    | _ => [⟨[], .notObject⟩]
  | .record r => match node with
    | map fields => r.fields.flatMap (checkField fields)
    | _ => [⟨[], .notRecord r.name⟩]
  | .nullable s => match node with
    | null => []
    | _ => check node s
  | .union members =>
    let results := checkMembers node members
    if results.any List.isEmpty then [] else results.flatten

/-- What the value lacks of each shape of a union. -/
def checkMembers (node : Node) : List (String × Shape) → List (List Finding)
  | [] => []
  | (label, s) :: rest => (check node s).map (Finding.under label) :: checkMembers node rest
end

theorem checkMembers_eq (node : Node) (members : List (String × Shape)) :
    node.checkMembers members = members.map fun m => (node.check m.2).map (Finding.under m.1) := by
  induction members with
  | nil => rfl
  | cons m rest ih => rw [checkMembers, ih, List.map_cons]

/-- A node lacks nothing of a union if it lacks nothing of one of its members. -/
theorem check_union_eq_nil {node : Node} {members : List (String × Shape)} (some : members ≠ []) :
    node.check (.union members) = [] ↔ ∃ m ∈ members, node.check m.2 = [] := by
  rw [check, checkMembers_eq, List.any_map]
  split
  · next fits => simpa using fits
  · next none =>
    -- each member has a finding, and there is a member
    obtain ⟨m, rest, rfl⟩ := List.exists_cons_of_ne_nil some
    simp only [List.any_eq_true, Function.comp_apply, List.isEmpty_iff, List.map_eq_nil_iff,
      not_exists, not_and] at none
    refine iff_of_false (fun empty => ?_) (by simpa using none)
    simp [none m] at empty

end Node

mutual
/-- What a value lacks of a shape. -/
def check : Json → Check
  | .null => Node.null.check
  | .bool b => (Node.scalar (.bool b)).check
  | .int n => (Node.scalar (.int n)).check
  | .float x => (Node.scalar (.float x)).check
  | .str s => (Node.scalar (.text s)).check
  | .arr items => (Node.list (checks items)).check
  | .obj fields => (Node.map (fieldChecks fields)).check

def checks : List Json → List Check
  | [] => []
  | v :: rest => check v :: checks rest

def fieldChecks : List (String × Json) → Fields Check
  | [] => []
  | (name, v) :: rest => (name, check v) :: fieldChecks rest
end

/-- What a value lacks of an API description. -/
def findings (document : Json) : List Finding := check document (.record .openApi)

/-- The faults of a document by their places. Of several at one place the last counts. -/
def faults (document : Json) : Fields Fault :=
  .ofPairs ((findings document).map fun f => (f.location, f.fault))

end ResourceApi.OpenApi
