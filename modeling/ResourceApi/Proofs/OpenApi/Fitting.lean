import ResourceApi.Proofs.OpenApi.Entries

/-! # Values that fit a shape

A value fits a shape if nothing is found in it. What that comes to is said here once for
every kind of shape that occurs in a generated document, so that nothing else opens the
walk over the value. -/

namespace ResourceApi.OpenApi

variable {v : Json} {s : Shape} {fields : Fields Json} {items : List Json} {key other : String}

/-- Nothing is found in the value that the shape does not allow. -/
def Fits (v : Json) (s : Shape) : Prop := check v s = []

/-! ## Scalars, lists and maps -/

@[simp] theorem fits_text : Fits v .text ↔ ∃ text, v = .str text := by
  cases v <;> simp [Fits, check, Node.check, Node.here, Node.asScalar, Scalar.readText, Scalar.decoded]

@[simp] theorem fits_truth (b : Bool) : Fits (.bool b) .truth := rfl

@[simp] theorem fits_oneOf {names : List String} {text : String} :
    Fits (.str text) (.oneOf names) ↔ text ∈ names := by
  simp [Fits, check, Node.check]

theorem fits_nullable : Fits v (.nullable s) ↔ v = .null ∨ Fits v s := by
  cases v <;> simp [Fits, check, Node.check]

theorem checkItems_eq_nil (item : Shape) (position : Nat) :
    Node.checkItems item position (checks items) = [] ↔ ∀ v ∈ items, Fits v item := by
  induction items generalizing position with
  | nil => simp [checks, Node.checkItems]
  | cons v rest ih => simp [checks, Node.checkItems, ih, Fits]

@[simp] theorem fits_list {item : Shape} : Fits (.arr items) (list item) ↔ ∀ v ∈ items, Fits v item := by
  cases items with
  | nil => simp [Fits, list, check, Node.check, checks]
  | cons v rest =>
    rw [← checkItems_eq_nil item 0]
    simp [Fits, list, check, Node.check, checks]

@[simp] theorem fits_map : Fits (.obj fields) (.map s) ↔ ∀ f ∈ fields, Fits f.2 s := by
  rw [Fits, check, Node.check]
  exact checkValues_eq_nil

/-- A value fits a union if it fits one of the members. -/
theorem fits_union {members : List (String × Shape)} (some : members ≠ []) :
    Fits v (.union members) ↔ ∃ m ∈ members, Fits v m.2 := by
  cases v <;> exact Node.check_union_eq_nil some

/-! ## Records -/

/-- The value that a record reads for one of its fields, by either spelling. -/
def FieldRule.value? (rule : FieldRule) (fields : Fields Json) : Option Json :=
  (fields.get? rule.key).or (rule.alternative.bind fields.get?)

/-- The field fits that a record reads, or may be missing. -/
def FieldRule.Holds (rule : FieldRule) (fields : Fields Json) : Prop :=
  match rule.value? fields with
  | some v => Fits v rule.shape
  | none => rule.required = false

theorem get?_fieldChecks (fields : Fields Json) (name : String) :
    Fields.get? (fieldChecks fields) name = (fields.get? name).map check := by
  induction fields with
  | nil => rfl
  | cons f rest ih =>
    rw [fieldChecks, Fields.get?_cons, Fields.get?_cons, ih]
    split <;> rfl

theorem checkField_eq_nil {rule : FieldRule} :
    Node.checkField (fieldChecks fields) rule = [] ↔ rule.Holds fields := by
  unfold Node.checkField FieldRule.Holds FieldRule.value?
  simp only [get?_fieldChecks]
  cases fields.get? rule.key with
  | some v => simp [Fits]
  | none =>
    cases rule.alternative with
    | none => simp
    | some other => cases found : fields.get? other <;> simp [Fits, found]

theorem fits_record {r : Record} :
    Fits (.obj fields) (.record r) ↔ ∀ rule ∈ r.fields, rule.Holds fields := by
  rw [Fits, check, Node.check, List.flatMap_eq_nil_iff]
  simp only [checkField_eq_nil]

@[simp] theorem holds_needed :
    (FieldRule.needed key s).Holds fields ↔ ∃ v, fields.get? key = some v ∧ Fits v s := by
  unfold FieldRule.Holds FieldRule.value? FieldRule.needed
  cases fields.get? key <;> simp

@[simp] theorem holds_defaulted :
    (FieldRule.defaulted key s).Holds fields ↔ ∀ v, fields.get? key = some v → Fits v s := by
  unfold FieldRule.Holds FieldRule.value? FieldRule.defaulted
  cases fields.get? key <;> simp

@[simp] theorem holds_optional :
    (FieldRule.optional key s).Holds fields ↔
      ∀ v, fields.get? key = some v → v = .null ∨ Fits v s := by
  unfold FieldRule.Holds FieldRule.value? FieldRule.optional
  cases fields.get? key <;> simp [fits_nullable]

@[simp] theorem holds_needed_orElse :
    ((FieldRule.needed key s).orElse other).Holds fields ↔
      ∃ v, (fields.get? key).or (fields.get? other) = some v ∧ Fits v s := by
  unfold FieldRule.Holds FieldRule.value? FieldRule.orElse FieldRule.needed
  dsimp only [Option.bind_some]
  cases (fields.get? key).or (fields.get? other) <;> simp

@[simp] theorem holds_optional_orElse :
    ((FieldRule.optional key s).orElse other).Holds fields ↔
      ∀ v, (fields.get? key).or (fields.get? other) = some v → v = .null ∨ Fits v s := by
  unfold FieldRule.Holds FieldRule.value? FieldRule.orElse FieldRule.optional
  dsimp only [Option.bind_some]
  cases (fields.get? key).or (fields.get? other) <;> simp [fits_nullable]

/-! ## References -/

/-- The fields hold no address of a reference, in neither spelling. -/
structure Unaddressed (fields : Fields Json) : Prop where
  first : fields.get? "$ref" = none
  second : fields.get? "ref" = none

namespace Unaddressed

/-- What has no address is no reference. -/
theorem not_fits_reference (h : Unaddressed fields) :
    ¬ Fits (.obj fields) (.record .reference) := by
  simp [fits_record, Record.fields, h.first, h.second]

theorem fits_orReference (h : Unaddressed fields) {r : Record} :
    Fits (.obj fields) (orReference r) ↔ Fits (.obj fields) (.record r) := by
  rw [orReference, fits_union (List.cons_ne_nil _ _)]
  simp [h.not_fits_reference]

theorem fits_schemaShape (h : Unaddressed fields) :
    Fits (.obj fields) schemaShape ↔ Fits (.obj fields) (.record .schema) := by
  rw [schemaShape, fits_union (List.cons_ne_nil _ _)]
  simp [h.not_fits_reference]

end Unaddressed

end ResourceApi.OpenApi
