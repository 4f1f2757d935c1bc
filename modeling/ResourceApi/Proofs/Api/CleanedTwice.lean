import ResourceApi.Proofs.Api.Cleaned

/-! # Cleaning again

Cleaning takes no part of a value away that a later removal looks at: what is an object
stays one, and everything that may be a truth value or empty stays as it is. So cleaning a
cleaned node again takes away what either of the two removals takes away, and the two can
be made one. -/

namespace ResourceApi.Removal

/-- Takes away what either of two removals takes away. -/
def both (r s : Removal) : Removal := ⟨r.keys ++ s.keys, r.flags ++ s.flags⟩

variable (r s : Removal)

theorem drops_both (key : String) (v : Json) :
    (r.both s).drops key v = (r.drops key v || s.drops key v) := by
  unfold both drops
  rw [List.contains_append, List.contains_append]
  cases isBool v <;> grind

/-- Whether a field is taken away does not hang on what is cleaned in its value. -/
theorem drops_cleanValue (key : String) (v : Json) :
    s.drops key (r.cleanValue key v) = s.drops key v := by
  cases v with
  | obj fields =>
    rw [cleanValue]
    split
    · next properties => simp [drops, isBool, properties]
    · split
      · next items => simp [drops, isBool, items]
      · rfl
  | null | bool | int | float | str | arr => rfl

mutual
theorem cleanFields_cleanFields :
    ∀ fields, s.cleanFields (r.cleanFields fields) = (r.both s).cleanFields fields
  | [] => rfl
  | (key, value) :: rest => by
    have later := cleanFields_cleanFields rest
    rw [cleanFields, cleanFields, drops_both]
    cases r.drops key value with
    | true => simpa using later
    | false =>
      rw [if_neg Bool.false_ne_true, cleanFields, drops_cleanValue, Bool.false_or,
        cleanValue_cleanValue key value, later]

theorem cleanValue_cleanValue (key : String) :
    ∀ v, s.cleanValue key (r.cleanValue key v) = (r.both s).cleanValue key v
  | .obj fields => by
    rw [cleanValue, cleanValue]
    split
    · next properties => rw [cleanValue, if_pos properties, cleanEach_cleanEach fields]
    · next other =>
      split
      · next items =>
        rw [cleanValue, if_neg other, if_pos items, cleanFields_cleanFields fields]
      · next neither => rw [cleanValue, if_neg other, if_neg neither]
  | .null | .bool _ | .int _ | .float _ | .str _ | .arr _ => rfl

theorem cleanEach_cleanEach :
    ∀ properties, s.cleanEach (r.cleanEach properties) = (r.both s).cleanEach properties
  | [] => rfl
  | (name, value) :: rest => by
    rw [cleanEach, cleanEach, cleanEach, cleanProperty_cleanProperty value,
      cleanEach_cleanEach rest]

/-- Cleaning a cleaned node is cleaning it once with both removals. -/
theorem cleanProperty_cleanProperty :
    ∀ node, s.cleanProperty (r.cleanProperty node) = (r.both s).cleanProperty node
  | .obj fields => by
    rw [cleanProperty, cleanProperty, cleanProperty, cleanFields_cleanFields fields]
  | .null | .bool _ | .int _ | .float _ | .str _ | .arr _ => rfl
end

end ResourceApi.Removal
