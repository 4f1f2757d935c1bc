import ResourceApi.Proofs.Json.FieldLaws

/-! # Fields entry by entry

Two objects that name the same fields in the same order, and hold related values under each
of the names. Putting and merging related values into both keeps them so. -/

namespace ResourceApi.Fields

variable {α β γ : Type}

/-- The same names in the same order, with related values. -/
inductive Entrywise (R : String → α → β → Prop) : Fields α → Fields β → Prop
  | nil : Entrywise R [] []
  | cons {name : String} {v : α} {w : β} {fs : Fields α} {gs : Fields β} (related : R name v w)
      (rest : Entrywise R fs gs) : Entrywise R ((name, v) :: fs) ((name, w) :: gs)

namespace Entrywise

variable {R : String → α → β → Prop} {fs new : Fields α} {gs new' : Fields β}

theorem names (h : Entrywise R fs gs) : gs.names = fs.names := by
  induction h with
  | nil => rfl
  | cons _ _ ih => rw [names_cons, names_cons, ih]

/-- Looking up a name finds related values, or nothing in both. -/
theorem get? (h : Entrywise R fs gs) (name : String) :
    Option.Rel (R name) (fs.get? name) (gs.get? name) := by
  induction h with
  | nil => exact .none
  | cons related _ ih =>
    rw [get?_cons, get?_cons]
    split
    · next same => exact .some (same ▸ related)
    · exact ih

theorem put {name : String} {v : α} {w : β} (h : Entrywise R fs gs) (related : R name v w) :
    Entrywise R (fs.put name v) (gs.put name w) := by
  induction h with
  | nil => exact .cons related .nil
  | cons head rest ih =>
    rw [Fields.put, Fields.put]
    split
    · next same => exact .cons (same ▸ related) rest
    · exact .cons head ih

theorem merge (h : Entrywise R fs gs) (more : Entrywise R new new') :
    Entrywise R (fs.merge new) (gs.merge new') := by
  induction more generalizing fs gs with
  | nil => exact h
  | cons related _ ih => exact ih (h.put related)

theorem append (h : Entrywise R fs gs) (more : Entrywise R new new') :
    Entrywise R (fs ++ new) (gs ++ new') := by
  induction h with
  | nil => exact more
  | cons related _ ih => exact .cons related ih

theorem flatMap {l : List γ} {f : γ → Fields α} {g : γ → Fields β}
    (each : ∀ x ∈ l, Entrywise R (f x) (g x)) : Entrywise R (l.flatMap f) (l.flatMap g) := by
  induction l with
  | nil => exact .nil
  | cons x rest ih =>
    rw [List.forall_mem_cons] at each
    rw [List.flatMap_cons, List.flatMap_cons]
    exact each.1.append (ih each.2)

end Entrywise
end ResourceApi.Fields
