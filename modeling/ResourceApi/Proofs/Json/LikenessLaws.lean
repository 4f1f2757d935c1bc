import ResourceApi.Json.Likeness
import ResourceApi.Proofs.Json.Throughout

/-! # Laws of likeness

Every value is like itself, if no object in it names a field twice. Likeness says less
than equality, but it loses nothing of a text, and between an object and one that has
all its fields, in the same order, and perhaps more behind them it sees a new field. -/

namespace ResourceApi.Json

variable {v : Json} {items others : List Json} {fields old new : Fields Json}

theorem alikeFields_iff {others : Fields Json} : alikeFields fields others = true ↔
    ∀ f ∈ fields, ∃ w, others.get? f.1 = some w ∧ f.2.alike w = true := by
  induction fields with
  | nil => simp [alikeFields]
  | cons f rest ih =>
    obtain ⟨name, v⟩ := f
    rw [alikeFields, Bool.and_eq_true, ih, List.forall_mem_cons]
    cases others.get? name <;> simp

theorem alike_obj {others : Fields Json} : (obj fields).alike (obj others) = true ↔
    fields.length = others.length ∧
      ∀ f ∈ fields, ∃ w, others.get? f.1 = some w ∧ f.2.alike w = true := by
  simp [alike, fields?, alikeFields_iff]

theorem alikeItems_self (each : ∀ v ∈ items, v.alike v = true) : alikeItems items items = true := by
  induction items with
  | nil => rfl
  | cons v rest ih =>
    rw [List.forall_mem_cons] at each
    rw [alikeItems, each.1, ih each.2]
    rfl

theorem distinct_arr : (arr items).Distinct ↔ ∀ v ∈ items, v.Distinct :=
  throughout_arr.trans (and_iff_right rfl)

theorem alike_self (v : Json) (distinct : v.Distinct) : v.alike v = true := by
  induction v with
  | null => rfl
  | bool | int | float | str => simp [alike, quantity?, str?]
  | arr items ih =>
    exact alikeItems_self fun w mem => ih w mem (distinct_arr.1 distinct w mem)
  | obj fields ih =>
    refine alike_obj.2 ⟨rfl, fun f mem => ?_⟩
    have below := (distinct_obj.1 distinct).2 f mem
    exact ⟨f.2, Fields.get?_of_mem distinct.nodup mem, ih f mem below⟩

/-! ## What likeness sees -/

theorem alike_str {s : String} : v.alike (str s) = true ↔ v = str s := by
  cases v <;> simp [alike, isNull, quantity?, str?, items?, fields?, eq_comm]

theorem alikeItems_texts {texts : List String} :
    alikeItems items (texts.map str) = true ↔ items = texts.map str := by
  induction items generalizing texts with
  | nil => cases texts <;> simp [alikeItems]
  | cons v rest ih =>
    cases texts with
    | nil => simp [alikeItems]
    | cons s texts => simp [alikeItems, ih, alike_str]

/-- Nothing but a list of texts is like it. -/
theorem alike_texts {texts : List String} :
    v.alike (arr (texts.map str)) = true ↔ v = arr (texts.map str) := by
  cases v <;> simp [alike, isNull, quantity?, str?, items?, fields?, alikeItems_texts]

/-- An object is like one with new fields behind its own only if there are none. -/
theorem names_eq_of_alike (grown : old.names <+: new.names)
    (like : (obj old).alike (obj new) = true) : new.names = old.names := by
  refine (grown.eq_of_length ?_).symm
  rw [Fields.names, List.length_map, Fields.names, List.length_map]
  exact (alike_obj.1 like).1

/-- So every field of the other is its own field, with a value that is like it. -/
theorem get?_of_alike (grown : old.names <+: new.names) (like : (obj old).alike (obj new) = true)
    {name : String} {w : Json} (found : new.get? name = some w) :
    ∃ v, old.get? name = some v ∧ v.alike w = true := by
  have named : name ∈ old.names := names_eq_of_alike grown like ▸ Fields.mem_names_of_get? found
  obtain ⟨v, here⟩ := Fields.exists_of_mem_names named
  obtain ⟨w', found', alike⟩ := (alike_obj.1 like).2 _ (Fields.mem_of_get? here)
  rw [found] at found'
  exact ⟨v, here, Option.some.inj found' ▸ alike⟩

end ResourceApi.Json
