import ResourceApi.Proofs.Json.FieldLaws

/-! # Values all the way down

Induction on a value goes to the items of arrays and the fields of objects. So does a
condition on single values that is asked of a value and of everything in it. The
condition that matters most is that no object names a field twice: it is what the
reader of JSON guarantees and what every look-up relies on. -/

namespace ResourceApi.Json

@[simp] theorem field?_obj (fields : Fields Json) (name : String) :
    (obj fields).field? name = fields.get? name := rfl

theorem sizeOf_lt_of_mem {fields : Fields Json} {name : String} {v : Json}
    (h : (name, v) ∈ fields) : sizeOf v < sizeOf (obj fields) := by
  have below := List.sizeOf_lt_of_mem h
  simp only [Prod.mk.sizeOf_spec] at below
  simp only [obj.sizeOf_spec]
  omega

theorem sizeOf_lt_of_get? {fields : Fields Json} {name : String} {v : Json}
    (h : fields.get? name = some v) : sizeOf v < sizeOf (obj fields) :=
  sizeOf_lt_of_mem (Fields.mem_of_get? h)

/-- Induction on a value: an array by its items, an object by the values of its fields. -/
@[elab_as_elim, induction_eliminator]
theorem ind {motive : Json → Prop} (null : motive null) (bool : ∀ b, motive (bool b))
    (int : ∀ n, motive (int n)) (float : ∀ x, motive (float x)) (str : ∀ s, motive (str s))
    (arr : ∀ items, (∀ v ∈ items, motive v) → motive (arr items))
    (obj : ∀ fields, (∀ f ∈ fields, motive f.2) → motive (obj fields)) : ∀ v, motive v
  | .null => null
  | .bool b => bool b
  | .int n => int n
  | .float x => float x
  | .str s => str s
  | .arr items => arr items fun v _ => ind null bool int float str arr obj v
  | .obj fields => obj fields fun f _ => ind null bool int float str arr obj f.2
termination_by v => sizeOf v
decreasing_by
  · simp only [Json.arr.sizeOf_spec]
    exact Nat.lt_add_left 1 (List.sizeOf_lt_of_mem ‹_›)
  · exact sizeOf_lt_of_mem ‹_›

theorem field?_eq_some {v w : Json} {name : String} :
    v.field? name = some w ↔ ∃ fields, v = obj fields ∧ Fields.get? fields name = some w := by
  cases v with
  | obj fields => simp
  | _ => simp [field?, fields?]

theorem sizeOf_lt_of_field? {v w : Json} {name : String} (h : v.field? name = some w) :
    sizeOf w < sizeOf v := by
  obtain ⟨fields, rfl, found⟩ := field?_eq_some.1 h
  exact sizeOf_lt_of_get? found

theorem isObj_eq_true {v : Json} : v.isObj = true ↔ ∃ fields, v = obj fields := by
  cases v <;> simp [isObj]

/-! ## A condition throughout a value -/

mutual
/-- Whether `p` holds of a value and of every value in it. -/
def throughout (p : Json → Bool) : Json → Bool
  | arr items => p (arr items) && throughoutItems p items
  | obj fields => p (obj fields) && throughoutFields p fields
  | v => p v

def throughoutItems (p : Json → Bool) : List Json → Bool
  | [] => true
  | v :: rest => throughout p v && throughoutItems p rest

def throughoutFields (p : Json → Bool) : List (String × Json) → Bool
  | [] => true
  | (_, v) :: rest => throughout p v && throughoutFields p rest
end

variable {p q : Json → Bool}

theorem throughoutItems_iff {items : List Json} :
    throughoutItems p items = true ↔ ∀ v ∈ items, throughout p v = true := by
  induction items with
  | nil => simp [throughoutItems]
  | cons v rest ih => simp [throughoutItems, ih]

theorem throughoutFields_iff {fields : Fields Json} :
    throughoutFields p fields = true ↔ ∀ f ∈ fields, throughout p f.2 = true := by
  induction fields with
  | nil => simp [throughoutFields]
  | cons f rest ih => simp [throughoutFields, ih]

theorem throughout_arr {items : List Json} :
    throughout p (arr items) = true ↔ p (arr items) = true ∧ ∀ v ∈ items, throughout p v = true := by
  rw [throughout, Bool.and_eq_true, throughoutItems_iff]

theorem throughout_obj {fields : Fields Json} :
    throughout p (obj fields) = true ↔
      p (obj fields) = true ∧ ∀ f ∈ fields, throughout p f.2 = true := by
  rw [throughout, Bool.and_eq_true, throughoutFields_iff]

theorem throughout_mono (weaker : ∀ v, p v = true → q v = true) (v : Json)
    (h : throughout p v = true) : throughout q v = true := by
  induction v with
  | null | bool | int | float | str => exact weaker _ h
  | arr items ih =>
    obtain ⟨here, each⟩ := throughout_arr.1 h
    exact throughout_arr.2 ⟨weaker _ here, fun w mem => ih w mem (each w mem)⟩
  | obj fields ih =>
    obtain ⟨here, each⟩ := throughout_obj.1 h
    exact throughout_obj.2 ⟨weaker _ here, fun f mem => ih f mem (each f mem)⟩

theorem throughout_get? {fields : Fields Json} {name : String} {v : Json}
    (h : throughout p (obj fields) = true) (found : fields.get? name = some v) :
    throughout p v = true :=
  (throughout_obj.1 h).2 _ (Fields.mem_of_get? found)

/-- A field put into an object, if the condition holds of the new object and of the value. -/
theorem throughout_put {fields : Fields Json} {name : String} {v : Json}
    (h : throughout p (obj fields) = true) (here : p (obj (Fields.put fields name v)) = true)
    (value : throughout p v = true) : throughout p (obj (Fields.put fields name v)) = true := by
  refine throughout_obj.2 ⟨here, ?_⟩
  intro f mem
  rcases Fields.mem_put mem with rfl | old
  · exact value
  · exact (throughout_obj.1 h).2 f old

/-! ## Objects that name no field twice -/

def namesDistinct : Json → Bool
  | obj fields => decide (Fields.names fields).Nodup
  | _ => true

/-- No object in the value names a field twice. -/
def Distinct (v : Json) : Prop := v.throughout namesDistinct = true

instance (v : Json) : Decidable v.Distinct := inferInstanceAs (Decidable (_ = true))

theorem distinct_obj {fields : Fields Json} :
    (obj fields).Distinct ↔ fields.names.Nodup ∧ ∀ f ∈ fields, f.2.Distinct := by
  unfold Distinct
  rw [throughout_obj, namesDistinct, decide_eq_true_eq]

namespace Distinct

theorem nodup {fields : Fields Json} (h : (obj fields).Distinct) : fields.names.Nodup :=
  (distinct_obj.1 h).1

theorem get? {fields : Fields Json} {name : String} {v : Json} (h : (obj fields).Distinct)
    (found : fields.get? name = some v) : v.Distinct := throughout_get? h found

theorem field? {v w : Json} {name : String} (h : v.Distinct) (found : v.field? name = some w) :
    w.Distinct := by
  obtain ⟨fields, rfl, found⟩ := field?_eq_some.1 found
  exact h.get? found

end Distinct

end ResourceApi.Json
