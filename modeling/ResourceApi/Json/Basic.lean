import ResourceApi.Json.Fields
import ResourceApi.Number.Binary64

/-! # JSON values

Integers of any size and doubles are different kinds of number, and objects keep
the order of their fields. -/

namespace ResourceApi

inductive Json where
  | null
  | bool (b : Bool)
  | int (n : Int)
  | float (x : Binary64)
  | str (s : String)
  | arr (items : List Json)
  | obj (fields : List (String × Json))

namespace Json

instance : Inhabited Json := ⟨null⟩

mutual
/-- Equality of values: the same kind, and for objects the same fields in the same order. -/
def same : Json → Json → Bool
  | null, null => true
  | bool a, bool b => a == b
  | int a, int b => a == b
  | float a, float b => decide (a = b)
  | str a, str b => a == b
  | arr a, arr b => sameItems a b
  | obj a, obj b => sameFields a b
  | _, _ => false

def sameItems : List Json → List Json → Bool
  | [], [] => true
  | a :: as, b :: bs => same a b && sameItems as bs
  | _, _ => false

def sameFields : List (String × Json) → List (String × Json) → Bool
  | [], [] => true
  | (m, a) :: as, (n, b) :: bs => m == n && same a b && sameFields as bs
  | _, _ => false
end

mutual
theorem same_iff : ∀ a b : Json, same a b = true ↔ a = b
  | null, b => by cases b <;> simp [same]
  | bool x, b => by cases b <;> simp [same]
  | int x, b => by cases b <;> simp [same]
  | float x, b => by cases b <;> simp [same]
  | str x, b => by cases b <;> simp [same]
  | arr x, b => by cases b <;> simp [same, sameItems_iff x]
  | obj x, b => by cases b <;> simp [same, sameFields_iff x]

theorem sameItems_iff : ∀ as bs : List Json, sameItems as bs = true ↔ as = bs
  | [], bs => by cases bs <;> simp [sameItems]
  | a :: as, bs => by cases bs <;> simp [sameItems, same_iff a, sameItems_iff as]

theorem sameFields_iff : ∀ as bs : List (String × Json), sameFields as bs = true ↔ as = bs
  | [], bs => by cases bs <;> simp [sameFields]
  | (m, a) :: as, bs => by
    cases bs with
    | nil => simp [sameFields]
    | cons b bs =>
      obtain ⟨n, b⟩ := b
      simp [sameFields, same_iff a, sameFields_iff as]
end

instance : DecidableEq Json := fun a b => decidable_of_iff _ (same_iff a b)

/-- What a condition takes for no: null, false, zero, and every empty text, array and object. -/
def isFalsy : Json → Bool
  | null => true
  | bool b => !b
  | int n => n == 0
  | float x => x.isZero
  | str s => s == ""
  | arr items => items.isEmpty
  | obj fields => fields.isEmpty

def isNull : Json → Bool
  | null => true
  | _ => false

def isObj : Json → Bool
  | obj _ => true
  | _ => false

def fields? : Json → Option (Fields Json)
  | obj fields => some fields
  | _ => none

def str? : Json → Option String
  | str s => some s
  | _ => none

def items? : Json → Option (List Json)
  | arr items => some items
  | _ => none

/-- The value of a field; none if the value is no object or lacks the field. -/
def field? (v : Json) (name : String) : Option Json := v.fields?.bind (·.get? name)

end Json

namespace Fields

/-- The value of a field that is there and is not null. -/
def nonNull? (fs : Fields Json) (name : String) : Option Json :=
  (fs.get? name).filter (!·.isNull)

end Fields
end ResourceApi
