import ResourceApi.Proofs.Json.RoundTrip

/-! # Texts of numbers and words

Numbers, truth values and null are written with digits, a few letters and a few signs.
What no such character does, their texts do not do. -/

namespace ResourceApi.Json

def atomChars : List Char := "0123456789+-.INaefilnrstuy".toList

/-- Only characters of numbers and words. -/
def Atomic (cs : List Char) : Prop := ∀ x ∈ cs, x ∈ atomChars

-- decided over the text, not over all characters there are
instance (cs : List Char) : Decidable (Atomic cs) := List.decidableBAll (· ∈ atomChars) cs

theorem atomic_append {cs ds : List Char} : Atomic (cs ++ ds) ↔ Atomic cs ∧ Atomic ds :=
  List.forall_mem_append

theorem atomic_cons {c : Char} {cs : List Char} :
    Atomic (c :: cs) ↔ c ∈ atomChars ∧ Atomic cs := List.forall_mem_cons

theorem Digits.atomic {ds : List Char} (digits : Digits ds) : Atomic ds := by
  have each : Atomic "0123456789".toList := by decide
  exact fun x mem => each x (mem_of_isDigit (digits x mem))

theorem atomic_decimal (d : Decimal) : Atomic (d.write floatStyle).toList := by
  have digits (n : Nat) := (digits_toDigits n).atomic
  have zeros (n : Nat) := (digits_zeros n).atomic
  have taken (k n : Nat) : Atomic ((Nat.toDigits 10 n).take k) :=
    (digits_sublist (digits_toDigits n) (List.take_sublist _ _)).atomic
  have dropped (k n : Nat) : Atomic ((Nat.toDigits 10 n).drop k) :=
    (digits_sublist (digits_toDigits n) (List.drop_sublist _ _)).atomic
  rw [Decimal.write]
  dsimp only
  split
  · rw [String.toList_ofList]
    refine atomic_append.2 ⟨atomic_append.2 ⟨atomic_append.2 ⟨taken _ _, ?_⟩, ?_⟩, digits _⟩
    · have more := dropped 1 d.digits
      generalize (Nat.toDigits 10 d.digits).drop 1 = ds at *
      cases ds with
      | nil => exact (by decide : Atomic [])
      | cons c ds => exact atomic_cons.2 ⟨by decide, more⟩
    · refine atomic_cons.2 ⟨by decide, atomic_cons.2 ⟨?_, zeros _⟩⟩
      split <;> decide
  split
  · rw [String.toList_ofList]
    exact atomic_append.2
      ⟨atomic_cons.2 ⟨by decide, atomic_cons.2 ⟨by decide, zeros _⟩⟩, digits _⟩
  · rw [String.toList_ofList]
    refine atomic_append.2 ⟨atomic_append.2 ⟨taken _ _, zeros _⟩, atomic_cons.2 ⟨by decide, ?_⟩⟩
    split
    · decide
    · exact dropped _ _

theorem atomic_int (n : Int) : Atomic (writeAtom (int n)) := by
  rw [writeAtom, int_text]
  refine atomic_append.2 ⟨?_, (digits_toDigits _).atomic⟩
  split <;> decide

theorem atomic_float (x : Binary64) : Atomic (writeAtom (float x)) := by
  rw [writeAtom]
  cases x with
  | notANumber => decide
  | infinite negative => cases negative <;> decide
  | finite negative m e =>
    have body : Atomic
        (if m == 0 then "0.0" else (Decimal.shortest m e).write floatStyle).toList := by
      split
      · decide
      · exact atomic_decimal _
    simp only [Binary64.write]
    cases negative with
    | true =>
      rw [if_pos rfl, String.toList_append]
      exact atomic_append.2 ⟨by decide, body⟩
    | false => exact body

end ResourceApi.Json
