import ResourceApi.Proofs.Json.RoundTrip
import ResourceApi.Proofs.Results

/-! # What is read can be stored

Every value that is read can be written and read again: integers are not longer than
is allowed, doubles come out of rounding and are canonical, and of several fields of
one name the reader keeps one. -/

namespace ResourceApi.Json

open Numeral (isDigit digitsValue)

variable {half : Char}

/-! ## Numbers -/

theorem digitsValue_lt {ds : List Char} (digits : Digits ds) : digitsValue ds < 10 ^ ds.length := by
  induction ds using List.reverseRecOn with
  | nil => decide
  | append_singleton ds c ih =>
    obtain ⟨before, last⟩ := digits_append.1 digits
    have digit : c.toNat - 48 ≤ 9 := by
      have := last c List.mem_cons_self
      simp only [isDigit, Bool.and_eq_true, decide_eq_true_eq] at this
      have : c.toNat ≤ 57 := this.2
      omega
    have value : digitsValue (ds ++ [c]) = 10 * digitsValue ds + (c.toNat - 48) := by
      rw [digitsValue_eq, Nat.ofDigitChars_append]
      rfl
    have := ih before
    rw [value, List.length_append, List.length_singleton, pow_succ]
    omega

theorem digits_takeWhile (cs : List Char) : Digits (cs.takeWhile isDigit) :=
  List.all_eq_true.1 List.all_takeWhile

theorem digits_of_wholePart {cs whole rest : List Char} (h : wholePart cs = some (whole, rest)) :
    Digits whole := by
  rw [wholePart.eq_def] at h
  split at h
  · cases h
    rintro c (_ | ⟨_, ⟨⟩⟩)
    decide
  · split at h
    · cases h
      exact digits_takeWhile _
    · cases h
  · cases h

theorem storable_int {n : Nat} {whole : List Char} (digits : Digits whole)
    (short : whole.length ≤ Numeral.mostDigits) (value : digitsValue whole = n) (negative : Bool) :
    Storable (int (if negative then -n else n)) := by
  have small : n < 10 ^ Numeral.mostDigits := by
    rw [← value]
    exact lt_of_lt_of_le (digitsValue_lt digits) (Nat.pow_le_pow_right (by decide) short)
  have natAbs : (if negative then -(n : Int) else n).natAbs = n := by
    cases negative <;> simp
  refine decide_eq_true ?_
  rw [natAbs, Nat.length_toDigits_le_iff (by decide) (by decide)]
  exact small

theorem storable_float (negative : Bool) (digits : Nat) (power : Int) :
    Storable (float (.ofDecimal negative digits power)) := by
  show storableHere (float (.ofDecimal negative digits power)) = true
  cases read : Binary64.ofDecimal negative digits power with
  | finite negative' m e => exact decide_eq_true (Decimal.ofDecimal_canonical read)
  | infinite negative' => rfl
  | notANumber => rfl

theorem storable_of_readUnsigned {start cs rest : List Char} {negative : Bool} {v : Json}
    (h : readUnsigned start negative cs = .ok (v, rest)) : Storable v := by
  rw [readUnsigned] at h
  cases whole : wholePart cs with
  | none =>
    rw [whole] at h
    cases h
  | some part =>
    obtain ⟨ds, rest'⟩ := part
    have digits := digits_of_wholePart whole
    rw [whole] at h
    dsimp only at h
    split at h
    · cases h
      exact storable_float _ _ _
    split at h
    · cases h
    · next short =>
      cases h
      exact storable_int digits (Nat.not_lt.1 short) rfl negative

theorem storable_of_mem_words : ∀ w ∈ words, Storable w.2 :=
  fun w mem => List.all_eq_true.1
    (show words.all (fun w => w.2.throughout storableHere) = true from rfl) w mem

theorem storable_of_readAtom {cs rest : List Char} {v : Json} (h : readAtom cs = .ok (v, rest)) :
    Storable v := by
  rw [readAtom.eq_def] at h
  split at h
  · next found =>
    cases h
    obtain ⟨w, mem, found⟩ := List.exists_of_findSome?_eq_some found
    obtain ⟨rest', -, same⟩ := Option.map_eq_some_iff.1 found
    cases same
    exact storable_of_mem_words w mem
  · split at h
    · exact storable_of_readUnsigned h
    · exact storable_of_readUnsigned h

/-! ## Values -/

theorem storable_arr {items : List Json} :
    Storable (arr items) ↔ ∀ v ∈ items, Storable v := by
  unfold Storable
  rw [throughout_arr]
  exact and_iff_right rfl

theorem storable_obj {fields : Fields Json} :
    Storable (obj fields) ↔ fields.names.Nodup ∧ ∀ f ∈ fields, Storable f.2 := by
  unfold Storable
  rw [throughout_obj, storableHere, decide_eq_true_eq]

/-- The three readers with one amount of fuel give values that can be stored. -/
structure GivesStorable (half : Char) (fuel : Nat) : Prop where
  value : ∀ cs v rest, readValue half fuel cs = .ok (v, rest) → Storable v
  items : ∀ acc cs v rest, (∀ w ∈ acc, Storable w) → readItems half fuel acc cs = .ok (v, rest) →
    Storable v
  fields : ∀ acc cs v rest, (∀ f ∈ acc, Storable f.2) →
    readFields half fuel acc cs = .ok (v, rest) → Storable v

theorem givesStorable_zero : GivesStorable half 0 where
  value _ _ _ h := by cases h
  items _ _ _ _ _ h := by cases h
  fields _ _ _ _ _ h := by cases h

namespace GivesStorable

variable {fuel : Nat} {acc : List Json} {pairs : List (String × Json)} {cs rest : List Char}
  {v : Json}

theorem value_succ (ih : GivesStorable half fuel)
    (h : readValue half (fuel + 1) cs = .ok (v, rest)) : Storable v := by
  rw [readValue.eq_def] at h
  dsimp only at h
  split at h
  · split at h
    · cases h
      rfl
    · cases h
  · split at h
    · cases h
      exact storable_obj.2 ⟨List.nodup_nil, fun _ mem => absurd mem List.not_mem_nil⟩
    · exact ih.fields _ _ _ _ (fun _ mem => absurd mem List.not_mem_nil) h
  · split at h
    · cases h
      exact storable_arr.2 fun _ mem => absurd mem List.not_mem_nil
    · exact ih.items _ _ _ _ (fun _ mem => absurd mem List.not_mem_nil) h
  · exact storable_of_readAtom h

theorem items_succ (ih : GivesStorable half fuel) (each : ∀ w ∈ acc, Storable w)
    (h : readItems half (fuel + 1) acc cs = .ok (v, rest)) : Storable v := by
  rw [readItems] at h
  cases first : readValue half fuel cs with
  | error e =>
    rw [first] at h
    cases h
  | ok r =>
    obtain ⟨w, rest'⟩ := r
    have each' : ∀ u ∈ w :: acc, Storable u :=
      List.forall_mem_cons.2 ⟨ih.value _ _ _ first, each⟩
    rw [first] at h
    dsimp only at h
    split at h
    · cases h
      exact storable_arr.2 fun u mem => each' u (List.mem_reverse.1 mem)
    · exact ih.items _ _ _ _ each' h
    · cases h

theorem fields_succ (ih : GivesStorable half fuel) (each : ∀ f ∈ pairs, Storable f.2)
    (h : readFields half (fuel + 1) pairs cs = .ok (v, rest)) : Storable v := by
  rw [readFields.eq_def] at h
  dsimp only at h
  split at h
  case h_2 => cases h
  split at h
  · cases h
  next name _ _ =>
    split at h
    case h_2 => cases h
    split at h
    · cases h
    next w _ first =>
      have each' : ∀ f ∈ (name, w) :: pairs, Storable f.2 :=
        List.forall_mem_cons.2 ⟨ih.value _ _ _ first, each⟩
      split at h
      · cases h
        refine storable_obj.2 ⟨Fields.nodup_ofPairs _, fun f mem => ?_⟩
        rcases Fields.mem_merge mem with none | some
        · exact absurd none List.not_mem_nil
        · exact each' f (List.mem_reverse.1 some)
      · exact ih.fields _ _ _ _ each' h
      · cases h

end GivesStorable

theorem givesStorable (half : Char) (fuel : Nat) : GivesStorable half fuel := by
  induction fuel with
  | zero => exact givesStorable_zero
  | succ fuel ih =>
    exact ⟨fun _ _ _ => ih.value_succ, fun _ _ _ _ => ih.items_succ,
      fun _ _ _ _ => ih.fields_succ⟩

/-- **What is read can be stored.** -/
theorem storable_of_read {text : String} {v : Json} (h : read text = .ok v) : Storable v := by
  have all : readAll '\ufffd' text.toList = .ok v := by
    rw [read, readWith] at h
    split at h
    · next all => rw [all, Except.ok.inj h]
    · cases h
  rw [readAll.eq_def] at all
  split at all
  · cases all
  · split at all
    · cases all
    · next first =>
      split at all
      · cases all
        exact (givesStorable _ _).value _ _ _ first
      · cases all

end ResourceApi.Json
