import Mathlib.Algebra.Order.Archimedean.Basic
import Mathlib.Algebra.Order.Field.Power
import Mathlib.Data.Rat.Floor
import Mathlib.Tactic.FieldSimp
import Mathlib.Tactic.Linarith
import Mathlib.Tactic.NormNum
import Mathlib.Tactic.Positivity
import Mathlib.Tactic.Ring
import ResourceApi.Number.Shortest

/-! # Rounding to doubles

Which fractions round to a double: those of its interval, which reaches halfway to
the two doubles next to it and holds its ends if the mantissa is even. The fitting
exponent is the one that gives the fraction a mantissa of 53 bits, and the mantissa
is the integer nearest to the scaled fraction. -/

namespace ResourceApi.Binary64

/-! ## Scaling -/

theorem unit_pos (e : Int) : (0 : ℚ) < 2 ^ e := zpow_pos (by norm_num) e

theorem scaleUp_eq (base n : Nat) (e : Int) : scaleUp base n e = n * base ^ e.toNat := rfl

theorem scaleDown_eq (base : Nat) (e : Int) : scaleDown base e = base ^ (-e).toNat := rfl

theorem scaleUp_pos {base n : Nat} (pos : 0 < base) (n_pos : 0 < n) (e : Int) :
    0 < scaleUp base n e := Nat.mul_pos n_pos (Nat.pow_pos pos)

theorem scaleDown_pos {base : Nat} (pos : 0 < base) (e : Int) : 0 < scaleDown base e :=
  Nat.pow_pos pos

/-- The two halves of a scaled number are a fraction of it. -/
theorem scaleUp_div_scaleDown {base : Nat} (pos : 0 < base) (n : Nat) (e : Int) :
    (scaleUp base n e : ℚ) / scaleDown base e = n * (base : ℚ) ^ e := by
  have nonzero : (base : ℚ) ≠ 0 := by exact_mod_cast pos.ne'
  have split : (base : ℚ) ^ e = (base : ℚ) ^ e.toNat / (base : ℚ) ^ (-e).toNat := by
    rw [← zpow_natCast, ← zpow_natCast, ← zpow_sub₀ nonzero]
    congr 1
    omega
  rw [scaleUp_eq, scaleDown_eq, split]
  push_cast
  rw [mul_div_assoc]

theorem scaled_fraction (num den : Nat) (e : Int) :
    ((num * scaleDown 2 e : Nat) : ℚ) / (scaleUp 2 den e : ℚ) = num / den / 2 ^ e := by
  have inverse := scaleUp_div_scaleDown (by norm_num : 0 < 2) 1 e
  rw [scaleUp_eq, one_mul, Nat.cast_one, one_mul] at inverse
  rw [← Nat.cast_ofNat (R := ℚ) (n := 2), ← inverse, scaleUp_eq]
  push_cast
  rw [div_div_div_eq]

/-! ## The nearest integer -/

theorem nearestEven_bounds (num den : Nat) :
    num / den ≤ nearestEven num den ∧ nearestEven num den ≤ num / den + 1 := by
  simp only [nearestEven]
  split_ifs <;> omega

/-- The nearest integer is the only one within a half, if it is even where both neighbours are. -/
theorem nearestEven_eq {num den m : Nat} (pos : 0 < den) (lower : (m : ℚ) - 1 / 2 ≤ num / den)
    (upper : (num : ℚ) / den ≤ m + 1 / 2)
    (tie : (num : ℚ) / den = m - 1 / 2 ∨ (num : ℚ) / den = m + 1 / 2 → m % 2 = 0) :
    nearestEven num den = m := by
  have pos' : (0 : ℚ) < den := by exact_mod_cast pos
  rw [le_div_iff₀ pos'] at lower
  rw [div_le_iff₀ pos'] at upper
  rw [div_eq_iff pos'.ne', div_eq_iff pos'.ne'] at tie
  have lower : 2 * (m * den) ≤ 2 * num + den := by
    have : (2 * (m * den) : ℚ) ≤ 2 * num + den := by linarith
    exact_mod_cast this
  have upper : 2 * num ≤ 2 * (m * den) + den := by
    have : (2 * num : ℚ) ≤ 2 * (m * den) + den := by linarith
    exact_mod_cast this
  have tie : 2 * (m * den) = 2 * num + den ∨ 2 * num = 2 * (m * den) + den → m % 2 = 0 := by
    intro h
    apply tie
    rcases h with h | h
    · have : (2 * (m * den) : ℚ) = 2 * num + den := by exact_mod_cast h
      exact Or.inl (by linarith)
    · have : (2 * num : ℚ) = 2 * (m * den) + den := by exact_mod_cast h
      exact Or.inr (by linarith)
  have rest := Nat.mod_lt num pos
  have parts := Nat.div_add_mod num den
  simp only [nearestEven]
  generalize num / den = q at *
  generalize num % den = r at *
  subst parts
  -- `m` is `q` or `q + 1`, as its distance from `q + r / den` is at most a half
  have below : q ≤ m := by
    by_contra less
    have : (m + 1) * den ≤ q * den := Nat.mul_le_mul_right _ (by omega)
    nlinarith
  have above : m ≤ q + 1 := by
    by_contra more
    have : (q + 2) * den ≤ m * den := Nat.mul_le_mul_right _ (by omega)
    nlinarith
  obtain rfl | rfl : m = q ∨ m = q + 1 := by omega
  · have product : m * den = den * m := Nat.mul_comm _ _
    split_ifs <;> simp_all <;> omega
  · have product : (q + 1) * den = den * q + den := by ring
    split_ifs <;> simp_all <;> omega

/-! ## The fitting exponent -/

/-- The fraction, in units of `2 ^ e`, has 53 bits before the point. -/
def Fits (x : ℚ) (e : Int) : Prop := (2 : ℚ) ^ 52 ≤ x / 2 ^ e ∧ x / 2 ^ e < 2 ^ 53

theorem fits_iff {x : ℚ} {e : Int} :
    Fits x e ↔ (2 : ℚ) ^ (e + 52) ≤ x ∧ x < (2 : ℚ) ^ (e + 53) := by
  have shift (n : Nat) : (2 : ℚ) ^ (e + n) = 2 ^ n * 2 ^ e := by
    rw [zpow_add₀ (by norm_num), zpow_natCast, mul_comm]
  rw [Fits, le_div_iff₀ (unit_pos e), div_lt_iff₀ (unit_pos e)]
  have low := shift 52
  have high := shift 53
  push_cast at low high
  rw [low, high]

theorem exists_fits {x : ℚ} (pos : 0 < x) : ∃ e, Fits x e := by
  obtain ⟨n, low, high⟩ := exists_mem_Ico_zpow pos (by norm_num : (1 : ℚ) < 2)
  refine ⟨n - 52, fits_iff.2 ⟨?_, ?_⟩⟩
  · rwa [show n - 52 + 52 = n by omega]
  · rwa [show n - 52 + 53 = n + 1 by omega]

/-- The difference of the logarithms finds the exponent, up to one. -/
theorem guess_bounds {num den : Nat} (num_pos : 0 < num) (den_pos : 0 < den) {e : Int}
    (fits : Fits (num / den) e) :
    (num.log2 : Int) - den.log2 - 52 = e ∨ (num.log2 : Int) - den.log2 - 52 = e + 1 := by
  obtain ⟨low, high⟩ := fits_iff.1 fits
  have den_pos' : (0 : ℚ) < den := by exact_mod_cast den_pos
  have num_low : (2 : ℚ) ^ (num.log2 : Int) ≤ num := by
    rw [zpow_natCast]
    exact_mod_cast Nat.log2_self_le num_pos.ne'
  have num_high : (num : ℚ) < 2 ^ ((num.log2 : Int) + 1) := by
    rw [show (num.log2 : Int) + 1 = (num.log2 + 1 : Nat) by push_cast; rfl, zpow_natCast]
    exact_mod_cast Nat.lt_log2_self
  have den_low : (2 : ℚ) ^ (den.log2 : Int) ≤ den := by
    rw [zpow_natCast]
    exact_mod_cast Nat.log2_self_le den_pos.ne'
  have den_high : (den : ℚ) < 2 ^ ((den.log2 : Int) + 1) := by
    rw [show (den.log2 : Int) + 1 = (den.log2 + 1 : Nat) by push_cast; rfl, zpow_natCast]
    exact_mod_cast Nat.lt_log2_self
  rw [le_div_iff₀ den_pos'] at low
  rw [div_lt_iff₀ den_pos'] at high
  have first : (2 : ℚ) ^ (e + 52 + den.log2) < 2 ^ ((num.log2 : Int) + 1) := by
    rw [zpow_add₀ (by norm_num)]
    calc (2 : ℚ) ^ (e + 52) * 2 ^ (den.log2 : Int) ≤ 2 ^ (e + 52) * den := by gcongr
      _ ≤ num := low
      _ < 2 ^ ((num.log2 : Int) + 1) := num_high
  have second : (2 : ℚ) ^ (num.log2 : Int) < 2 ^ (e + 53 + (den.log2 + 1)) := by
    rw [zpow_add₀ (by norm_num)]
    calc (2 : ℚ) ^ (num.log2 : Int) ≤ num := num_low
      _ < 2 ^ (e + 53) * den := high
      _ ≤ 2 ^ (e + 53) * 2 ^ ((den.log2 : Int) + 1) := by gcongr
  rw [zpow_lt_zpow_iff_right₀ (by norm_num)] at first second
  omega

/-- The fitting exponent is the one that fits, or the least one. -/
theorem fittingExponent_eq {num den : Nat} (num_pos : 0 < num) (den_pos : 0 < den) {e : Int}
    (fits : Fits (num / den) e) : fittingExponent num den = max e (-1074) := by
  have test (g : Int) : num * scaleDown 2 g < 2 ^ 52 * scaleUp 2 den g ↔
      (num : ℚ) / den / 2 ^ g < 2 ^ 52 := by
    rw [← scaled_fraction, div_lt_iff₀ (Nat.cast_pos.2 (scaleUp_pos (by norm_num) den_pos g))]
    norm_cast
  simp only [fittingExponent, Nat.pow_eq, test]
  congr 1
  rcases guess_bounds num_pos den_pos fits with same | next
  · rw [same, if_neg (not_lt.2 fits.1)]
  · rw [next, if_pos]
    · omega
    · rw [div_lt_iff₀ (unit_pos _)]
      have high := (fits_iff.1 fits).2
      rwa [show e + 53 = 52 + (e + 1) by omega, zpow_add₀ (by norm_num)] at high

/-! ## Canonical doubles -/

/-- The bounds that a mantissa and an exponent keep. -/
def Canonical (m : Nat) (e : Int) : Prop :=
  m < 2 ^ 53 ∧ -1074 ≤ e ∧ e ≤ 971 ∧ (2 ^ 52 ≤ m ∨ e = -1074)

instance (m : Nat) (e : Int) : Decidable (Canonical m e) :=
  inferInstanceAs (Decidable (_ ∧ _ ∧ _ ∧ _))

/-- Rounding a positive fraction, at its exponent. -/
theorem ofRatio_of_pos {num den m : Nat} {e : Int} (negative : Bool) (num_pos : 0 < num)
    (exponent : fittingExponent num den = e)
    (mantissa : nearestEven (num * scaleDown 2 e) (scaleUp 2 den e) = m) :
    ofRatio negative num den =
      if m = 2 ^ 53 then
        if 971 < e + 1 then infinite negative else .finite negative (2 ^ 52) (e + 1)
      else if 971 < e then infinite negative else .finite negative m e := by
  have zero : (num == 0) = false := beq_eq_false_iff_ne.2 num_pos.ne'
  simp only [ofRatio, zero, exponent, mantissa, Nat.pow_eq, beq_iff_eq, Bool.false_eq_true,
    if_false]
  split <;> rfl

/-- The mantissa at the fitting exponent has 53 bits, or is carried over; below the least normal
double it may have fewer. -/
theorem mantissa_bounds {num den : Nat} (num_pos : 0 < num) (den_pos : 0 < den) {e : Int}
    (exponent : fittingExponent num den = e) :
    -1074 ≤ e ∧ nearestEven (num * scaleDown 2 e) (scaleUp 2 den e) ≤ 2 ^ 53 ∧
      (2 ^ 52 ≤ nearestEven (num * scaleDown 2 e) (scaleUp 2 den e) ∨ e = -1074) := by
  obtain ⟨e₀, fits⟩ := exists_fits (x := num / den) (by positivity)
  rw [fittingExponent_eq num_pos den_pos fits] at exponent
  have scale_pos := scaleUp_pos (by norm_num : 0 < 2) den_pos e
  obtain ⟨lower, upper⟩ := nearestEven_bounds (num * scaleDown 2 e) (scaleUp 2 den e)
  have whole : (num * scaleDown 2 e) / (scaleUp 2 den e) < 2 ^ 53 := by
    rw [Nat.div_lt_iff_lt_mul scale_pos]
    have scaled : (num : ℚ) / den / 2 ^ e < 2 ^ 53 := by
      refine lt_of_le_of_lt ?_ fits.2
      have : (2 : ℚ) ^ e₀ ≤ 2 ^ e := zpow_le_zpow_right₀ (by norm_num) (by omega)
      have := unit_pos e₀
      gcongr
    rw [← scaled_fraction, div_lt_iff₀ (Nat.cast_pos.2 scale_pos)] at scaled
    exact_mod_cast scaled
  refine ⟨by omega, by omega, ?_⟩
  rcases le_or_gt (-1074) e₀ with normal | small
  · refine Or.inl (le_trans ?_ lower)
    rw [Nat.le_div_iff_mul_le scale_pos]
    have scaled := fits.1
    rw [show e₀ = e by omega, ← scaled_fraction,
      le_div_iff₀ (Nat.cast_pos.2 scale_pos)] at scaled
    exact_mod_cast scaled
  · exact Or.inr (by omega)

/-- Whatever rounding gives that is finite is canonical. -/
theorem ofRatio_canonical {num den m : Nat} {e : Int} {negative negative' : Bool}
    (den_pos : 0 < den) (h : ofRatio negative num den = .finite negative' m e) :
    Canonical m e := by
  rcases Nat.eq_zero_or_pos num with rfl | num_pos
  · rw [ofRatio, if_pos (by rfl)] at h
    cases h
    decide
  obtain ⟨least, most, large⟩ := mantissa_bounds num_pos den_pos rfl
  rw [ofRatio_of_pos negative num_pos rfl rfl] at h
  generalize nearestEven (num * scaleDown 2 (fittingExponent num den))
    (scaleUp 2 den (fittingExponent num den)) = M at *
  generalize fittingExponent num den = E at *
  unfold Canonical
  split_ifs at h
  · cases h
    omega
  · cases h
    omega

end ResourceApi.Binary64

namespace ResourceApi.Decimal.Interval

open Binary64

/-- The fractions of an interval. -/
def Holds (i : Interval) (x : ℚ) : Prop :=
  if i.closed then i.low * 2 ^ i.unit ≤ x ∧ x ≤ i.high * 2 ^ i.unit
  else i.low * 2 ^ i.unit < x ∧ x < i.high * 2 ^ i.unit

theorem Holds.le {i : Interval} {x : ℚ} (h : i.Holds x) :
    i.low * 2 ^ i.unit ≤ x ∧ x ≤ i.high * 2 ^ i.unit := by
  rw [Holds] at h
  split at h
  · exact h
  · exact ⟨h.1.le, h.2.le⟩

/-- The ends of the interval, in quarters of the mantissa. -/
theorem ends_of {m : Nat} (pos : 0 < m) (e : Int) :
    ((Interval.of m e).high : ℚ) = 4 * m + 2 ∧ 4 * (m : ℚ) - 2 ≤ (Interval.of m e).low ∧
      (m = 2 ^ 52 → -1074 < e → ((Interval.of m e).low : ℚ) = 4 * m - 1) := by
  simp only [Interval.of]
  refine ⟨by push_cast; rfl, ?_, fun power normal => ?_⟩
  · split
    · rw [Nat.cast_sub (by omega)]
      push_cast
      linarith
    · rw [Nat.cast_sub (by omega)]
      push_cast
      linarith
  · rw [if_pos (by simp [power, normal]), Nat.cast_sub (by omega)]
    push_cast
    rfl

/-- What lies in the interval of a double is within a half of its mantissa, and within a quarter
below a power of two; the ends belong to even mantissas. -/
theorem holds_of {m : Nat} {e : Int} {x : ℚ} (pos : 0 < m) (h : (Interval.of m e).Holds x) :
    (m : ℚ) - 1 / 2 ≤ x / 2 ^ e ∧ x / 2 ^ e ≤ m + 1 / 2 ∧
      (x / 2 ^ e = m - 1 / 2 ∨ x / 2 ^ e = m + 1 / 2 → m % 2 = 0) ∧
      (m = 2 ^ 52 → -1074 < e → (m : ℚ) - 1 / 4 ≤ x / 2 ^ e) := by
  have quarter : (2 : ℚ) ^ (Interval.of m e).unit = 2 ^ e / 4 := by
    rw [show (Interval.of m e).unit = e - 2 from rfl, zpow_sub₀ (by norm_num)]
    norm_num
  have unit := unit_pos e
  obtain ⟨high, low, nearer⟩ := ends_of pos e
  obtain ⟨lower, upper⟩ := h.le
  rw [quarter] at lower upper
  rw [high] at upper
  refine ⟨?_, ?_, ?_, ?_⟩
  · rw [le_div_iff₀ unit]
    nlinarith
  · rw [div_le_iff₀ unit]
    nlinarith
  · intro tie
    by_contra odd
    have opened : (Interval.of m e).closed = false := by
      simpa [Interval.of] using odd
    rw [Holds, opened, quarter, high] at h
    simp only [Bool.false_eq_true, if_false] at h
    rcases tie with tie | tie
    · rw [div_eq_iff unit.ne'] at tie
      nlinarith [h.1]
    · rw [div_eq_iff unit.ne'] at tie
      nlinarith [h.2]
  · intro power normal
    rw [nearer power normal] at lower
    rw [le_div_iff₀ unit]
    nlinarith

/-- A fraction in the quarter below a power of two has a smaller exponent and is carried over. -/
theorem ofRatio_of_quarter {num den : Nat} {e : Int} (negative : Bool) (num_pos : 0 < num)
    (den_pos : 0 < den) (least : -1074 < e) (finite : e ≤ 971)
    (near : (2 : ℚ) ^ 52 - 1 / 4 ≤ num / den / 2 ^ e) (under : (num : ℚ) / den / 2 ^ e < 2 ^ 52) :
    ofRatio negative num den = .finite negative (2 ^ 52) e := by
  have half : (num : ℚ) / den / 2 ^ (e - 1) = 2 * (num / den / 2 ^ e) := by
    rw [zpow_sub₀ (by norm_num)]
    have := unit_pos e
    field_simp
  have fits : Fits (num / den) (e - 1) := by
    rw [Fits, half]
    exact ⟨by linarith, by linarith⟩
  have exponent := fittingExponent_eq num_pos den_pos fits
  rw [max_eq_left (by omega)] at exponent
  have carried : nearestEven (num * scaleDown 2 (e - 1)) (scaleUp 2 den (e - 1)) = 2 ^ 53 := by
    refine nearestEven_eq (scaleUp_pos (by norm_num) den_pos _) ?_ ?_ (fun _ => by norm_num)
    · rw [scaled_fraction, half]
      push_cast
      linarith
    · rw [scaled_fraction, half]
      push_cast
      linarith
  rw [ofRatio_of_pos negative num_pos exponent carried, if_pos rfl, if_neg (by omega),
    Int.sub_add_cancel]

/-- The exponent of the least doubles fits all that is below the least normal one. -/
theorem fittingExponent_of_subnormal {num den : Nat} (num_pos : 0 < num) (den_pos : 0 < den)
    (under : (num : ℚ) / den / 2 ^ (-1074 : Int) < 2 ^ 52) : fittingExponent num den = -1074 := by
  obtain ⟨e, fits⟩ := exists_fits (x := num / den) (by positivity)
  have lower := (fits_iff.1 fits).1
  rw [div_lt_iff₀ (unit_pos _)] at under
  have : (2 : ℚ) ^ (e + 52) < 2 ^ (52 + (-1074) : Int) := by
    rw [zpow_add₀ (by norm_num) 52 (-1074)]
    exact lt_of_le_of_lt lower under
  rw [zpow_lt_zpow_iff_right₀ (by norm_num)] at this
  rw [fittingExponent_eq num_pos den_pos fits, max_eq_right (by omega)]

/-- **What lies in the interval of a double rounds to it.** -/
theorem ofRatio_of_holds {num den m : Nat} {e : Int} (negative : Bool) (num_pos : 0 < num)
    (den_pos : 0 < den) (pos : 0 < m) (canonical : Canonical m e)
    (h : (Interval.of m e).Holds (num / den)) :
    ofRatio negative num den = .finite negative m e := by
  obtain ⟨lower, upper, tie, quarter⟩ := holds_of pos h
  obtain ⟨small, least, finite, normal⟩ := canonical
  have below : (num : ℚ) / den / 2 ^ e < 2 ^ 53 := by
    have : (m : ℚ) + 1 ≤ 2 ^ 53 := by exact_mod_cast small
    linarith
  have mantissa : nearestEven (num * scaleDown 2 e) (scaleUp 2 den e) = m := by
    rw [← scaled_fraction] at lower upper tie
    exact nearestEven_eq (scaleUp_pos (by norm_num) den_pos e) lower upper tie
  have rounded (exponent : fittingExponent num den = e) :
      ofRatio negative num den = .finite negative m e := by
    rw [ofRatio_of_pos negative num_pos exponent mantissa, if_neg small.ne, if_neg (by omega)]
  rcases le_or_gt ((2 : ℚ) ^ 52) (num / den / 2 ^ e) with above | under
  · have exponent := fittingExponent_eq num_pos den_pos ⟨above, below⟩
    rw [max_eq_left least] at exponent
    exact rounded exponent
  rcases eq_or_lt_of_le least with rfl | larger
  · exact rounded (fittingExponent_of_subnormal num_pos den_pos under)
  · obtain rfl : m = 2 ^ 52 := by
      have : 2 ^ 52 ≤ m := normal.resolve_right (by omega)
      have : (m : ℚ) < 2 ^ 52 + 1 := by linarith
      have : m < 2 ^ 52 + 1 := by exact_mod_cast this
      omega
    have near := quarter rfl larger
    push_cast at near
    exact ofRatio_of_quarter negative num_pos den_pos larger finite near under

end ResourceApi.Decimal.Interval
