import ResourceApi.Proofs.Number.Rounding

/-! # The shortest decimal reads back

The search for the shortest decimal only gives points of the interval of the double,
and it finds one: with seventeen digits the grid is finer than the interval is wide,
so the neighbours of the value cannot both miss it. A decimal of the interval is then
rounded to the double, however its digits and its power are given. -/

namespace ResourceApi.Decimal

open Binary64

/-- The number that a decimal stands for. -/
def value (d : Decimal) : ℚ := d.digits * 10 ^ d.power

theorem ten_pos (p : Int) : (0 : ℚ) < 10 ^ p := zpow_pos (by norm_num) p

/-! ## Digits -/

theorem lt_pow_width (n : Nat) : n < 10 ^ width n :=
  (Nat.length_toDigits_le_iff (by norm_num) Nat.length_toDigits_pos).1 (le_refl _)

theorem pow_width_le {n : Nat} (pos : 0 < n) : 10 ^ (width n - 1) ≤ n := by
  by_contra less
  rcases Nat.eq_zero_or_pos (width n - 1) with none | some
  · rw [none] at less
    omega
  · have := (Nat.length_toDigits_le_iff (by norm_num) some).2 (not_le.1 less)
    have := Nat.length_toDigits_pos (b := 10) (n := n)
    unfold width at *
    omega

theorem stripZeros_value (fuel : Nat) (d : Decimal) : (stripZeros fuel d).value = d.value := by
  induction fuel generalizing d with
  | zero => rfl
  | succ fuel ih =>
    rw [stripZeros]
    split
    · next trailing =>
      rw [ih]
      have whole : d.digits = d.digits / 10 * 10 := by
        simp only [Bool.and_eq_true, beq_iff_eq] at trailing
        omega
      rw [value, value, zpow_add₀ (by norm_num), zpow_one]
      nth_rewrite 2 [whole]
      push_cast
      ring
    · rfl

/-! ## Grids -/

namespace Interval

/-- The unit of a grid and of an interval, brought to a common denominator. -/
def step (i : Interval) (power : Int) : Nat := scaleUp 10 1 power * scaleDown 2 i.unit

def scale (i : Interval) (power : Int) : Nat := scaleUp 2 1 i.unit * scaleDown 10 power

/-- Whether a point of a grid lies in the interval, as the search tests it. -/
def contains (i : Interval) (power : Int) (a : Nat) : Bool :=
  if i.closed then
    i.low * i.scale power ≤ a * i.step power && a * i.step power ≤ i.high * i.scale power
  else i.low * i.scale power < a * i.step power && a * i.step power < i.high * i.scale power

/-- The points of the grid next to the value, from below. -/
def below (i : Interval) (power : Int) : Nat := i.value * i.scale power / i.step power

variable {i : Interval} {p : Int} {a : Nat}

theorem denominator_pos (i : Interval) (p : Int) :
    (0 : ℚ) < scaleDown 10 p * scaleDown 2 i.unit :=
  mul_pos (Nat.cast_pos.2 (scaleDown_pos (by norm_num) p))
    (Nat.cast_pos.2 (scaleDown_pos (by norm_num) i.unit))

theorem step_eq (i : Interval) (p : Int) :
    (i.step p : ℚ) = 10 ^ p * (scaleDown 10 p * scaleDown 2 i.unit) := by
  have ten := scaleUp_div_scaleDown (by norm_num : 0 < 10) 1 p
  have pos : (0 : ℚ) < scaleDown 10 p := Nat.cast_pos.2 (scaleDown_pos (by norm_num) p)
  rw [div_eq_iff pos.ne'] at ten
  rw [step]
  push_cast at *
  rw [ten]
  ring

theorem scale_eq (i : Interval) (p : Int) :
    (i.scale p : ℚ) = 2 ^ i.unit * (scaleDown 10 p * scaleDown 2 i.unit) := by
  have two := scaleUp_div_scaleDown (by norm_num : 0 < 2) 1 i.unit
  have pos : (0 : ℚ) < scaleDown 2 i.unit := Nat.cast_pos.2 (scaleDown_pos (by norm_num) i.unit)
  rw [div_eq_iff pos.ne'] at two
  rw [scale]
  push_cast at *
  rw [two]
  ring

/-- Comparing in whole numbers is comparing with the common denominator taken out. -/
theorem le_iff (i : Interval) (p : Int) (a b : Nat) :
    (b * i.scale p ≤ a * i.step p ↔ (b : ℚ) * 2 ^ i.unit ≤ a * 10 ^ p) ∧
      (a * i.step p ≤ b * i.scale p ↔ (a : ℚ) * 10 ^ p ≤ b * 2 ^ i.unit) := by
  have pos := denominator_pos i p
  rw [← Nat.cast_le (α := ℚ), ← Nat.cast_le (α := ℚ), Nat.cast_mul, Nat.cast_mul, step_eq, scale_eq]
  generalize (scaleDown 10 p * scaleDown 2 i.unit : ℚ) = common at *
  rw [← mul_assoc, ← mul_assoc, mul_le_mul_iff_left₀ pos, mul_le_mul_iff_left₀ pos]
  exact ⟨Iff.rfl, Iff.rfl⟩

theorem contains_iff : i.contains p a = true ↔ i.Holds (a * 10 ^ p) := by
  obtain ⟨low, low'⟩ := le_iff i p a i.low
  obtain ⟨high', high⟩ := le_iff i p a i.high
  rw [contains, Holds]
  split
  · rw [Bool.and_eq_true, decide_eq_true_eq, decide_eq_true_eq, low, high]
  · rw [Bool.and_eq_true, decide_eq_true_eq, decide_eq_true_eq, ← not_le, ← not_le, low', high',
      not_le, not_le]

/-- The best point of a grid is one of the two next to the value, and lies in the interval. -/
theorem holds_of_nearest? (h : i.nearest? p = some a) : i.Holds (a * 10 ^ p) := by
  rw [← contains_iff]
  simp only [nearest?] at h
  split at h
  · next below above =>
    split_ifs at h <;> cases h <;> first | exact below | exact above
  · next below _ =>
    cases h
    exact below
  · next above =>
    cases h
    exact above
  · cases h

theorem not_contains_of_nearest? (h : i.nearest? p = none) :
    i.contains p (i.below p) = false ∧ i.contains p (i.below p + 1) = false := by
  simp only [nearest?] at h
  split at h
  · split_ifs at h
  · cases h
  · cases h
  · next below above => exact ⟨below, above⟩

/-- A grid that misses the interval next to the value has a step as wide as the interval. -/
theorem width_le_of_nearest? (low : i.low < i.value) (high : i.value < i.high)
    (h : i.nearest? p = none) : ((i.high : ℚ) - i.low) * 2 ^ i.unit ≤ 10 ^ p := by
  obtain ⟨missed, missed'⟩ := not_contains_of_nearest? h
  have step_pos : 0 < i.step p :=
    Nat.mul_pos (scaleUp_pos (by norm_num) Nat.one_pos p) (scaleDown_pos (by norm_num) i.unit)
  have scale_pos : 0 < i.scale p :=
    Nat.mul_pos (scaleUp_pos (by norm_num) Nat.one_pos i.unit) (scaleDown_pos (by norm_num) p)
  have under : i.below p * i.step p ≤ i.value * i.scale p := Nat.div_mul_le_self _ _
  have past : i.value * i.scale p < (i.below p + 1) * i.step p := by
    rw [Nat.add_mul, Nat.one_mul]
    exact Nat.lt_div_mul_add step_pos
  have low' : i.low * i.scale p < i.value * i.scale p := Nat.mul_lt_mul_of_pos_right low scale_pos
  have high' : i.value * i.scale p < i.high * i.scale p :=
    Nat.mul_lt_mul_of_pos_right high scale_pos
  -- the point below is not above the low end, and the point above not below the high end
  have first : i.below p * i.step p ≤ i.low * i.scale p := by
    by_contra inside
    rw [contains] at missed
    split at missed <;>
      rw [Bool.and_eq_false_iff, decide_eq_false_iff_not, decide_eq_false_iff_not] at missed <;> omega
  have second : i.high * i.scale p ≤ (i.below p + 1) * i.step p := by
    by_contra inside
    rw [contains] at missed'
    split at missed' <;>
      rw [Bool.and_eq_false_iff, decide_eq_false_iff_not, decide_eq_false_iff_not] at missed' <;> omega
  have first := (le_iff i p _ _).2.1 first
  have second := (le_iff i p _ _).1.1 second
  push_cast at second
  linarith

/-- A search that comes to a grid with a point of the interval gives such a point. -/
theorem holds_of_search {fuel k : Nat} {power : Int} (within : k < fuel)
    (found : i.nearest? (power - k) ≠ none) : i.Holds (i.search fuel power).value := by
  induction fuel generalizing k power with
  | zero => omega
  | succ fuel ih =>
    rw [search]
    cases first : i.nearest? power with
    | some a => exact holds_of_nearest? first
    | none =>
      cases k with
      | zero =>
        rw [Nat.cast_zero, sub_zero] at found
        exact absurd first found
      | succ k =>
        refine ih (k := k) (by omega) ?_
        rwa [show power - 1 - (k : Int) = power - ((k + 1 : Nat) : Int) by push_cast; omega]

end Interval

/-! ## Seventeen digits -/

theorem pow_leadingPower_le {num den : Nat} (num_pos : 0 < num) (den_pos : 0 < den) :
    (10 : ℚ) ^ leadingPower num den ≤ num / den := by
  have num_pos' : (0 : ℚ) < num := by exact_mod_cast num_pos
  have den_pos' : (0 : ℚ) < den := by exact_mod_cast den_pos
  rw [leadingPower, le_div_iff₀ den_pos']
  split
  · next whole =>
    have quotient : 0 < num / den := Nat.div_pos whole den_pos
    have width_pos : 0 < width (num / den) := Nat.length_toDigits_pos
    rw [show (width (num / den) : Int) - 1 = (width (num / den) - 1 : Nat) by omega, zpow_natCast]
    have : 10 ^ (width (num / den) - 1) * den ≤ num :=
      (Nat.mul_le_mul_right _ (pow_width_le quotient)).trans (Nat.div_mul_le_self num den)
    exact_mod_cast this
  · next part =>
    have digits := lt_pow_width ((den + num - 1) / num - 1)
    generalize width ((den + num - 1) / num - 1) = w at *
    have ceiling : (den + num - 1) / num ≤ 10 ^ w := by omega
    have : den ≤ 10 ^ w * num := by
      have := Nat.lt_div_mul_add (a := den + num - 1) num_pos
      have := Nat.mul_le_mul_right num ceiling
      omega
    rw [zpow_neg, zpow_natCast, inv_mul_le_iff₀ (by positivity)]
    exact_mod_cast this

/-- **The shortest decimal of a double lies in its interval.** -/
theorem shortest_holds {m : Nat} {e : Int} (pos : 0 < m) (canonical : Canonical m e) :
    (Interval.of m e).Holds (shortest m e).value := by
  have low : (Interval.of m e).low < (Interval.of m e).value := by
    simp only [Interval.of]
    split <;> omega
  have high : (Interval.of m e).value < (Interval.of m e).high := by
    simp only [Interval.of]
    omega
  rw [shortest, stripZeros_value]
  refine Interval.holds_of_search (k := 16) (by norm_num) fun none => ?_
  have wide := Interval.width_le_of_nearest? low high none
  have top : (10 : ℚ) ^ leadingPower (scaleUp 2 m e) (scaleDown 2 e) ≤ m * 2 ^ e := by
    rw [← Nat.cast_ofNat (R := ℚ) (n := 2), ← scaleUp_div_scaleDown (by norm_num)]
    exact pow_leadingPower_le (scaleUp_pos (by norm_num) pos e) (scaleDown_pos (by norm_num) e)
  rw [zpow_sub₀ (by norm_num), zpow_natCast, le_div_iff₀ (by norm_num)] at wide
  have unit : (2 : ℚ) ^ (Interval.of m e).unit = 2 ^ e / 4 := by
    rw [show (Interval.of m e).unit = e - 2 from rfl, zpow_sub₀ (by norm_num)]
    norm_num
  rw [unit] at wide
  have two_pow := unit_pos e
  have bound := wide.trans top
  have small : (m : ℚ) < 2 ^ 53 := by exact_mod_cast canonical.1
  simp only [Interval.of] at bound
  split at bound
  · next power =>
    have power : m = 2 ^ 52 := by
      simp only [Bool.and_eq_true, beq_iff_eq] at power
      exact power.1
    rw [power] at bound
    norm_num at bound
    nlinarith
  · rw [Nat.cast_sub (by omega)] at bound
    push_cast at bound
    nlinarith

/-! ## Rounding a decimal -/

/-- The powers of two that doubles need lie between the powers of ten that are decided at once. -/
theorem two_pow_bounds {n : Int} (low : -1325 ≤ n) (high : n ≤ 1325) :
    (10 : ℚ) ^ (-400 : Int) < 2 ^ n ∧ (2 : ℚ) ^ n < 10 ^ (400 : Int) := by
  have ends : (2 : ℚ) ^ (1325 : Int) < 10 ^ (400 : Int) := by
    have := pow_lt_pow_left₀ (by norm_num : (2 : ℚ) ^ 53 < 10 ^ 16) (by norm_num)
      (show 25 ≠ 0 by norm_num)
    rw [← pow_mul, ← pow_mul, ← zpow_natCast, ← zpow_natCast] at this
    exact this
  constructor
  · calc (10 : ℚ) ^ (-400 : Int) = (10 ^ (400 : Int))⁻¹ := zpow_neg _ _
      _ < (2 ^ (1325 : Int))⁻¹ := inv_strictAnti₀ (unit_pos _) ends
      _ = 2 ^ (-1325 : Int) := (zpow_neg _ _).symm
      _ ≤ 2 ^ n := zpow_le_zpow_right₀ (by norm_num) low
  · exact lt_of_le_of_lt (zpow_le_zpow_right₀ (by norm_num) high) ends

/-- A number in the interval of a double is neither too small nor too large to be computed. -/
theorem holds_bounds {m : Nat} {e : Int} {x : ℚ} (pos : 0 < m) (canonical : Canonical m e)
    (h : (Interval.of m e).Holds x) : (10 : ℚ) ^ (-400 : Int) ≤ x ∧ x < 10 ^ (400 : Int) := by
  obtain ⟨lower, upper, -, -⟩ := Interval.holds_of pos h
  obtain ⟨small, least, finite, -⟩ := canonical
  have unit := unit_pos e
  rw [le_div_iff₀ unit] at lower
  rw [div_le_iff₀ unit] at upper
  have one : (1 : ℚ) ≤ m := by exact_mod_cast pos
  have bound : (m : ℚ) + 1 ≤ 2 ^ 53 := by exact_mod_cast small
  constructor
  · calc (10 : ℚ) ^ (-400 : Int) ≤ 2 ^ (-1 + e) :=
          (two_pow_bounds (by omega) (by omega)).1.le
      _ = 1 / 2 * 2 ^ e := by
          rw [zpow_add₀ (by norm_num)]
          norm_num
      _ ≤ (m - 1 / 2) * 2 ^ e := by
          gcongr
          linarith
      _ ≤ x := lower
  · calc x ≤ (m + 1 / 2) * 2 ^ e := upper
      _ ≤ 2 ^ 53 * 2 ^ e := by
          gcongr
          linarith
      _ = 2 ^ (53 + e) := by
          rw [zpow_add₀ (by norm_num)]
          norm_num
      _ < 10 ^ (400 : Int) := (two_pow_bounds (by omega) (by omega)).2

/-- A number between the two powers of ten has its first digit between them. -/
theorem lead_bounds {digits : Nat} {power : Int} (digits_pos : 0 < digits)
    (low : (10 : ℚ) ^ (-400 : Int) ≤ digits * 10 ^ power)
    (high : (digits : ℚ) * 10 ^ power < 10 ^ (400 : Int)) :
    -400 ≤ (width digits : Int) + power ∧ (width digits : Int) + power ≤ 400 := by
  have scale := ten_pos power
  have first : (10 : ℚ) ^ ((width digits : Int) - 1) ≤ digits := by
    have width_pos : 0 < width digits := Nat.length_toDigits_pos
    rw [show (width digits : Int) - 1 = (width digits - 1 : Nat) by omega, zpow_natCast]
    exact_mod_cast pow_width_le digits_pos
  have last : (digits : ℚ) < 10 ^ (width digits : Int) := by
    rw [zpow_natCast]
    exact_mod_cast lt_pow_width digits
  constructor
  · by_contra tiny
    have : (10 : ℚ) ^ ((width digits : Int) + power) ≤ 10 ^ (-400 : Int) :=
      zpow_le_zpow_right₀ (by norm_num) (by omega)
    rw [zpow_add₀ (by norm_num)] at this
    nlinarith
  · by_contra huge
    have : (10 : ℚ) ^ (400 : Int) ≤ 10 ^ ((width digits : Int) - 1 + power) :=
      zpow_le_zpow_right₀ (by norm_num) (by omega)
    rw [zpow_add₀ (by norm_num)] at this
    nlinarith

/-- **A decimal in the interval of a double reads as that double**, whatever its digits. -/
theorem ofDecimal_of_holds {m : Nat} {e : Int} {digits : Nat} {power : Int} (negative : Bool)
    (pos : 0 < m) (canonical : Canonical m e)
    (h : (Interval.of m e).Holds (digits * 10 ^ power)) :
    ofDecimal negative digits power = .finite negative m e := by
  obtain ⟨low, high⟩ := holds_bounds pos canonical h
  have digits_pos : 0 < digits := by
    rcases Nat.eq_zero_or_pos digits with rfl | some
    · have := ten_pos (-400)
      rw [Nat.cast_zero, zero_mul] at low
      linarith
    · exact some
  obtain ⟨not_tiny, not_huge⟩ := lead_bounds digits_pos low high
  have num_pos := scaleUp_pos (by norm_num : 0 < 10) digits_pos power
  have den_pos := scaleDown_pos (by norm_num : 0 < 10) power
  have fraction := scaleUp_div_scaleDown (by norm_num : 0 < 10) digits power
  push_cast at fraction
  rw [← fraction] at h
  have zero : (digits == 0) = false := beq_eq_false_iff_ne.2 digits_pos.ne'
  unfold width at not_tiny not_huge
  simp only [ofDecimal, zero, Bool.false_or, decide_eq_true_eq]
  rw [if_neg (not_lt.2 not_tiny), if_neg (not_lt.2 not_huge)]
  exact Interval.ofRatio_of_holds negative num_pos den_pos pos canonical h

/-- Whatever is read from a decimal and is finite is canonical. -/
theorem ofDecimal_canonical {m digits : Nat} {e power : Int} {negative negative' : Bool}
    (h : ofDecimal negative digits power = .finite negative' m e) : Canonical m e := by
  simp only [ofDecimal] at h
  split_ifs at h
  · cases h
    decide
  · exact ofRatio_canonical (scaleDown_pos (by norm_num) power) h

/-- **The shortest decimal of a double reads back as it**, and so does every decimal of the same
value. -/
theorem ofDecimal_shortest {m : Nat} {e : Int} {digits : Nat} {power : Int} (negative : Bool)
    (pos : 0 < m) (canonical : Canonical m e)
    (same : (digits : ℚ) * 10 ^ power = (shortest m e).value) :
    ofDecimal negative digits power = .finite negative m e :=
  ofDecimal_of_holds negative pos canonical (same ▸ shortest_holds pos canonical)

theorem shortest_digits_pos {m : Nat} {e : Int} (pos : 0 < m) (canonical : Canonical m e) :
    0 < (shortest m e).digits := by
  rcases Nat.eq_zero_or_pos (shortest m e).digits with none | some
  · have low := (holds_bounds pos canonical (shortest_holds pos canonical)).1
    have := ten_pos (-400)
    rw [value, none, Nat.cast_zero, zero_mul] at low
    linarith
  · exact some

end ResourceApi.Decimal
