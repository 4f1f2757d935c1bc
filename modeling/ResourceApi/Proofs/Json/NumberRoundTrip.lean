import ResourceApi.Json.Reader
import ResourceApi.Json.Writer
import ResourceApi.Proofs.Number.ReadBack

/-! # Numbers read back

A number is read as far as its digits, its fraction and its exponent go. Behind a
written number stands a comma, a line feed or nothing, so the reader takes all of it
and no more; and a written double has a fraction or an exponent, so it is not taken
for an integer. -/

namespace ResourceApi.Json

open Numeral (isDigit digitsValue)

/-! ## Digits -/

/-- Characters that are all digits. -/
def Digits (ds : List Char) : Prop := ∀ c ∈ ds, isDigit c = true

/-- What may follow a number: a comma, a line feed or nothing. -/
def Ends (rest : List Char) : Prop := ∀ c ∈ rest.head?, c = ',' ∨ c = '\n'

theorem ends_nil : Ends [] := by
  intro c mem
  cases mem

theorem isDigit_iff {c : Char} : isDigit c = true ↔ c.isDigit = true := by
  simp only [isDigit, Char.isDigit, Bool.and_eq_true, decide_eq_true_eq, ge_iff_le]
  exact Iff.rfl

theorem mem_of_isDigit {x : Char} (digit : isDigit x = true) : x ∈ "0123456789".toList := by
  have each : ∀ n < 58, 48 ≤ n → Char.ofNat n ∈ "0123456789".toList := by decide
  rw [isDigit, Bool.and_eq_true, decide_eq_true_eq, decide_eq_true_eq] at digit
  have low : 48 ≤ x.toNat := digit.1
  have high : x.toNat ≤ 57 := digit.2
  have mem := each x.toNat (by omega) low
  rwa [Char.ofNat_toNat] at mem

theorem digits_append {ds ds' : List Char} : Digits (ds ++ ds') ↔ Digits ds ∧ Digits ds' :=
  List.forall_mem_append

theorem digits_cons {c : Char} {ds : List Char} :
    Digits (c :: ds) ↔ isDigit c = true ∧ Digits ds := List.forall_mem_cons

theorem digits_toDigits (n : Nat) : Digits (Nat.toDigits 10 n) := by
  intro c mem
  exact isDigit_iff.2 (Nat.isDigit_of_mem_toDigits (by decide) (by decide) mem)

theorem digits_zeros (n : Nat) : Digits (List.replicate n '0') := by
  intro c mem
  rw [List.eq_of_mem_replicate mem]
  decide

theorem digits_sublist {ds ds' : List Char} (h : Digits ds') (sub : ds.Sublist ds') : Digits ds :=
  fun c mem => h c (sub.subset mem)

theorem digitsValue_eq (ds : List Char) : digitsValue ds = Nat.ofDigitChars 10 ds 0 := rfl

theorem digitsValue_toDigits (n : Nat) : digitsValue (Nat.toDigits 10 n) = n :=
  Nat.ofDigitChars_ten_toDigits

theorem digitsValue_zeros_append (n : Nat) (ds : List Char) :
    digitsValue (List.replicate n '0' ++ ds) = digitsValue ds := by
  rw [digitsValue_eq, Nat.ofDigitChars_append, Nat.ofDigitChars_replicate_zero, Nat.mul_zero,
    digitsValue_eq]

theorem digitsValue_append_zeros (ds : List Char) (n : Nat) :
    digitsValue (ds ++ List.replicate n '0') = 10 ^ n * digitsValue ds := by
  rw [digitsValue_eq, Nat.ofDigitChars_append, Nat.ofDigitChars_replicate_zero, digitsValue_eq]

/-- A positive number has no leading zero. -/
theorem head?_toDigits {n : Nat} (pos : 0 < n) : (Nat.toDigits 10 n).head? ≠ some '0' := by
  induction n using Nat.strongRecOn with
  | ind n ih =>
    rcases Nat.lt_or_ge n 10 with small | large
    · rw [Nat.toDigits_of_lt_base small]
      have nonzero : ∀ k < 10, 0 < k → ¬ k.digitChar = '0' := by decide
      simpa using nonzero n small pos
    · rw [Nat.toDigits_of_base_le (by decide) large,
        List.head?_append_of_ne_nil _ Nat.toDigits_ne_nil]
      exact ih (n / 10) (Nat.div_lt_self pos (by decide)) (Nat.div_pos large (by decide))

/-- Digits are taken up to what is no digit. -/
theorem takeWhile_digits {ds rest : List Char} (digits : Digits ds)
    (stops : ∀ c ∈ rest.head?, isDigit c = false) :
    (ds ++ rest).takeWhile isDigit = ds ∧ (ds ++ rest).dropWhile isDigit = rest := by
  induction ds with
  | nil =>
    cases rest with
    | nil => exact ⟨rfl, rfl⟩
    | cons c rest =>
      have none : isDigit c = false := stops c rfl
      simp [none]
  | cons c ds ih =>
    obtain ⟨first, later⟩ := digits_cons.1 digits
    obtain ⟨taken, dropped⟩ := ih later
    simp [first, taken, dropped]

theorem Ends.stops {rest : List Char} (ends : Ends rest) :
    ∀ c ∈ rest.head?, isDigit c = false := by
  intro c mem
  rcases ends c mem with rfl | rfl <;> decide

/-! ## The parts of a number -/

/-- The digits of a whole part: a zero alone, or digits of which the first is not zero. -/
def Whole (ds : List Char) : Prop :=
  Digits ds ∧ ds ≠ [] ∧ (ds.head? = some '0' → ds = ['0'])

theorem wholePart_append {ds rest : List Char} (whole : Whole ds)
    (stops : ∀ c ∈ rest.head?, isDigit c = false) : wholePart (ds ++ rest) = some (ds, rest) := by
  obtain ⟨digits, some, alone⟩ := whole
  obtain ⟨taken, dropped⟩ := takeWhile_digits digits stops
  cases ds with
  | nil => exact absurd rfl some
  | cons c ds =>
    by_cases zero : c = '0'
    · subst zero
      rw [alone rfl]
      rfl
    · have first := (digits_cons.1 digits).1
      rw [List.cons_append] at taken dropped ⊢
      rw [wholePart.eq_def]
      split
      · next same => exact absurd (List.cons.inj same).1 zero
      · next same =>
        obtain ⟨rfl, rfl⟩ := List.cons.inj same
        rw [if_pos first, taken, dropped]
      · next same => cases same

theorem whole_toDigits (n : Nat) : Whole (Nat.toDigits 10 n) := by
  refine ⟨digits_toDigits n, Nat.toDigits_ne_nil, fun zero => ?_⟩
  rcases Nat.eq_zero_or_pos n with rfl | pos
  · rfl
  · exact absurd zero (head?_toDigits pos)

theorem whole_singleton {c : Char} (digit : isDigit c = true) : Whole [c] := by
  refine ⟨?_, List.cons_ne_nil _ _, fun zero => ?_⟩
  · exact digits_cons.2 ⟨digit, fun _ mem => absurd mem List.not_mem_nil⟩
  · rw [Option.some.inj zero]

theorem fractionPart_point {ds rest : List Char} (digits : Digits ds) (some : ds ≠ [])
    (stops : ∀ c ∈ rest.head?, isDigit c = false) :
    fractionPart ('.' :: (ds ++ rest)) = (ds, rest) := by
  obtain ⟨taken, dropped⟩ := takeWhile_digits digits stops
  cases ds with
  | nil => exact absurd rfl some
  | cons c ds =>
    rw [List.cons_append] at taken dropped ⊢
    rw [fractionPart, if_pos (digits_cons.1 digits).1, taken, dropped]

theorem fractionPart_of_head {cs : List Char} (h : cs.head? ≠ some '.') :
    fractionPart cs = ([], cs) := by
  cases cs with
  | nil => rfl
  | cons c rest =>
    rw [fractionPart.eq_def]
    split
    · next same => exact absurd (congrArg List.head? same) h
    · rfl

theorem Ends.fractionPart {rest : List Char} (ends : Ends rest) :
    fractionPart rest = ([], rest) := by
  refine fractionPart_of_head fun point => ?_
  rcases ends '.' point with h | h <;> exact absurd h (by decide)

theorem Ends.exponentPart {rest : List Char} (ends : Ends rest) :
    exponentPart rest = (none, rest) := by
  cases rest with
  | nil => rfl
  | cons c rest =>
    rcases ends c rfl with rfl | rfl <;> rfl

theorem exponentPart_sign {ds rest : List Char} (digits : Digits ds) (some : ds ≠ [])
    (ends : Ends rest) :
    exponentPart ('e' :: '-' :: (ds ++ rest)) = (.some (-(digitsValue ds : Int)), rest) ∧
      exponentPart ('e' :: '+' :: (ds ++ rest)) = (.some (digitsValue ds : Int), rest) := by
  obtain ⟨taken, dropped⟩ := takeWhile_digits digits ends.stops
  have filled : ds.isEmpty = false := by
    rw [List.isEmpty_eq_false_iff]
    exact some
  constructor <;> simp [Json.exponentPart, taken, dropped, filled]

/-! ## Integers -/

theorem readUnsigned_int {n : Nat} (short : (Nat.toDigits 10 n).length ≤ Numeral.mostDigits)
    {rest : List Char} (ends : Ends rest) (start : List Char) (negative : Bool) :
    readUnsigned start negative (Nat.toDigits 10 n ++ rest) =
      .ok (int (if negative then -n else n), rest) := by
  simp only [readUnsigned, wholePart_append (whole_toDigits n) ends.stops, ends.fractionPart,
    ends.exponentPart, List.isEmpty_nil, Bool.not_true, Option.isSome_none, Bool.or_false,
    Bool.false_eq_true, if_false, if_neg (Nat.not_lt.2 short), digitsValue_toDigits]

/-! ## Doubles -/

/-- A number with digits before and behind a point. -/
theorem readUnsigned_point {whole fraction rest : List Char} (first : Whole whole)
    (digits : Digits fraction) (some : fraction ≠ []) (ends : Ends rest) (start : List Char)
    (negative : Bool) :
    readUnsigned start negative (whole ++ '.' :: (fraction ++ rest)) =
      .ok (float (.ofDecimal negative (digitsValue (whole ++ fraction)) (-fraction.length)),
        rest) := by
  have stops : ∀ c ∈ ('.' :: (fraction ++ rest)).head?, isDigit c = false := by
    rintro c ⟨⟩
    decide
  have filled : fraction.isEmpty = false := by
    rw [List.isEmpty_eq_false_iff]
    exact some
  simp only [readUnsigned, wholePart_append first stops, fractionPart_point digits some ends.stops,
    ends.exponentPart, filled, Bool.not_false, Bool.true_or, if_true, Option.getD_none, zero_sub]

/-- A number of one digit with an exponent. -/
theorem readUnsigned_exponent {c : Char} (digit : isDigit c = true) {cs rest : List Char}
    {exponent : Int} (head : cs.head? = some 'e')
    (read : exponentPart (cs ++ rest) = (some exponent, rest)) (start : List Char)
    (negative : Bool) :
    readUnsigned start negative (c :: (cs ++ rest)) =
      .ok (float (.ofDecimal negative (digitsValue [c]) exponent), rest) := by
  have headed : (cs ++ rest).head? = some 'e' := by
    rw [List.head?_append, head, Option.some_or]
  have stops : ∀ c ∈ (cs ++ rest).head?, isDigit c = false := by
    rw [headed]
    rintro c ⟨⟩
    decide
  have none : fractionPart (cs ++ rest) = ([], cs ++ rest) :=
    fractionPart_of_head (by rw [headed]; decide)
  have whole := wholePart_append (whole_singleton digit) stops
  rw [List.singleton_append] at whole
  simp [readUnsigned, whole, none, read]

/-- A number of several digits, the first before the point, with an exponent. -/
theorem readUnsigned_point_exponent {c : Char} (digit : isDigit c = true)
    {fraction cs rest : List Char} {exponent : Int} (digits : Digits fraction)
    (some : fraction ≠ []) (head : cs.head? = .some 'e')
    (read : exponentPart (cs ++ rest) = (.some exponent, rest)) (start : List Char)
    (negative : Bool) :
    readUnsigned start negative (c :: '.' :: (fraction ++ (cs ++ rest))) =
      .ok (float (.ofDecimal negative (digitsValue (c :: fraction))
        (exponent - fraction.length)), rest) := by
  have stops : ∀ c ∈ (cs ++ rest).head?, isDigit c = false := by
    rw [List.head?_append, head, Option.some_or]
    rintro c ⟨⟩
    decide
  have stops' : ∀ c ∈ ('.' :: (fraction ++ (cs ++ rest))).head?, isDigit c = false := by
    rintro c ⟨⟩
    decide
  have whole := wholePart_append (whole_singleton digit) stops'
  rw [List.singleton_append] at whole
  simp [readUnsigned, whole, fractionPart_point digits some stops, read]

/-! ## Written decimals -/

/-- The number is read from the text as a double that the given decimal rounds to. -/
def ReadsAs (text : List Char) (d : Decimal) : Prop :=
  ∀ (rest : List Char), Ends rest → ∀ (start : List Char) (negative : Bool),
    ∃ (digits : Nat) (power : Int), (digits : ℚ) * 10 ^ power = d.value ∧
      readUnsigned start negative (text ++ rest) =
        .ok (float (.ofDecimal negative digits power), rest)

/-- The exponent of a decimal is written with a sign and at least two digits. -/
theorem exponentPart_written (lead : Int) (fill : Nat) {rest : List Char} (ends : Ends rest) :
    exponentPart ('e' :: (if lead < 0 then '-' else '+') ::
        (List.replicate fill '0' ++ Nat.toDigits 10 lead.natAbs ++ rest)) =
      (some lead, rest) := by
  have digits : Digits (List.replicate fill '0' ++ Nat.toDigits 10 lead.natAbs) :=
    digits_append.2 ⟨digits_zeros fill, digits_toDigits _⟩
  have filled : List.replicate fill '0' ++ Nat.toDigits 10 lead.natAbs ≠ [] := by
    simp [Nat.toDigits_ne_nil]
  obtain ⟨minus, plus⟩ := exponentPart_sign digits filled ends
  rw [digitsValue_zeros_append, digitsValue_toDigits] at minus plus
  by_cases negative : lead < 0
  · rw [if_pos negative, minus]
    congr 2
    omega
  · rw [if_neg negative, plus]
    congr 2
    omega

/-- A decimal with an exponent. -/
theorem readsAs_exponent (d : Decimal) (fill : Nat) {lead : Int}
    (leads : lead = d.power + (Nat.toDigits 10 d.digits).length - 1) :
    ReadsAs ((Nat.toDigits 10 d.digits).take 1 ++
      (match (Nat.toDigits 10 d.digits).drop 1 with
        | [] => []
        | more => '.' :: more) ++
      'e' :: (if lead < 0 then '-' else '+') :: List.replicate fill '0' ++
      Nat.toDigits 10 lead.natAbs) d := by
  intro rest ends start negative
  have digits := digits_toDigits d.digits
  have value := digitsValue_toDigits d.digits
  have some := Nat.toDigits_ne_nil (n := d.digits) (b := 10)
  generalize Nat.toDigits 10 d.digits = ds at *
  obtain ⟨c, more, rfl⟩ := List.exists_cons_of_ne_nil some
  obtain ⟨first, digits⟩ := digits_cons.1 digits
  have exponent := exponentPart_written lead fill ends
  refine ⟨d.digits, d.power, rfl, ?_⟩
  have cs : (('e' :: (if lead < 0 then '-' else '+') :: List.replicate fill '0' ++
      Nat.toDigits 10 lead.natAbs) ++ rest) =
        'e' :: (if lead < 0 then '-' else '+') ::
          (List.replicate fill '0' ++ Nat.toDigits 10 lead.natAbs ++ rest) := by
    simp
  rw [← cs] at exponent
  rw [← value]
  cases more with
  | nil =>
    have read := readUnsigned_exponent first (by rfl) exponent start negative
    simp only [List.length_singleton] at leads
    rw [show lead = d.power by omega] at read ⊢
    simpa using read
  | cons c' more =>
    have read := readUnsigned_point_exponent first digits (by simp) (by rfl) exponent start negative
    simp only [List.length_cons] at leads read
    rw [show lead - ((more.length + 1 : Nat) : Int) = d.power by push_cast at *; omega] at read
    simpa using read

/-- A decimal below one, with zeros behind the point. -/
theorem readsAs_small (d : Decimal) {lead : Int} (small : lead < 0)
    (leads : lead = d.power + (Nat.toDigits 10 d.digits).length - 1) :
    ReadsAs ('0' :: '.' :: List.replicate (-lead - 1).toNat '0' ++ Nat.toDigits 10 d.digits) d := by
  intro rest ends start negative
  have zero : Whole ['0'] := whole_singleton rfl
  have digits : Digits (List.replicate (-lead - 1).toNat '0' ++ Nat.toDigits 10 d.digits) :=
    digits_append.2 ⟨digits_zeros _, digits_toDigits _⟩
  have read := readUnsigned_point zero digits (by simp [Nat.toDigits_ne_nil]) ends start negative
  refine ⟨d.digits, d.power, rfl, ?_⟩
  have value : digitsValue (['0'] ++ (List.replicate (-lead - 1).toNat '0' ++
      Nat.toDigits 10 d.digits)) = d.digits := by
    rw [← List.append_assoc, show ['0'] ++ List.replicate (-lead - 1).toNat '0' =
      List.replicate ((-lead - 1).toNat + 1) '0' from rfl, digitsValue_zeros_append,
      digitsValue_toDigits]
  have power : -((List.replicate (-lead - 1).toNat '0' ++ Nat.toDigits 10 d.digits).length : Int) =
      d.power := by
    rw [List.length_append, List.length_replicate]
    omega
  rw [value, power] at read
  simpa using read

/-- The first digits of a positive number are a whole part, also with zeros behind them. -/
theorem whole_take {n : Nat} (pos : 0 < n) (count zeros : Nat) :
    Whole ((Nat.toDigits 10 n).take (count + 1) ++ List.replicate zeros '0') := by
  have digits := digits_toDigits n
  have head := head?_toDigits pos
  obtain ⟨c, more, text⟩ := List.exists_cons_of_ne_nil (Nat.toDigits_ne_nil (n := n) (b := 10))
  rw [text] at digits head ⊢
  rw [List.take_succ_cons, List.cons_append]
  refine ⟨?_, List.cons_ne_nil _ _, fun zero => absurd zero head⟩
  obtain ⟨first, later⟩ := digits_cons.1 digits
  exact digits_cons.2
    ⟨first, digits_append.2 ⟨digits_sublist later (List.take_sublist _ _), digits_zeros _⟩⟩

section Positional

variable {d : Decimal} {lead : Int}

/-- A decimal all of whose digits are written, some of them behind the point. -/
theorem readsAs_fractional (pos : 0 < d.digits) (large : 0 ≤ lead)
    (leads : lead = d.power + (Nat.toDigits 10 d.digits).length - 1) (fractional : d.power < 0) :
    ReadsAs ((Nat.toDigits 10 d.digits).take (lead.toNat + 1) ++
      '.' :: (Nat.toDigits 10 d.digits).drop (lead.toNat + 1)) d := by
  intro rest ends start negative
  have filled : (Nat.toDigits 10 d.digits).drop (lead.toNat + 1) ≠ [] := by
    rw [Ne, List.drop_eq_nil_iff]
    omega
  have behind := digits_sublist (digits_toDigits d.digits) (List.drop_sublist (lead.toNat + 1) _)
  have whole := whole_take pos lead.toNat 0
  rw [List.replicate_zero, List.append_nil] at whole
  have read := readUnsigned_point whole behind filled ends start negative
  have power : -(((Nat.toDigits 10 d.digits).drop (lead.toNat + 1)).length : Int) = d.power := by
    rw [List.length_drop]
    omega
  rw [List.take_append_drop, digitsValue_toDigits, power] at read
  refine ⟨d.digits, d.power, rfl, ?_⟩
  rw [List.append_assoc, List.cons_append]
  exact read

/-- A decimal with zeros written up to the point, and one behind it. -/
theorem readsAs_integral (pos : 0 < d.digits)
    (leads : lead = d.power + (Nat.toDigits 10 d.digits).length - 1) (integral : 0 ≤ d.power) :
    ReadsAs ((Nat.toDigits 10 d.digits).take (lead.toNat + 1) ++
      List.replicate d.power.toNat '0' ++ ['.', '0']) d := by
  intro rest ends start negative
  have all : (Nat.toDigits 10 d.digits).take (lead.toNat + 1) = Nat.toDigits 10 d.digits :=
    List.take_of_length_le (by omega)
  have read := readUnsigned_point (whole_take pos lead.toNat d.power.toNat) (digits_zeros 1)
    (by simp) ends start negative
  have value : digitsValue (Nat.toDigits 10 d.digits ++ List.replicate d.power.toNat '0' ++
      List.replicate 1 '0') = 10 ^ (d.power.toNat + 1) * d.digits := by
    rw [List.append_assoc, List.replicate_append_replicate, digitsValue_append_zeros,
      digitsValue_toDigits]
  have power : (10 : ℚ) ^ d.power = 10 ^ d.power.toNat := by
    rw [← zpow_natCast, Int.toNat_of_nonneg integral]
  rw [all, value] at read
  refine ⟨10 ^ (d.power.toNat + 1) * d.digits, -1, ?_, ?_⟩
  · rw [Decimal.value, power]
    push_cast
    rw [pow_succ, zpow_neg_one]
    field_simp
  · rw [all, List.append_assoc]
    exact read

/-- A decimal with digits on both sides of the point. -/
theorem readsAs_positional (pos : 0 < d.digits) (large : 0 ≤ lead)
    (leads : lead = d.power + (Nat.toDigits 10 d.digits).length - 1) :
    ReadsAs ((Nat.toDigits 10 d.digits).take (lead.toNat + 1) ++
      List.replicate d.power.toNat '0' ++
      '.' :: (if ((Nat.toDigits 10 d.digits).drop (lead.toNat + 1)).isEmpty then ['0']
        else (Nat.toDigits 10 d.digits).drop (lead.toNat + 1))) d := by
  rcases Int.lt_or_le d.power 0 with fractional | integral
  · have filled : (Nat.toDigits 10 d.digits).drop (lead.toNat + 1) ≠ [] := by
      rw [Ne, List.drop_eq_nil_iff]
      omega
    rw [if_neg (by simpa using filled), show d.power.toNat = 0 by omega, List.replicate_zero,
      List.append_nil]
    exact readsAs_fractional pos large leads fractional
  · have none : (Nat.toDigits 10 d.digits).drop (lead.toNat + 1) = [] :=
      List.drop_eq_nil_iff.2 (by omega)
    rw [none]
    exact readsAs_integral pos leads integral

end Positional

/-- **A written decimal is read as a decimal of the same value.** -/
theorem readsAs_write (d : Decimal) (pos : 0 < d.digits) :
    ReadsAs (d.write floatStyle).toList d := by
  rw [Decimal.write]
  dsimp only
  split
  · rw [String.toList_ofList]
    exact readsAs_exponent d _ rfl
  split
  · next small =>
    rw [String.toList_ofList]
    exact readsAs_small d small rfl
  · next large =>
    rw [String.toList_ofList]
    exact readsAs_positional pos (Int.not_lt.1 large) rfl

end ResourceApi.Json
