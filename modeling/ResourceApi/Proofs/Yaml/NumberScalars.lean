import Mathlib.Data.List.TakeWhile
import ResourceApi.Proofs.Json.RoundTrip
import ResourceApi.Proofs.Text.PatternLanguage
import ResourceApi.Proofs.Yaml.PlainWords

/-! # Numbers as plain scalars

A written number has the form of a number of its kind and of no kind that is tried
before, and its characters give it back: an integer digit by digit, a double because
its digits are the shortest that read back as it. A double has a point, which no integer has. -/

namespace ResourceApi.Yaml

open Json (Digits mem_of_isDigit digits_cons digits_append digits_toDigits digits_zeros digits_sublist
  takeWhile_digits digitsValue_toDigits head?_toDigits int_text)
open Numeral (isDigit digitsValue splitSign)
open Text.Pattern

variable {ds whole fraction cs : List Char} {x : Char}

/-- A sign, if a number is negative. -/
def signOf (negative : Bool) : List Char := if negative then ['-'] else []

theorem word_signed (negative : Bool) (word : Word ds) : Word (signOf negative ++ ds) := by
  cases negative
  · exact word
  · exact word.cons (by decide)

theorem hasIndicator_signed {negative : Bool} (word : Word (x :: ds)) (digit : isDigit x = true) :
    hasIndicator (signOf negative ++ x :: ds) = false := by
  have dash : x ≠ '-' := by
    rintro rfl
    cases digit
  have point : x ≠ '.' := by
    rintro rfl
    cases digit
  cases negative
  · exact word.hasIndicator_cons dash point
  · exact word.hasIndicator_minus dash

theorem splitSign_signed (negative : Bool) (ds : List Char) (digit : isDigit x = true) :
    splitSign (signOf negative ++ x :: ds) = (negative, x :: ds) := by
  cases negative
  · have dash : x ≠ '-' := by
      rintro rfl
      cases digit
    have plus : x ≠ '+' := by
      rintro rfl
      cases digit
    unfold splitSign
    split
    · next same => exact absurd (List.cons.inj same).1 dash
    · next same => exact absurd (List.cons.inj same).1 plus
    · rfl
  · rfl

/-! ## Forms of numbers -/

theorem inClass_digit {more : List (Char × Char)} (digit : isDigit x = true) :
    inClass (('0', '9') :: more) x = true := by
  rw [isDigit] at digit
  rw [inClass, List.any_cons, digit, Bool.true_or]

theorem matches_digit (digit : isDigit x = true) : Matches Forms.digit [x] :=
  .one (inClass_digit digit)

theorem matches_digits (digits : Digits ds) : Matches Forms.digits ds :=
  matches_many_one fun x mem => inClass_digit (digits x mem)

theorem matches_number (digits : Digits (x :: ds)) : Matches Forms.number (x :: ds) :=
  .seq (l := [x]) (matches_digit (digits_cons.1 digits).1) (matches_digits (digits_cons.1 digits).2)

theorem matches_sign (negative : Bool) : Matches Forms.sign (signOf negative) := by
  rw [Forms.sign, matches_optional]
  cases negative
  · exact Or.inl rfl
  · exact Or.inr (.one (by decide))

/-- The first character of a number, by which the forms are chosen that are tried. -/
theorem head_number (negative : Bool) (ds : List Char) (digit : isDigit x = true) :
    ∃ y more, signOf negative ++ x :: ds = y :: more ∧ y ∈ "-0123456789".toList := by
  cases negative
  · exact ⟨x, ds, rfl, List.mem_cons_of_mem _ (mem_of_isDigit digit)⟩
  · exact ⟨'-', x :: ds, rfl, by decide⟩

/-- The forms are tried in order. -/
theorem resolve_number (start : x ∈ "-0123456789".toList) :
    resolve (x :: ds) =
      if Forms.float.accepts (x :: ds) then .float
      else if Forms.int.accepts (x :: ds) then .int
      else if "0123456789".toList.contains x && Forms.timestamp.accepts (x :: ds) then .timestamp
      else .text := by
  have tried : ∀ x ∈ "-0123456789".toList,
      "yYnNtTfFoO".toList.contains x = false ∧ "-+0123456789.".toList.contains x = true ∧
        "-+0123456789".toList.contains x = true ∧ ['<'].contains x = false ∧
        ['~', 'n', 'N'].contains x = false ∧ ['='].contains x = false := by
    decide
  obtain ⟨bool, float, int, merge, null, value⟩ := tried x start
  rw [resolve, forms]
  simp only [List.find?_cons, bool, float, int, merge, null, value, Bool.false_and, Bool.true_and,
    List.find?_nil]
  cases Forms.float.accepts (x :: ds) <;> cases Forms.int.accepts (x :: ds) <;>
    cases "0123456789".toList.contains x && Forms.timestamp.accepts (x :: ds) <;> rfl

/-- A double has a point. -/
theorem point_of_float (h : Matches Forms.float cs) : '.' ∈ cs := by
  obtain ⟨p, mem, h⟩ := matches_anyOf.1 h
  simp only [List.mem_cons, List.not_mem_nil, or_false] at mem
  rcases mem with rfl | rfl | rfl | rfl | rfl <;> exact mem_of_matches_inTurn (by simp) h

/-! ## Integers -/

/-- The digits of a number. -/
theorem toDigits_cons (n : Nat) : ∃ x ds, Nat.toDigits 10 n = x :: ds ∧ isDigit x = true := by
  obtain ⟨x, ds, text⟩ := List.exists_cons_of_ne_nil (Nat.toDigits_ne_nil (n := n) (b := 10))
  have digits := digits_toDigits n
  rw [text] at digits
  exact ⟨x, ds, text, (digits_cons.1 digits).1⟩

theorem int_text_signed (n : Int) :
    (toString n).toList = signOf (n < 0) ++ Nat.toDigits 10 n.natAbs := by
  rw [int_text, signOf]
  simp

theorem word_int (n : Int) : Word (toString n).toList := by
  rw [int_text_signed]
  exact word_signed _ (.of_digits (digits_toDigits _) Nat.toDigits_ne_nil)

theorem hasIndicator_int (n : Int) : hasIndicator (toString n).toList = false := by
  obtain ⟨x, ds, text, digit⟩ := toDigits_cons n.natAbs
  rw [int_text_signed, text]
  refine hasIndicator_signed ?_ digit
  rw [← text]
  exact .of_digits (digits_toDigits _) Nat.toDigits_ne_nil

theorem matches_int (n : Int) : Matches Forms.int (toString n).toList := by
  rw [int_text_signed]
  refine matches_anyOf.2 ⟨inTurn [Forms.sign, anyOf [char '0', Forms.positive]], by simp, ?_⟩
  refine matches_inTurn_cons.2 ⟨_, _, rfl, matches_sign _,
    matches_inTurn_cons.2 ⟨_, [], (List.append_nil _).symm, ?_, .nothing⟩⟩
  have digits := digits_toDigits n.natAbs
  rcases Nat.eq_zero_or_pos n.natAbs with zero | pos
  · rw [zero]
    exact matches_anyOf.2 ⟨_, List.mem_cons_self, .one (by decide)⟩
  · have head := head?_toDigits pos
    obtain ⟨x, ds, text, digit⟩ := toDigits_cons n.natAbs
    rw [text] at head digits ⊢
    refine matches_anyOf.2 ⟨Forms.positive, by simp, .seq (l := [x]) (.one ?_)
      (matches_digits (digits_cons.1 digits).2)⟩
    have nonzero : x.toNat ≠ 48 := by
      intro same
      refine head (congrArg some ?_)
      rw [← Char.ofNat_toNat x, same]
    rw [isDigit, Bool.and_eq_true, decide_eq_true_eq, decide_eq_true_eq] at digit
    have low : 48 ≤ x.toNat := digit.1
    have above : '1' ≤ x := show 49 ≤ x.toNat by omega
    simp [inClass, above, digit.2]

/-- **An integer resolves to an integer.** -/
theorem resolve_int (n : Int) : resolve (toString n).toList = .int := by
  have int := accepts_iff.2 (matches_int n)
  have float : Forms.float.accepts (toString n).toList = false := by
    rw [Bool.eq_false_iff]
    intro accepted
    have point := point_of_float (accepts_iff.1 accepted)
    rw [int_text_signed] at point
    rcases List.mem_append.1 point with sign | digit
    · unfold signOf at sign
      split at sign <;> simp at sign
    · exact absurd (digits_toDigits _ _ digit) (by decide)
  obtain ⟨x, ds, text, digit⟩ := toDigits_cons n.natAbs
  obtain ⟨y, more, text', start⟩ := head_number (n < 0) ds digit
  rw [int_text_signed, text, text'] at int float ⊢
  rw [resolve_number start, int, float]
  rfl

theorem valueIn_digits (digits : Digits ds) (n : Nat) :
    ds.foldl (fun n c => 10 * n + (Numeral.hexDigit? c).getD 0) n =
      ds.foldl (fun n c => 10 * n + (c.toNat - 48)) n := by
  induction ds generalizing n with
  | nil => rfl
  | cons x ds ih =>
    obtain ⟨digit, digits⟩ := digits_cons.1 digits
    rw [List.foldl_cons, List.foldl_cons, ih digits, Numeral.hexDigit?, if_pos digit]
    rfl

theorem readWhole_digits (filled : ds ≠ []) (digits : Digits ds)
    (short : ds.length ≤ Numeral.mostDigits) : readWhole 10 ds = .ok (digitsValue ds) := by
  have word := Word.of_digits digits filled
  have known : ∀ x ∈ ds, (Numeral.digit? 10 x).isSome = true := by
    intro x mem
    have digit := digits x mem
    have small : x.toNat - 48 < 10 := by
      rw [isDigit, Bool.and_eq_true, decide_eq_true_eq, decide_eq_true_eq] at digit
      have high : x.toNat ≤ 57 := digit.2
      omega
    simp [Numeral.digit?, Numeral.hexDigit?, digit, small]
  have taken : ds.takeWhile (fun c => (Numeral.digit? 10 c).isSome) = ds ∧
      ds.dropWhile (fun c => (Numeral.digit? 10 c).isSome) = [] :=
    ⟨List.takeWhile_eq_self_iff.2 known, List.dropWhile_eq_nil_iff.2 known⟩
  have announced : Numeral.dropAnnouncement 10 ds = ds := by
    unfold Numeral.dropAnnouncement
    split
    · simp [Numeral.announces]
    · rfl
  obtain ⟨x, more, rfl⟩ := List.exists_cons_of_ne_nil filled
  have sign := splitSign_signed false more (digits_cons.1 digits).1
  have value := valueIn_digits digits 0
  rw [readWhole, Numeral.readWhole, word.plainText]
  change splitSign (x :: more) = _ at sign
  simp only [sign, announced, taken, Nat.not_lt.2 short]
  exact congrArg (fun n : Nat => Except.ok (n : Int)) value

theorem readMagnitude_toDigits {n : Nat} (short : (Nat.toDigits 10 n).length ≤ Numeral.mostDigits) :
    readMagnitude (Nat.toDigits 10 n) = .ok n := by
  rcases Nat.eq_zero_or_pos n with rfl | pos
  · rfl
  have head := head?_toDigits pos
  have read := readWhole_digits Nat.toDigits_ne_nil (digits_toDigits n) short
  rw [digitsValue_toDigits] at read
  have colon : (Nat.toDigits 10 n).contains ':' = false := by
    rw [Bool.eq_false_iff, Ne, List.contains_iff_mem]
    exact fun mem => absurd (digits_toDigits n _ mem) (by decide)
  have some := Nat.toDigits_ne_nil (n := n) (b := 10)
  generalize Nat.toDigits 10 n = ds at *
  unfold readMagnitude
  split
  · exact absurd rfl head
  · exact absurd rfl head
  · exact absurd rfl head
  · exact absurd rfl head
  · exact absurd rfl some
  · rw [colon]
    exact read

/-- **An integer is read from its text.** -/
theorem readInt_toString {n : Int}
    (short : (Nat.toDigits 10 n.natAbs).length ≤ Numeral.mostDigits) :
    readInt (toString n) = .ok n := by
  obtain ⟨x, ds, text, digit⟩ := toDigits_cons n.natAbs
  have read := readMagnitude_toDigits short
  rw [text] at read
  rw [readInt, (word_int n).filter_underscores, int_text_signed, text, splitSign_signed _ _ digit]
  change (readMagnitude (x :: ds) >>= _) = _
  rw [read]
  refine congrArg Except.ok ?_
  simp only [decide_eq_true_eq]
  split <;> omega

/-! ## Doubles -/

/-- The exponent of a double in characters: nothing, or a sign and digits. -/
inductive Exponent : List Char → Int → Prop where
  | none : Exponent [] 0
  | some {ds : List Char} (negative : Bool) : Digits ds → ds ≠ [] →
      Exponent ('e' :: (if negative then '-' else '+') :: ds)
        (if negative then -digitsValue ds else digitsValue ds)

/-- The text of a double without its sign: digits, a point and digits, and an exponent. -/
inductive DoubleText : List Char → Nat → Int → Prop where
  | mk {whole fraction cs : List Char} {exponent : Int} : Digits whole → whole ≠ [] →
      Digits fraction → fraction ≠ [] → Exponent cs exponent →
      DoubleText (whole ++ '.' :: (fraction ++ cs)) (digitsValue (whole ++ fraction))
        (exponent - fraction.length)

namespace DoubleText

variable {text : List Char} {digits : Nat} {power exponent : Int} {negative : Bool}

theorem chars_of_exponent (exp : Exponent cs exponent) : ∀ x ∈ cs, x ∈ wordChars := by
  cases exp with
  | none => simp
  | some negative digits =>
    refine List.forall_mem_cons.2 ⟨by decide, List.forall_mem_cons.2 ⟨?_, fun x mem =>
      mem_wordChars_of_isDigit (digits x mem)⟩⟩
    cases negative <;> decide

theorem word (double : DoubleText text digits power) : Word text := by
  obtain ⟨before, some, behind, -, exp⟩ := double
  refine (Word.of_digits before some).append (List.forall_mem_cons.2
    ⟨by decide, List.forall_mem_append.2 ⟨fun x mem => ?_, chars_of_exponent exp⟩⟩)
  exact mem_wordChars_of_isDigit (behind x mem)

theorem starts (double : DoubleText text digits power) :
    ∃ x more, text = x :: more ∧ isDigit x = true := by
  obtain ⟨before, some, -⟩ := double
  obtain ⟨x, whole, rfl⟩ := List.exists_cons_of_ne_nil some
  exact ⟨x, _, rfl, (digits_cons.1 before).1⟩

theorem matches_exponent (exp : Exponent cs exponent) : Matches Forms.exponent cs := by
  rw [Forms.exponent, matches_optional]
  cases exp with
  | none => exact Or.inl rfl
  | @some ds negative digits filled =>
    refine Or.inr ?_
    obtain ⟨x, ds, rfl⟩ := List.exists_cons_of_ne_nil filled
    have one {c : Char} (mem : inClass ("-+".toList.map fun c => (c, c)) c = true) :
        Matches (oneOf "-+") [c] := .one mem
    refine matches_inTurn_cons.2 ⟨['e'], _, rfl, .one (by decide), matches_inTurn_cons.2
      ⟨[if negative then '-' else '+'], _, rfl, one (by cases negative <;> decide),
        matches_inTurn_cons.2 ⟨_, [], (List.append_nil _).symm, ?_, .nothing⟩⟩⟩
    obtain ⟨digit, digits⟩ := digits_cons.1 digits
    exact .seq (l := [x]) (matches_digit digit) (matches_many_one fun y mem =>
      inClass_digit (digits y mem))

theorem matches_float (double : DoubleText text digits power) (negative : Bool) :
    Matches Forms.float (signOf negative ++ text) := by
  obtain ⟨before, some, behind, -, exp⟩ := double
  obtain ⟨x, whole, rfl⟩ := List.exists_cons_of_ne_nil some
  refine matches_anyOf.2 ⟨_, List.mem_cons_self, ?_⟩
  exact matches_inTurn_cons.2 ⟨_, _, rfl, matches_sign negative, matches_inTurn_cons.2
    ⟨_, _, rfl, matches_number before, matches_inTurn_cons.2 ⟨['.'], _, rfl, .one (by decide),
      matches_inTurn_cons.2 ⟨_, _, rfl, matches_digits behind, matches_inTurn_cons.2
        ⟨_, [], (List.append_nil _).symm, matches_exponent exp, .nothing⟩⟩⟩⟩⟩

/-- **A double resolves to a double.** -/
theorem resolve (double : DoubleText text digits power) (negative : Bool) :
    resolve (signOf negative ++ text) = .float := by
  have float := accepts_iff.2 (double.matches_float negative)
  obtain ⟨x, ds, rfl, digit⟩ := double.starts
  obtain ⟨y, more, text, start⟩ := head_number negative ds digit
  rw [text] at float ⊢
  rw [resolve_number start, float]
  rfl

theorem readExponent (exp : Exponent cs exponent) : Numeral.readExponent cs = some exponent := by
  cases exp with
  | none => rfl
  | @some ds negative digits filled =>
    have all : ds.all isDigit = true := List.all_eq_true.2 digits
    cases negative <;> simp [Numeral.readExponent, splitSign, all, filled]

theorem stops_exponent (exp : Exponent cs exponent) : ∀ x ∈ cs.head?, isDigit x = false := by
  cases exp with
  | none => simp
  | some =>
    rintro x ⟨⟩
    decide

theorem readDouble (double : DoubleText text digits power) :
    Numeral.readDouble text = some (.ofDecimal false digits power) := by
  obtain ⟨x, rest, head, digit⟩ := double.starts
  have sign : splitSign text = (false, text) := by
    rw [head]
    exact splitSign_signed false _ digit
  have words : Numeral.isWord text "inf" = false ∧ Numeral.isWord text "infinity" = false ∧
      Numeral.isWord text "nan" = false := by
    have letters : ∀ x ∈ "0123456789".toList, x.toLower ≠ 'i' ∧ x.toLower ≠ 'n' := by decide
    obtain ⟨i, n⟩ := letters x (mem_of_isDigit digit)
    simp [head, Numeral.isWord, i, n]
  obtain @⟨whole, fraction, cs, exponent, before, some, behind, -, exp⟩ := double
  have point : ∀ x ∈ ('.' :: (fraction ++ cs)).head?, isDigit x = false := by
    rintro x ⟨⟩
    decide
  obtain ⟨taken, dropped⟩ := takeWhile_digits before point
  obtain ⟨taken', dropped'⟩ := takeWhile_digits behind (stops_exponent exp)
  rw [Numeral.readDouble, sign]
  simp only [words, taken, dropped, taken', dropped']
  simp [readExponent exp, some]

theorem readFloat (double : DoubleText text digits power) (negative : Bool) :
    readFloat (String.ofList (signOf negative ++ text)) =
      .ok (if negative then (Binary64.ofDecimal false digits power).neg
        else .ofDecimal false digits power) := by
  have word := double.word
  have signed := word_signed negative word
  have read := double.readDouble
  obtain ⟨x, rest, rfl, digit⟩ := double.starts
  have other {y : Char} (no : isDigit y = false) : x ≠ y := by
    rintro rfl
    rw [no] at digit
    cases digit
  have magnitude : readDoubleMagnitude (x :: rest) = .ok (.ofDecimal false digits power) := by
    have colon : (x :: rest).contains ':' = false := by
      rw [Bool.eq_false_iff, Ne, List.contains_iff_mem]
      exact fun mem => absurd (word.chars _ mem) (by decide)
    have names : ((x :: rest) == ".inf".toList) = false ∧
        ((x :: rest) == ".nan".toList) = false := by
      simp [other (y := '.') (by decide)]
    rw [readDoubleMagnitude, names.1, names.2, colon]
    simp [Yaml.readDouble, Numeral.readFreeDouble, word.plainText, read]
  rw [Yaml.readFloat, String.toList_ofList, signed.filter_underscores, signed.lower,
    String.toList_ofList]
  simp only [splitSign_signed _ _ digit, magnitude]
  have filled : (signOf negative ++ x :: rest).isEmpty = false := by simp
  rw [filled]
  rfl

end DoubleText

/-! ## Written doubles -/

/-- The text writes a number of this value. -/
def Writes (text : List Char) (value : ℚ) : Prop :=
  ∃ (digits : Nat) (power : Int), DoubleText text digits power ∧ (digits : ℚ) * 10 ^ power = value

/-- The exponent of a decimal is written with a sign and at least two digits. -/
theorem exponent_written (lead : Int) (fill : Nat) :
    Exponent ('e' :: (if lead < 0 then '-' else '+') ::
      (List.replicate fill '0' ++ Nat.toDigits 10 lead.natAbs)) lead := by
  have digits : Digits (List.replicate fill '0' ++ Nat.toDigits 10 lead.natAbs) :=
    digits_append.2 ⟨digits_zeros fill, digits_toDigits _⟩
  have exp := Exponent.some (decide (lead < 0)) digits (by simp [Nat.toDigits_ne_nil])
  rw [Json.digitsValue_zeros_append, digitsValue_toDigits] at exp
  have same : (if decide (lead < 0) = true then -(lead.natAbs : Int) else lead.natAbs) = lead := by
    simp only [decide_eq_true_eq]
    split <;> omega
  rw [same] at exp
  simpa using exp

/-- The digits of a decimal stand in the text, with more zeros before and behind them. -/
theorem writes_of_zeros {d : Decimal} {whole fraction cs : List Char} {exponent : Int}
    (leading zeros : Nat) (before : Digits whole) (some : whole ≠ []) (behind : Digits fraction)
    (filled : fraction ≠ []) (exp : Exponent cs exponent)
    (all : whole ++ fraction =
      List.replicate leading '0' ++ (Nat.toDigits 10 d.digits ++ List.replicate zeros '0'))
    (place : exponent - fraction.length = d.power - zeros) :
    Writes (whole ++ '.' :: (fraction ++ cs)) d.value := by
  refine ⟨_, _, .mk before some behind filled exp, ?_⟩
  rw [all, place, Json.digitsValue_zeros_append, Json.digitsValue_append_zeros,
    digitsValue_toDigits, Decimal.value]
  push_cast
  rw [zpow_sub₀ (by norm_num), zpow_natCast]
  field_simp

theorem writes_exponent (d : Decimal) (fill : Nat) {lead : Int}
    (leads : lead = d.power + (Nat.toDigits 10 d.digits).length - 1) :
    Writes ((Nat.toDigits 10 d.digits).take 1 ++
      (match (Nat.toDigits 10 d.digits).drop 1 with
        | [] => ['.', '0']
        | more => '.' :: more) ++
      'e' :: (if lead < 0 then '-' else '+') :: List.replicate fill '0' ++
      Nat.toDigits 10 lead.natAbs) d.value := by
  have digits := digits_toDigits d.digits
  obtain ⟨x, more, text, -⟩ := toDigits_cons d.digits
  have exp := exponent_written lead fill
  rw [text] at leads digits ⊢
  obtain ⟨first, digits⟩ := digits_cons.1 digits
  have one : Digits [x] := digits_cons.2 ⟨first, fun _ mem => absurd mem List.not_mem_nil⟩
  cases more with
  | nil =>
    have writes := writes_of_zeros (d := d) 0 1 one (by simp) (digits_zeros 1) (by simp) exp
      (by rw [text]; rfl) (by simp at leads ⊢; omega)
    simpa using writes
  | cons y more =>
    have writes := writes_of_zeros (d := d) 0 0 one (by simp) digits (by simp) exp
      (by simp [text]) (by simp at leads ⊢; omega)
    simpa using writes

/-- A decimal below one. -/
theorem writes_small (d : Decimal) {lead : Int} (small : lead < 0)
    (leads : lead = d.power + (Nat.toDigits 10 d.digits).length - 1) :
    Writes ('0' :: '.' :: List.replicate (-lead - 1).toNat '0' ++ Nat.toDigits 10 d.digits)
      d.value := by
  have writes := writes_of_zeros (d := d) ((-lead - 1).toNat + 1) 0 (digits_zeros 1) (by simp)
    (digits_append.2 ⟨digits_zeros (-lead - 1).toNat, digits_toDigits d.digits⟩)
    (by simp [Nat.toDigits_ne_nil]) .none (by simp [List.replicate_succ]) (by
      rw [List.length_append, List.length_replicate]
      omega)
  simpa using writes

/-- A decimal with digits on both sides of the point. -/
theorem writes_positional (d : Decimal) {lead : Int} (large : 0 ≤ lead)
    (leads : lead = d.power + (Nat.toDigits 10 d.digits).length - 1) :
    Writes ((Nat.toDigits 10 d.digits).take (lead.toNat + 1) ++
      List.replicate d.power.toNat '0' ++
      '.' :: (if ((Nat.toDigits 10 d.digits).drop (lead.toNat + 1)).isEmpty then ['0']
        else (Nat.toDigits 10 d.digits).drop (lead.toNat + 1))) d.value := by
  have taken := digits_sublist (digits_toDigits d.digits) (List.take_sublist (lead.toNat + 1) _)
  have dropped := digits_sublist (digits_toDigits d.digits) (List.drop_sublist (lead.toNat + 1) _)
  have some : (Nat.toDigits 10 d.digits).take (lead.toNat + 1) ≠ [] := by
    simp [List.take_eq_nil_iff, Nat.toDigits_ne_nil]
  rcases Int.lt_or_le d.power 0 with fractional | integral
  · have filled : (Nat.toDigits 10 d.digits).drop (lead.toNat + 1) ≠ [] := by
      rw [Ne, List.drop_eq_nil_iff]
      omega
    have writes := writes_of_zeros (d := d) 0 0 taken some dropped filled .none (by simp) (by
      rw [List.length_drop]
      omega)
    rw [if_neg (by simpa using filled), show d.power.toNat = 0 by omega]
    simpa using writes
  · have all : (Nat.toDigits 10 d.digits).take (lead.toNat + 1) = Nat.toDigits 10 d.digits :=
      List.take_of_length_le (by omega)
    have none : (Nat.toDigits 10 d.digits).drop (lead.toNat + 1) = [] :=
      List.drop_eq_nil_iff.2 (by omega)
    have writes := writes_of_zeros (d := d) 0 (d.power.toNat + 1)
      (digits_append.2 ⟨taken, digits_zeros d.power.toNat⟩) (by simp [some]) (digits_zeros 1)
      (by simp) .none (by simp [all, List.replicate_succ']) (by
        rw [List.length_replicate]
        omega)
    rw [none]
    simpa using writes

/-- A decimal is written in the form of a double. -/
theorem writes_write (d : Decimal) : Writes (d.write floatStyle).toList d.value := by
  rw [Decimal.write]
  dsimp only
  split
  · rw [String.toList_ofList]
    exact writes_exponent d _ rfl
  split
  · next small =>
    rw [String.toList_ofList]
    exact writes_small d small rfl
  · next large =>
    rw [String.toList_ofList]
    exact writes_positional d (Int.not_lt.1 large) rfl

/-- The text of a finite double is a sign and the text of a number that is read as it. -/
theorem write_finite {m : Nat} {e : Int} (canonical : Binary64.Canonical m e) (negative : Bool) :
    ∃ text digits power, ((Binary64.finite negative m e).write floatStyle).toList =
      signOf negative ++ text ∧ DoubleText text digits power ∧
      Binary64.ofDecimal false digits power = .finite false m e := by
  have signed (body : String) : (if negative then "-" ++ body else body).toList =
      signOf negative ++ body.toList := by
    cases negative
    · rfl
    · exact String.toList_append
  rw [Binary64.write, signed]
  rcases Nat.eq_zero_or_pos m with rfl | pos
  · have least : e = -1074 := canonical.2.2.2.resolve_left (by decide)
    subst least
    exact ⟨_, _, _, rfl, .mk (digits_zeros 1) (by decide) (digits_zeros 1) (by decide) .none, rfl⟩
  · have nonzero : (m == 0) = false := beq_eq_false_iff_ne.2 pos.ne'
    obtain ⟨digits, power, double, value⟩ := writes_write (Decimal.shortest m e)
    refine ⟨_, digits, power, rfl, ?_, Decimal.ofDecimal_shortest false pos canonical value⟩
    rwa [nonzero, if_neg Bool.false_ne_true]

/-- The text of a double that is not finite. -/
theorem write_notFinite {t : String} (mem : t ∈ [".inf", "-.inf", ".nan"]) :
    Word t.toList ∧ hasIndicator t.toList = false ∧ resolve t.toList = .float := by
  have each : ∀ t ∈ [".inf", "-.inf", ".nan"], t.toList ≠ [] ∧ (∀ x ∈ t.toList, x ∈ wordChars) ∧
      hasIndicator t.toList = false ∧ resolve t.toList = .float := by
    decide
  obtain ⟨filled, chars, indicator, float⟩ := each t mem
  exact ⟨⟨filled, chars⟩, indicator, float⟩

/-- **A double that can be stored is written as a word that is read as the double.** -/
theorem word_float {x : Binary64} (kept : (Json.float x).Storable) :
    Word (x.write floatStyle).toList ∧ hasIndicator (x.write floatStyle).toList = false ∧
      resolve (x.write floatStyle).toList = .float ∧ readFloat (x.write floatStyle) = .ok x := by
  cases x with
  | finite negative m e =>
    obtain ⟨text, digits, power, written, double, value⟩ :=
      write_finite (of_decide_eq_true kept) negative
    have read := double.readFloat negative
    rw [← written, String.ofList_toList, value] at read
    rw [read, written]
    obtain ⟨x, ds, rfl, digit⟩ := double.starts
    refine ⟨word_signed _ double.word, hasIndicator_signed double.word digit,
      double.resolve negative, ?_⟩
    cases negative <;> rfl
  | infinite negative =>
    cases negative
    · obtain ⟨word, indicator, float⟩ := write_notFinite (t := ".inf") (by decide)
      exact ⟨word, indicator, float, by decide⟩
    · obtain ⟨word, indicator, float⟩ := write_notFinite (t := "-.inf") (by decide)
      exact ⟨word, indicator, float, by decide⟩
  | notANumber =>
    obtain ⟨word, indicator, float⟩ := write_notFinite (t := ".nan") (by decide)
    exact ⟨word, indicator, float, by decide⟩

/-! ## Words for values -/

/-- The word that stands for a value, if it is no text and has no parts. -/
def wordOf? : Json → Option String
  | .null => some "null"
  | .bool true => some "true"
  | .bool false => some "false"
  | .int n => some (toString n)
  | .float x => some (x.write floatStyle)
  | .str _ | .arr _ | .obj _ => none

theorem writeAtom_word {v : Json} {w : String} (h : wordOf? v = some w) (s : Setting)
    (column : Nat) : writeAtom s column v = w.toList := by
  cases v with
  | bool b => cases b <;> (cases h; rfl)
  | null | int | float =>
    cases h
    rfl
  | str | arr | obj => cases h

/-- The word for a value is one plain scalar. -/
theorem word_of_value {v : Json} {w : String} (storable : v.Storable) (h : wordOf? v = some w) :
    Word w.toList ∧ hasIndicator w.toList = false := by
  have each : ∀ t ∈ ["null", "true", "false"], t.toList ≠ [] ∧ (∀ x ∈ t.toList, x ∈ wordChars) ∧
      hasIndicator t.toList = false := by
    decide
  have closed (mem : w ∈ ["null", "true", "false"]) :
      Word w.toList ∧ hasIndicator w.toList = false :=
    ⟨⟨(each w mem).1, (each w mem).2.1⟩, (each w mem).2.2⟩
  cases v with
  | null =>
    cases h
    exact closed (by decide)
  | bool b => cases b <;> (cases h; exact closed (by decide))
  | int n =>
    cases h
    exact ⟨word_int n, hasIndicator_int n⟩
  | float x =>
    cases h
    exact ⟨(word_float storable).1, (word_float storable).2.1⟩
  | str | arr | obj => cases h

end ResourceApi.Yaml
