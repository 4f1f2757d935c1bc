import Mathlib.Tactic.SplitIfs
import ResourceApi.Json.Reader
import ResourceApi.Json.Writer

/-! # Strings read back

Each character of a string, escaped or not, is read back as it is, whatever follows;
behind a string always stands its closing quote. No half of a surrogate pair is written,
so it does not matter which character the reader has for these. -/

namespace ResourceApi.Json

variable {half : Char}

/-! ## Reading one character -/

/-- A character that needs no escape. -/
theorem readString_plain {c : Char} (quote : c ≠ '"') (backslash : c ≠ '\\') (printed : 0x20 ≤ c.toNat)
    (start : Nat) (acc tail : List Char) :
    readString half start acc (c :: tail) = readString half start (c :: acc) tail := by
  rw [readString.eq_def]
  split
  case h_1 same => cases same
  case h_2 same => exact absurd (List.cons.inj same).1 quote
  case h_7 same =>
    obtain ⟨rfl, rfl⟩ := List.cons.inj same
    rw [if_neg (by omega)]
  -- all other cases start with a backslash
  all_goals
    next same => exact absurd (List.cons.inj same).1 backslash

/-- A short escape. -/
theorem readString_short {c x : Char} (escape : shortEscape? c = some x) (start : Nat)
    (acc tail : List Char) :
    readString half start acc ('\\' :: c :: tail) = readString half start (x :: acc) tail := by
  have other : c ≠ 'u' := by
    rintro rfl
    cases escape
  rw [readString.eq_def]
  split <;> simp_all
  -- the last case is for characters that are no backslash
  next noEscape same => exact absurd same.2.symm (noEscape _ _ same.1.symm)

/-- The digits of a control character are those that its escape is read with. -/
theorem hexDigits_control : ∀ n < 0x20,
    Text.hexDigits 4 n = ['0', '0', (n / 16).digitChar, (n % 16).digitChar] ∧
      codeUnit? '0' '0' (n / 16).digitChar (n % 16).digitChar = some n := by
  decide

/-- A control character escaped by its code. -/
theorem readString_control {c : Char} (control : c.toNat < 0x20) (start : Nat) (acc : List Char)
    {tail : List Char} (more : tail ≠ []) :
    readString half start acc ('\\' :: 'u' :: (Text.hexDigits 4 c.toNat ++ tail)) =
      readString half start (c :: acc) tail := by
  obtain ⟨digits, unit⟩ := hexDigits_control c.toNat control
  obtain ⟨d, rest, rfl⟩ := List.exists_cons_of_ne_nil more
  have high : isHighSurrogate c.toNat = false := by
    simp only [isHighSurrogate, Bool.and_eq_false_iff, decide_eq_false_iff_not]
    omega
  have low : isLowSurrogate c.toNat = false := by
    simp only [isLowSurrogate, Bool.and_eq_false_iff, decide_eq_false_iff_not]
    omega
  rw [digits, List.cons_append, List.cons_append, List.cons_append, List.cons_append,
    List.nil_append, readString, unit]
  simp only [high, low, unitChar, Bool.or_false, Bool.false_eq_true, if_false, Char.ofNat_toNat]

/-- **A written character is read back**, if anything stands behind it. -/
theorem readString_writeChar (c : Char) (start : Nat) (acc : List Char) {tail : List Char}
    (more : tail ≠ []) :
    readString half start acc (writeChar c ++ tail) = readString half start (c :: acc) tail := by
  rw [writeChar]
  split
  · next quoted =>
    refine readString_short ?_ start acc tail
    rw [Bool.or_eq_true, beq_iff_eq, beq_iff_eq] at quoted
    rcases quoted with rfl | rfl <;> rfl
  · next plain =>
    rw [Bool.or_eq_true, beq_iff_eq, beq_iff_eq, not_or] at plain
    split_ifs with newline ret tab back feed control
    · exact readString_short (by rw [beq_iff_eq.1 newline]; rfl) start acc tail
    · exact readString_short (by rw [beq_iff_eq.1 ret]; rfl) start acc tail
    · exact readString_short (by rw [beq_iff_eq.1 tab]; rfl) start acc tail
    · exact readString_short (by rw [beq_iff_eq.1 back]; rfl) start acc tail
    · exact readString_short (by rw [beq_iff_eq.1 feed]; rfl) start acc tail
    · exact readString_control control start acc more
    · exact readString_plain plain.1 plain.2 (Nat.not_lt.1 control) start acc tail

theorem readString_writeChars (cs : List Char) (start : Nat) (acc rest : List Char) :
    readString half start acc (cs.flatMap writeChar ++ '"' :: rest) =
      .ok (String.ofList (acc.reverse ++ cs), rest) := by
  induction cs generalizing acc with
  | nil => rw [List.flatMap_nil, List.nil_append, readString, List.append_nil]
  | cons c cs ih =>
    rw [List.flatMap_cons, List.append_assoc, readString_writeChar c start acc (by simp), ih,
      List.reverse_cons, List.append_assoc, List.singleton_append]

/-- **A written string is read back.** Behind its opening quote the reader finds the string, and
what follows the closing quote is left. -/
theorem readString_writeString (s : String) (start : Nat) (rest : List Char) :
    readString half start [] (s.toList.flatMap writeChar ++ '"' :: rest) = .ok (s, rest) := by
  rw [readString_writeChars, List.reverse_nil, List.nil_append, String.ofList_toList]

theorem writeString_append (s : String) (rest : List Char) :
    writeString s ++ rest = '"' :: (s.toList.flatMap writeChar ++ '"' :: rest) := by
  simp [writeString]

end ResourceApi.Json
