import ResourceApi.Proofs.Json.NumberRoundTrip
import ResourceApi.Proofs.Yaml.PlainScalars
import ResourceApi.Yaml.ScalarValue
import ResourceApi.Yaml.Writer

/-! # Words that are no texts

Numbers, truth values and null are words of a few ASCII characters. Such a word is one
plain scalar, and nothing is done to its characters before it is read. -/

namespace ResourceApi.Yaml

open Json (Digits mem_of_isDigit)
open Numeral (isDigit plainChar plainText isWhite)

variable {w ds cs : List Char} {x : Char}

def wordChars : List Char := "0123456789+-.aefilnrstu".toList

/-- Characters of numbers and of the words for other values. -/
structure Word (w : List Char) : Prop where
  filled : w ≠ []
  chars : ∀ x ∈ w, x ∈ wordChars

theorem mem_wordChars_of_isDigit (digit : isDigit x = true) : x ∈ wordChars := by
  have each : ∀ x ∈ "0123456789".toList, x ∈ wordChars := by decide
  exact each x (mem_of_isDigit digit)

/-- What is true of all characters of words. -/
theorem wordChars_all : ∀ x ∈ wordChars,
    isSpecial x = false ∧ isSeparator x = false ∧ x ≠ ':' ∧ x ≠ '#' ∧ x ≠ '_' ∧
      Text.lowerChar x = [x] ∧ x ≠ 'Σ' ∧ plainChar x = x ∧ isWhite x = false := by
  decide

namespace Word

theorem append (word : Word w) (more : ∀ x ∈ cs, x ∈ wordChars) : Word (w ++ cs) :=
  ⟨fun none => word.filled (List.append_eq_nil_iff.1 none).1,
    List.forall_mem_append.2 ⟨word.chars, more⟩⟩

theorem cons (mem : x ∈ wordChars) (word : Word w) : Word (x :: w) :=
  ⟨List.cons_ne_nil _ _, List.forall_mem_cons.2 ⟨mem, word.chars⟩⟩

theorem of_digits (digits : Digits ds) (filled : ds ≠ []) : Word ds :=
  ⟨filled, fun x mem => mem_wordChars_of_isDigit (digits x mem)⟩

theorem hasInnerIndicator_eq_false (chars : ∀ x ∈ w, x ∈ wordChars) (starts : Bool) :
    hasInnerIndicator starts w = false := by
  induction w generalizing starts with
  | nil => rfl
  | cons x w ih =>
    obtain ⟨-, -, colon, number, -⟩ := wordChars_all x (chars x List.mem_cons_self)
    rw [hasInnerIndicator, ih fun y mem => chars y (List.mem_cons_of_mem _ mem)]
    simp [colon, number]

theorem fitsPlain (word : Word w) : FitsPlain w where
  filled := word.filled
  starts blank := absurd (word.chars _ (List.mem_of_mem_head? blank)) (by decide)
  ends blank := absurd (word.chars _ (List.mem_of_getLast? blank)) (by decide)
  printed x mem := by
    obtain ⟨-, separator, -⟩ := wordChars_all x (word.chars x mem)
    refine ⟨?_, Or.inr separator⟩
    rintro rfl
    exact absurd (word.chars _ mem) (by decide)
  words := hasInnerIndicator_eq_false word.chars true

/-- A word is taken for nothing else if it starts with a digit or a letter, or with a minus sign
before one. -/
theorem hasIndicator_cons (word : Word (x :: w)) (dash : x ≠ '-') (point : x ≠ '.') :
    hasIndicator (x :: w) = false := by
  have inner := hasInnerIndicator_eq_false (fun y mem => word.chars y (List.mem_cons_of_mem _ mem))
    (isSeparator x)
  have first : ∀ x ∈ wordChars, x ≠ '-' →
      "#,[]\x7b\x7d&*!|>'\"%@`".toList.contains x = false ∧ "?:-".toList.contains x = false := by
    decide
  obtain ⟨never, sign⟩ := first x (word.chars x List.mem_cons_self) dash
  rw [hasIndicator, never, sign, inner]
  simp [List.isPrefixOf, Ne.symm dash, Ne.symm point]

theorem hasIndicator_minus (word : Word (x :: w)) (dash : x ≠ '-') :
    hasIndicator ('-' :: x :: w) = false := by
  have inner := hasInnerIndicator_eq_false word.chars (isSeparator '-')
  obtain ⟨-, solid, -⟩ := wordChars_all x (word.chars x List.mem_cons_self)
  simp [hasIndicator, inner, endsWord, solid, List.isPrefixOf, Ne.symm dash]

/-! ## Nothing is done to a word -/

theorem filter_underscores (word : Word w) : w.filter (· != '_') = w := by
  rw [List.filter_eq_self]
  intro x mem
  obtain ⟨-, -, -, -, underscore, -⟩ := wordChars_all x (word.chars x mem)
  simp [underscore]

theorem lowerFrom (chars : ∀ x ∈ w, x ∈ wordChars) (before : List Char) :
    Text.lowerFrom before w = w := by
  induction w generalizing before with
  | nil => rfl
  | cons x w ih =>
    obtain ⟨-, -, -, -, -, lower, sigma, -⟩ := wordChars_all x (chars x List.mem_cons_self)
    rw [Text.lowerFrom, ih fun y mem => chars y (List.mem_cons_of_mem _ mem)]
    simp [lower, sigma]

theorem lower (word : Word w) : Text.lower (String.ofList w) = String.ofList w := by
  rw [Text.lower, String.toList_ofList, lowerFrom word.chars]

theorem trim (chars : ∀ x ∈ w, isWhite x = false) : Numeral.trim w = w := by
  have start {ds : List Char} (chars : ∀ x ∈ ds, isWhite x = false) :
      ds.dropWhile isWhite = ds := by
    cases ds with
    | nil => rfl
    | cons x ds => rw [List.dropWhile_cons_of_neg (by simp [chars x List.mem_cons_self])]
  rw [Numeral.trim, start chars, start fun x mem => chars x (List.mem_reverse.1 mem),
    List.reverse_reverse]

theorem plainText (word : Word w) : plainText w = w := by
  have same : w.map plainChar = w := by
    refine (List.map_congr_left fun x mem => ?_).trans (List.map_id w)
    exact (wordChars_all x (word.chars x mem)).2.2.2.2.2.2.2.1
  rw [Numeral.plainText, same]
  refine trim fun x mem => ?_
  exact (wordChars_all x (word.chars x mem)).2.2.2.2.2.2.2.2

end Word
end ResourceApi.Yaml
