import Mathlib.Tactic.SplitIfs
import ResourceApi.Text.Pattern

/-! # The language of a pattern

A pattern stands for a set of texts, given by how a text is put together of parts. The
patterns that are left after each character accept exactly these texts; where they are
simplified, the set stays the same. -/

namespace ResourceApi.Text.Pattern

/-- The texts that a pattern stands for. -/
inductive Matches : Pattern → List Char → Prop where
  | nothing : Matches nothing []
  | one {ranges : List (Char × Char)} {c : Char} : inClass ranges c = true →
      Matches (one ranges) [c]
  | seq {a b : Pattern} {l r : List Char} : Matches a l → Matches b r →
      Matches (seq a b) (l ++ r)
  | left {a b : Pattern} {cs : List Char} : Matches a cs → Matches (alt a b) cs
  | right {a b : Pattern} {cs : List Char} : Matches b cs → Matches (alt a b) cs
  | none {a : Pattern} : Matches (many a) []
  | more {a : Pattern} {l r : List Char} : Matches a l → Matches (many a) r →
      Matches (many a) (l ++ r)

variable {a b p : Pattern} {ps : List Pattern} {ranges : List (Char × Char)} {c : Char}
  {cs ds : List Char}

/-! ## Constructor by constructor -/

theorem not_matches_never : ¬ Matches never cs := by
  rintro ⟨⟩

theorem matches_nothing : Matches nothing cs ↔ cs = [] := by
  constructor
  · rintro ⟨⟩
    rfl
  · rintro rfl
    exact .nothing

theorem matches_one : Matches (one ranges) cs ↔ ∃ c, inClass ranges c = true ∧ cs = [c] := by
  constructor
  · rintro ⟨⟩
    exact ⟨_, ‹_›, rfl⟩
  · rintro ⟨c, mem, rfl⟩
    exact .one mem

theorem matches_seq :
    Matches (seq a b) cs ↔ ∃ l r, cs = l ++ r ∧ Matches a l ∧ Matches b r := by
  constructor
  · intro h
    cases h with
    | seq first second => exact ⟨_, _, rfl, first, second⟩
  · rintro ⟨l, r, rfl, first, second⟩
    exact .seq first second

theorem matches_alt : Matches (alt a b) cs ↔ Matches a cs ∨ Matches b cs := by
  constructor
  · intro h
    cases h with
    | left h => exact Or.inl h
    | right h => exact Or.inr h
  · rintro (h | h)
    · exact .left h
    · exact .right h

/-- A repetition of a pattern starts with a text that is not empty. -/
theorem matches_many_cons :
    Matches (many a) (c :: cs) ↔
      ∃ l r, cs = l ++ r ∧ Matches a (c :: l) ∧ Matches (many a) r := by
  constructor
  · intro h
    generalize whole : many a = p, text : c :: cs = ds at h
    induction h with
    | nothing | one | seq | left | right => cases whole
    | none => cases text
    | @more a' l r first later _ ih =>
      obtain rfl : a = a' := Pattern.many.inj whole
      cases l with
      | nil => exact ih rfl text
      | cons d l =>
        obtain ⟨rfl, rfl⟩ := List.cons.inj text
        exact ⟨l, r, rfl, first, later⟩
  · rintro ⟨l, r, rfl, first, later⟩
    exact .more first later

/-! ## Simplified patterns -/

theorem matches_seqOf : Matches (seqOf a b) cs ↔ Matches (seq a b) cs := by
  unfold seqOf
  split_ifs with none empty
  · refine iff_of_false not_matches_never fun h => ?_
    obtain ⟨l, r, -, first, second⟩ := matches_seq.1 h
    rcases none with rfl | rfl
    · exact not_matches_never first
    · exact not_matches_never second
  · subst empty
    rw [matches_seq]
    constructor
    · exact fun h => ⟨[], cs, rfl, .nothing, h⟩
    · rintro ⟨l, r, rfl, first, second⟩
      rwa [matches_nothing.1 first]
  · exact Iff.rfl

theorem matches_altOf : Matches (altOf a b) cs ↔ Matches (alt a b) cs := by
  unfold altOf
  rw [matches_alt]
  split_ifs with same none
  · rcases same with rfl | rfl
    · simp [not_matches_never]
    · simp
  · subst none
    simp [not_matches_never]
  · exact matches_alt

/-! ## Acceptance -/

theorem acceptsEmpty_iff : p.acceptsEmpty = true ↔ Matches p [] := by
  induction p with
  | never => simp [acceptsEmpty, not_matches_never]
  | nothing => simp [acceptsEmpty, matches_nothing]
  | one => simp [acceptsEmpty, matches_one]
  | seq a b iha ihb =>
    rw [acceptsEmpty, Bool.and_eq_true, iha, ihb, matches_seq]
    constructor
    · exact fun h => ⟨[], [], rfl, h.1, h.2⟩
    · rintro ⟨l, r, empty, first, second⟩
      obtain ⟨rfl, rfl⟩ := List.append_eq_nil_iff.1 empty.symm
      exact ⟨first, second⟩
  | alt a b iha ihb => rw [acceptsEmpty, Bool.or_eq_true, iha, ihb, matches_alt]
  | many => simp [acceptsEmpty, Matches.none]

/-- The text of a sequence starts in its first part, unless that is empty. -/
theorem matches_seq_cons :
    Matches (seq a b) (c :: cs) ↔
      (∃ l r, cs = l ++ r ∧ Matches a (c :: l) ∧ Matches b r) ∨
        Matches a [] ∧ Matches b (c :: cs) := by
  rw [matches_seq]
  constructor
  · rintro ⟨l, r, text, first, second⟩
    cases l with
    | nil => exact Or.inr ⟨first, by rwa [text]⟩
    | cons d l =>
      obtain ⟨rfl, rfl⟩ := List.cons.inj text
      exact Or.inl ⟨l, r, rfl, first, second⟩
  · rintro (⟨l, r, rfl, first, second⟩ | ⟨empty, second⟩)
    · exact ⟨c :: l, r, rfl, first, second⟩
    · exact ⟨[], c :: cs, rfl, empty, second⟩

/-- **What must follow a character**: the texts that the pattern has behind it. -/
theorem matches_after : Matches (p.after c) cs ↔ Matches p (c :: cs) := by
  induction p generalizing cs with
  | never => simp [after, not_matches_never]
  | nothing => simp [after, not_matches_never, matches_nothing]
  | one ranges =>
    rw [after, matches_one]
    split_ifs with mem
    · rw [matches_nothing]
      constructor
      · rintro rfl
        exact ⟨c, mem, rfl⟩
      · rintro ⟨d, -, same⟩
        exact (List.cons.inj same).2
    · refine iff_of_false not_matches_never ?_
      rintro ⟨d, mem', same⟩
      rw [(List.cons.inj same).1] at mem
      exact mem mem'
  | seq a b iha ihb =>
    have inside : Matches (seqOf (a.after c) b) cs ↔
        ∃ l r, cs = l ++ r ∧ Matches a (c :: l) ∧ Matches b r := by
      rw [matches_seqOf, matches_seq]
      simp only [iha]
    rw [after, matches_seq_cons]
    split_ifs with empty
    · rw [matches_altOf, matches_alt, inside, ihb, ← acceptsEmpty_iff]
      simp [empty]
    · rw [inside, ← acceptsEmpty_iff]
      simp [empty]
  | alt a b iha ihb => rw [after, matches_altOf, matches_alt, matches_alt, iha, ihb]
  | many a ih =>
    rw [after, matches_seqOf, matches_seq, matches_many_cons]
    simp only [ih]

/-- **A pattern accepts its texts and no others.** -/
theorem accepts_iff : p.accepts cs = true ↔ Matches p cs := by
  induction cs generalizing p with
  | nil => exact acceptsEmpty_iff
  | cons c cs ih =>
    rw [accepts, ← matches_after]
    split_ifs with none
    · rw [none]
      exact iff_of_false id not_matches_never
    · exact ih

/-! ## Patterns that are built -/

theorem matches_inTurn_cons :
    Matches (inTurn (p :: ps)) cs ↔
      ∃ l r, cs = l ++ r ∧ Matches p l ∧ Matches (inTurn ps) r := by
  rw [← matches_seq, ← matches_seqOf]
  exact Iff.rfl

/-- A character that is a part of a sequence is in its texts. -/
theorem mem_of_matches_inTurn (part : char c ∈ ps) (h : Matches (inTurn ps) cs) : c ∈ cs := by
  induction ps generalizing cs with
  | nil => cases part
  | cons p ps ih =>
    obtain ⟨l, r, rfl, first, later⟩ := matches_inTurn_cons.1 h
    rcases List.mem_cons.1 part with rfl | part
    · obtain ⟨d, inside, rfl⟩ := matches_one.1 first
      have ends : c ≤ d ∧ d ≤ c := by simpa [inClass] using inside
      rw [Char.le_antisymm ends.1 ends.2]
      exact List.mem_cons_self
    · exact List.mem_append_right _ (ih part later)

theorem matches_anyOf : Matches (anyOf ps) cs ↔ ∃ p ∈ ps, Matches p cs := by
  induction ps with
  | nil => simp [anyOf, not_matches_never]
  | cons p ps ih =>
    have first : Matches (anyOf (p :: ps)) cs ↔ Matches p cs ∨ Matches (anyOf ps) cs := by
      rw [← matches_alt, ← matches_altOf]
      exact Iff.rfl
    rw [first, ih]
    simp

theorem matches_optional : Matches (optional p) cs ↔ cs = [] ∨ Matches p cs := by
  rw [optional, matches_alt, matches_nothing]

theorem matches_many_one (each : ∀ c ∈ cs, inClass ranges c = true) :
    Matches (many (one ranges)) cs := by
  induction cs with
  | nil => exact .none
  | cons c cs ih =>
    exact .more (l := [c]) (.one (each c List.mem_cons_self))
      (ih fun d mem => each d (List.mem_cons_of_mem _ mem))

end ResourceApi.Text.Pattern
