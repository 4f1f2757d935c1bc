import Mathlib.Tactic.SplitIfs
import ResourceApi.Yaml.Cursor

/-! # Places behind known text

Where a cursor comes to behind a text that is known: what is left there, and the line
and the column. Within a line nothing but a byte order mark keeps the column, and only
a break takes it back. -/

namespace ResourceApi.Yaml

/-- What is said of all characters of a text is checked along the text, never by trying every
character there is. -/
scoped instance (priority := high) decidableOfText (cs : List Char) (p : Char → Prop)
    [DecidablePred p] : Decidable (∀ x ∈ cs, p x) :=
  List.decidableBAll p cs

/-- A text starts with a run of characters of one kind, and goes on with another. -/
theorem exists_run (p : Char → Bool) (cs : List Char) :
    ∃ run rest, cs = run ++ rest ∧ (∀ x ∈ run, p x = true) ∧ ∀ x ∈ rest.head?, p x = false := by
  refine ⟨cs.takeWhile p, cs.dropWhile p, List.takeWhile_append_dropWhile.symm,
    List.all_eq_true.1 List.all_takeWhile, ?_⟩
  intro x mem
  have behind := List.head?_dropWhile_not p cs
  rwa [Option.mem_def.1 mem] at behind

theorem ne_of_isBreak {x y : Char} (ends : isBreak x = true) (flat : isBreak y = false) :
    x ≠ y := by
  rintro rfl
  rw [ends] at flat
  cases flat

namespace Cursor

variable {c : Cursor} {w rest : List Char} {x : Char} {n k : Nat} {p : Char → Bool}

/-! ## What is left -/

@[simp] theorem rest_next (c : Cursor) : c.next.rest = c.rest.tail := by
  unfold next
  split
  · next none => rw [none, List.tail_nil]
  · next ch rest some =>
    rw [some, List.tail_cons]
    split_ifs <;> rfl

@[simp] theorem rest_skip (c : Cursor) (n : Nat) : (c.skip n).rest = c.rest.drop n := by
  induction n generalizing c with
  | zero => rfl
  | succ n ih => rw [skip, ih, rest_next, List.drop_tail]

theorem rest_skip_append (h : c.rest = w ++ rest) : (c.skip w.length).rest = rest := by
  rw [rest_skip, h, List.drop_left]

theorem skip_add (c : Cursor) (m n : Nat) : c.skip (m + n) = (c.skip m).skip n := by
  induction m generalizing c with
  | zero => rw [Nat.zero_add, skip]
  | succ m ih => rw [Nat.succ_add, skip, ih, skip]

theorem peekAt_eq (h : c.rest = w ++ x :: rest) : c.peekAt w.length = x := by
  rw [peekAt, h, List.getElem?_append_right (Nat.le_refl _), Nat.sub_self]
  rfl

theorem peek_eq (h : c.rest = x :: rest) : c.peek = x := peekAt_eq (w := []) h

theorem peekAt_one (h : c.rest = x :: rest) : c.peekAt 1 = rest.head?.getD '\x00' := by
  rw [peekAt, h, List.getElem?_cons_succ, List.head?_eq_getElem?]

theorem peek_eq_head (c : Cursor) : c.peek = c.rest.head?.getD '\x00' := by
  rw [peek, peekAt, List.head?_eq_getElem?]

theorem atEnd_cons (h : c.rest = x :: rest) : c.atEnd = false := by
  rw [atEnd, h, List.isEmpty_cons]

theorem takeWhile_eq (h : c.rest = w ++ rest) (taken : ∀ x ∈ w, p x = true)
    (stops : ∀ x ∈ rest.head?, p x = false) : c.takeWhile p = (w, c.skip w.length) := by
  have same : c.rest.takeWhile p = w := by
    rw [h, List.takeWhile_append_of_pos taken]
    cases rest with
    | nil => rw [List.takeWhile_nil, List.append_nil]
    | cons x rest => rw [List.takeWhile_cons_of_neg (by simp [stops x rfl]), List.append_nil]
  rw [takeWhile, same]

/-! ## Lines and columns -/

theorem next_eq (h : c.rest = x :: rest) (flat : isBreak x = false) (mark : x ≠ '\ufeff') :
    c.next = ⟨rest, c.index + 1, c.line, c.column + 1⟩ := by
  rw [next, h]
  simp [flat, mark]

theorem next_break (h : c.rest = x :: rest) (ends : isBreak x = true) :
    c.next = ⟨rest, c.index + 1, c.line + 1, 0⟩ := by
  rw [next, h]
  simp [ends]

theorem line_le_next (c : Cursor) : c.line ≤ c.next.line := by
  unfold next
  split
  · exact Nat.le_refl _
  · split_ifs
    · exact Nat.le_succ _
    · exact Nat.le_refl _
    · exact Nat.le_refl _

theorem line_le_skip (c : Cursor) (n : Nat) : c.line ≤ (c.skip n).line := by
  induction n generalizing c with
  | zero => exact Nat.le_refl _
  | succ n ih => exact Nat.le_trans (line_le_next c) (ih c.next)

/-- Text without a break stays on its line, and each of its characters takes a column. -/
theorem skip_printed (h : c.rest = w ++ rest)
    (printed : ∀ x ∈ w, isBreak x = false ∧ x ≠ '\ufeff') :
    c.skip w.length = ⟨rest, c.index + w.length, c.line, c.column + w.length⟩ := by
  induction w generalizing c with
  | nil =>
    rw [List.nil_append] at h
    rw [List.length_nil, skip, ← h]
    rfl
  | cons x w ih =>
    obtain ⟨flat, mark⟩ := printed x List.mem_cons_self
    rw [List.cons_append] at h
    rw [List.length_cons, skip, next_eq h flat mark,
      ih rfl fun y mem => printed y (List.mem_cons_of_mem _ mem)]
    simp only [mk.injEq, true_and]
    omega

theorem skip_replicate (h : c.rest = List.replicate k ' ' ++ rest) :
    c.skip k = ⟨rest, c.index + k, c.line, c.column + k⟩ := by
  have skipped := skip_printed h fun x mem => by
    rw [List.eq_of_mem_replicate mem]
    decide
  rwa [List.length_replicate] at skipped

/-- Behind a line end and blanks stands the first character of the next line. -/
theorem skip_newLine (h : c.rest = newLine k ++ rest) :
    c.skip (k + 1) = ⟨rest, c.index + (k + 1), c.line + 1, k⟩ := by
  rw [newLine, List.cons_append] at h
  rw [skip, next_break h (by decide), skip_replicate rfl]
  simp only [mk.injEq, true_and]
  omega

/-! ## Breaks, blanks and comments -/

theorem lineBreak?_eq_none (h : ∀ x ∈ c.rest.head?, isBreak x = false) : c.lineBreak? = none := by
  have flat : isBreak c.peek = false := by
    rw [peek_eq_head]
    cases head : c.rest.head? with
    | none => decide
    | some x => exact h x head
  have other : c.peek ≠ '\n' ∧ c.peek ≠ '\u0085' := by
    constructor <;> intro same <;> rw [same] at flat <;> cases flat
  simp [lineBreak?, flat, other]

theorem lineBreak?_lineFeed (h : c.rest = '\n' :: rest) : c.lineBreak? = some ('\n', c.next) := by
  simp [lineBreak?, peek_eq h]

/-- A break that is not NEL is read as itself. -/
theorem lineBreak?_eq (h : c.rest = x :: rest) (ends : isBreak x = true) (kept : x ≠ '\u0085') :
    c.lineBreak? = some (x, c.next) := by
  by_cases feed : x = '\n'
  · rw [feed] at h ⊢
    exact lineBreak?_lineFeed h
  · simp [lineBreak?, peek_eq h, feed, kept, ends]

theorem skipBlanks_eq (h : c.rest = List.replicate k ' ' ++ rest) (stops : rest.head? ≠ some ' ') :
    c.skipBlanks = c.skip k := by
  have taken := takeWhile_eq (p := (· == ' ')) h
    (fun x mem => by simp [List.eq_of_mem_replicate mem])
    (fun x mem => by
      rw [beq_eq_false_iff_ne]
      rintro rfl
      exact stops mem)
  rw [List.length_replicate] at taken
  rw [skipBlanks, skipWhile, taken]

theorem skipComment_eq (h : c.rest.head? ≠ some '#') : c.skipComment = c := by
  rw [skipComment, if_neg]
  rw [peek_eq_head]
  cases head : c.rest.head? with
  | none => decide
  | some x =>
    rw [head] at h
    simpa using h

/-! ## Marks of documents -/

theorem atMark_eq_false {mark : String} (h : mark.toList.isPrefixOf c.rest = false) :
    c.atMark mark = false := by
  rw [atMark, startsWith, h, Bool.false_and]

/-- Only a dash or a point starts a mark. -/
theorem atDocumentMark_eq_false (h : ∀ x ∈ c.rest.head?, x ≠ '-' ∧ x ≠ '.') :
    c.atDocumentMark = false := by
  rw [atDocumentMark, Bool.or_eq_false_iff]
  cases left : c.rest with
  | nil =>
    constructor <;> apply atMark_eq_false <;> rw [left] <;> rfl
  | cons x rest =>
    rw [left] at h
    obtain ⟨dash, point⟩ := h x rfl
    constructor <;> apply atMark_eq_false <;> rw [left]
    · simpa [List.isPrefixOf] using fun same => absurd same.symm dash
    · simpa [List.isPrefixOf] using fun same => absurd same.symm point

end Cursor
end ResourceApi.Yaml
