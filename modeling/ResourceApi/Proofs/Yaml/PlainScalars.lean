import ResourceApi.Proofs.Yaml.Cursors
import ResourceApi.Yaml.ScalarLexer

/-! # Plain scalars read back

A plain scalar is read word by word. Between its words stand blanks, or the end of a
line where the writer has broken it; both read as the blanks of the text. The scalar
ends before the colon of a key, and with a line behind which a line is indented less. -/

namespace ResourceApi.Yaml

variable {c : Cursor} {cs w rest tail : List Char} {s : Setting} {column k indent : Nat}
  {previous : Char} {startsWord broke : Bool}

/-! ## Texts that are written plain -/

/-- What a text must be to be read as one plain scalar; `startsWord` tells whether a separator or
nothing stands before it. -/
structure FitsPlain (cs : List Char) : Prop where
  filled : cs ≠ []
  starts : cs.head? ≠ some ' '
  ends : cs.getLast? ≠ some ' '
  printed : ∀ x ∈ cs, x ≠ '\ufeff' ∧ (x = ' ' ∨ isSeparator x = false)
  words : hasInnerIndicator true cs = false

theorem isBreak_of_not_isSeparator {x : Char} (h : isSeparator x = false) : isBreak x = false := by
  simp only [isSeparator, Bool.or_eq_false_iff] at h
  exact h.1.1.1.1

theorem hasInnerIndicator_append (h : hasInnerIndicator startsWord (w ++ rest) = false) :
    ∃ startsWord', hasInnerIndicator startsWord' rest = false := by
  induction w generalizing startsWord with
  | nil => exact ⟨_, h⟩
  | cons x w ih => exact ih (Bool.or_eq_false_iff.1 h).2

/-- Behind a separator a word starts. -/
theorem hasInnerIndicator_behind {x : Char} (separator : isSeparator x = true)
    (h : hasInnerIndicator startsWord (w ++ x :: rest) = false) :
    hasInnerIndicator true rest = false := by
  obtain ⟨startsWord', h⟩ := hasInnerIndicator_append h
  have := (Bool.or_eq_false_iff.1 h).2
  rwa [separator] at this

/-- The first character of a plain text is no blank, and is written first. -/
theorem FitsPlain.writePlain_head {x : Char} (fits : FitsPlain (x :: cs)) (s : Setting)
    (column : Nat) (previous : Char) :
    isSeparator x = false ∧
      writePlain s column previous (x :: cs) = x :: writePlain s (column + 1) x cs := by
  have blank : x ≠ ' ' := by simpa using fits.starts
  refine ⟨(fits.printed x List.mem_cons_self).2.resolve_left blank, ?_⟩
  simp [writePlain, blank]

theorem hasInnerIndicator_of_hasIndicator (h : hasIndicator cs = false) :
    hasInnerIndicator true cs = false := by
  cases cs with
  | nil => rfl
  | cons x cs =>
    simp only [hasIndicator, Bool.or_eq_false_iff] at h
    obtain ⟨⟨⟨-, never⟩, word⟩, inner⟩ := h
    have colon : (x == ':' && endsWord cs) = false := by
      by_cases same : x = ':'
      · subst same
        exact word
      · simp [same]
    have number : (x == '#' && true) = false := by
      by_cases same : x = '#'
      · subst same
        cases never
      · simp [same]
    rw [hasInnerIndicator, colon, number, inner]
    rfl

theorem FitsPlain.of_fitsPlain (h : fitsPlain cs = true) :
    FitsPlain cs ∧ hasIndicator cs = false ∧ resolve cs = .text := by
  simp only [fitsPlain, Bool.and_eq_true, Bool.not_eq_true', decide_eq_true_eq] at h
  obtain ⟨⟨⟨⟨⟨first, last⟩, special⟩, flat⟩, indicator⟩, text⟩ := h
  refine ⟨⟨?_, ?_, ?_, ?_, hasInnerIndicator_of_hasIndicator indicator⟩, indicator, text⟩
  · rintro rfl
    cases first
  · intro blank
    rw [blank] at first
    cases first
  · intro blank
    rw [blank] at last
    cases last
  · intro x mem
    have printed : isSpecial x = false := by simpa using List.any_eq_false.1 special x mem
    have solid : isBreak x = false := by simpa using List.any_eq_false.1 flat x mem
    have other : ∀ y, isSpecial y = true → x ≠ y := by
      rintro y special rfl
      rw [printed] at special
      cases special
    refine ⟨other _ (by decide), ?_⟩
    by_cases blank : x = ' '
    · exact Or.inl blank
    · refine Or.inr ?_
      simp [isSeparator, solid, blank, other '\x00' (by decide), other '\t' (by decide),
        other '\r' (by decide)]

/-- A text whose lines may not be broken is written as it is. -/
theorem writePlain_whole (whole : s.mayBreak = false) : writePlain s column previous cs = cs := by
  induction cs generalizing column previous with
  | nil => rfl
  | cons x cs ih => simp [writePlain, breaksHere, whole, ih]

/-! ## Words -/

/-- A word is read up to what ends it. -/
theorem plainRun_word (word : ∀ x ∈ w, isSeparator x = false)
    (inner : hasInnerIndicator startsWord (w ++ rest) = false) (ends : endsWord rest = true)
    (stops : plainRun false tail = []) : plainRun false (w ++ tail) = w := by
  induction w generalizing startsWord with
  | nil => exact stops
  | cons x w ih =>
    rw [List.cons_append, hasInnerIndicator, Bool.or_eq_false_iff] at inner
    obtain ⟨here, later⟩ := inner
    -- a colon does not end the word, as the word goes on behind it
    have colon : (x == ':' && isSeparator ((w ++ tail).head?.getD '\x00')) = false := by
      cases w with
      | nil =>
        rw [List.nil_append, ends, Bool.and_true, Bool.or_eq_false_iff] at here
        rw [here.1, Bool.false_and]
      | cons y w =>
        rw [List.cons_append, List.head?_cons, Option.getD_some,
          word y (List.mem_cons_of_mem _ List.mem_cons_self), Bool.and_false]
    have read := ih (fun y mem => word y (List.mem_cons_of_mem _ mem)) later
    rw [List.cons_append, plainRun, read]
    simp only [word x List.mem_cons_self, colon, Bool.false_and, Bool.or_false, Bool.false_eq_true,
      if_false]

theorem writePlain_word (s : Setting) (column : Nat) (previous : Char) (rest : List Char)
    (word : ∀ x ∈ w, x ≠ ' ') :
    ∃ column' previous', writePlain s column previous (w ++ rest) =
      w ++ writePlain s column' previous' rest := by
  induction w generalizing column previous with
  | nil => exact ⟨column, previous, rfl⟩
  | cons x w ih =>
    obtain ⟨column', previous', text⟩ := ih (column + 1) x
      fun y mem => word y (List.mem_cons_of_mem _ mem)
    refine ⟨column', previous', ?_⟩
    rw [List.cons_append, writePlain, text]
    simp [word x List.mem_cons_self]

/-! ## Gaps -/

/-- Behind a blank no blank is broken. -/
theorem writePlain_blanks (s : Setting) (column k : Nat) (rest : List Char) :
    ∃ column', writePlain s column ' ' (List.replicate k ' ' ++ rest) =
      List.replicate k ' ' ++ writePlain s column' ' ' rest := by
  induction k generalizing column with
  | zero => exact ⟨column, rfl⟩
  | succ k ih =>
    obtain ⟨column', text⟩ := ih (column + 1)
    refine ⟨column', ?_⟩
    rw [List.replicate_succ, List.cons_append, writePlain, text]
    simp [breaksHere]

/-- The blanks between two words are written as they are, or one blank as the end of a line. -/
theorem writePlain_gap (s : Setting) (column : Nat) (previous : Char) (k : Nat)
    (rest : List Char) :
    (∃ column', writePlain s column previous (List.replicate (k + 1) ' ' ++ rest) =
      List.replicate (k + 1) ' ' ++ writePlain s column' ' ' rest) ∨
    (k = 0 ∧ s.mayBreak = true ∧
      writePlain s column previous (List.replicate (k + 1) ' ' ++ rest) =
        newLine s.indent ++ writePlain s s.indent ' ' rest) := by
  rw [List.replicate_succ, List.cons_append, writePlain]
  by_cases breaks : breaksHere s column previous (List.replicate k ' ' ++ rest) = true
  · obtain rfl : k = 0 := by
      cases k with
      | zero => rfl
      | succ k => simp [breaksHere, List.replicate_succ] at breaks
    rw [List.replicate_zero, List.nil_append] at breaks ⊢
    refine Or.inr ⟨rfl, ?_, by simp [breaks]⟩
    simp only [breaksHere, Bool.and_eq_true] at breaks
    exact breaks.1.1.1
  · obtain ⟨column', text⟩ := writePlain_blanks s (column + 1) k rest
    refine Or.inl ⟨column', ?_⟩
    rw [text]
    simp [breaks]

/-- Blanks between words of a line. -/
theorem plainGap_blanks {x : Char} (h : c.rest = List.replicate k ' ' ++ x :: rest)
    (solid : isSeparator x = false) : plainGap c = ⟨List.replicate k ' ', false, c.skip k⟩ := by
  have blank : x ≠ ' ' := by
    rintro rfl
    cases solid
  have taken := c.takeWhile_eq (p := (· == ' ')) h
    (fun y mem => by simp [List.eq_of_mem_replicate mem]) (by rintro y ⟨⟩; simpa using blank)
  have none := (c.skip k).lineBreak?_eq_none (by
    rw [Cursor.skip_replicate h]
    rintro y ⟨⟩
    exact isBreak_of_not_isSeparator solid)
  rw [List.length_replicate] at taken
  simp only [plainGap, taken, none]

/-- The end of a line, and the blanks before what stands on the next one. -/
theorem plainGap_newLine (h : c.rest = newLine k ++ rest)
    (goesOn : ∀ x ∈ rest.head?, x ≠ ' ' ∧ isBreak x = false)
    (mark : c.next.atDocumentMark = false) :
    plainGap c = ⟨[' '], true, c.skip (k + 1)⟩ := by
  have taken := c.takeWhile_eq (p := (· == ' ')) (w := []) h (by simp) (by rintro x ⟨⟩; decide)
  rw [newLine, List.cons_append] at h
  have here := c.lineBreak?_lineFeed h
  have left : c.next.rest = List.replicate k ' ' ++ rest := by
    rw [c.rest_next, h, List.tail_cons]
  have blanks := c.next.skipBlanks_eq left fun blank => (goesOn _ blank).1 rfl
  have none := (c.next.skip k).lineBreak?_eq_none (by
    rw [Cursor.skip_replicate left]
    exact fun x mem => (goesOn x mem).2)
  have breaks : plainBreaks (c.next.rest.length + 1) c.next = (some [], c.next.skip k) := by
    rw [plainBreaks]
    simp only [blanks, none]
  simp only [plainGap, taken, List.length_nil, Cursor.skip, here, mark, breaks]
  rfl

/-- A gap in a written text is read as its blanks, and the text goes on in a column that is far
enough to the right. -/
theorem plainGap_written {x : Char} {d : Cursor} (solid : isSeparator x = false)
    (h : d.rest = writePlain s column previous (List.replicate (k + 1) ' ' ++ x :: rest) ++ tail)
    (lines : s.mayBreak = true → indent ≤ s.indent ∧ 0 < s.indent) (right : indent ≤ d.column) :
    ∃ column' n, (plainGap d).text = List.replicate (k + 1) ' ' ∧
      (plainGap d).cursor = d.skip n ∧ indent ≤ (d.skip n).column ∧
      (writePlain s column previous (List.replicate (k + 1) ' ' ++ x :: rest)).length =
        n + (writePlain s column' ' ' (x :: rest)).length ∧
      (d.skip n).rest = writePlain s column' ' ' (x :: rest) ++ tail := by
  have blank : x ≠ ' ' := by
    rintro rfl
    cases solid
  have head (column : Nat) : writePlain s column ' ' (x :: rest) =
      x :: writePlain s (column + 1) x rest := by
    simp [writePlain, blank]
  rcases writePlain_gap s column previous k (x :: rest) with ⟨column', text⟩ | ⟨rfl, may, text⟩
  · refine ⟨column', k + 1, ?_⟩
    rw [text, List.append_assoc] at h
    have gap := h
    rw [head, List.cons_append] at gap
    rw [plainGap_blanks gap solid, Cursor.skip_replicate h, text, List.length_append,
      List.length_replicate]
    exact ⟨rfl, rfl, Nat.le_add_right_of_le right, rfl, rfl⟩
  · obtain ⟨wide, indented⟩ := lines may
    refine ⟨s.indent, s.indent + 1, ?_⟩
    rw [text, List.append_assoc] at h
    have gap := plainGap_newLine h (by
      rw [head, List.cons_append]
      rintro y ⟨⟩
      exact ⟨blank, isBreak_of_not_isSeparator solid⟩) (Cursor.atDocumentMark_eq_false (by
        obtain ⟨k, indent_eq⟩ := Nat.exists_eq_succ_of_ne_zero (Nat.ne_zero_of_lt indented)
        rw [d.rest_next, h, newLine, List.cons_append, List.tail_cons, indent_eq]
        rintro y ⟨⟩
        decide))
    rw [gap, Cursor.skip_newLine h, text, List.length_append, newLine, List.length_cons,
      List.length_replicate]
    exact ⟨rfl, rfl, wide, rfl, rfl⟩

/-! ## Scalars -/

/-- What ends a plain scalar that stands right of the column `indent`: it takes `n` characters
more, and a line has ended or not. -/
structure EndsPlain (indent : Nat) (tail : List Char) (n : Nat) (broke : Bool) : Prop where
  run : plainRun false tail = []
  gap : ∀ c : Cursor, c.rest = tail →
    (plainGap c).cursor = c.skip n ∧ (plainGap c).brokeLine = broke ∧
    ((plainGap c).text = [] ∨ (plainGap c).cursor.column < indent)

/-- A colon that ends a word. -/
theorem endsPlain_colon {x : Char} (indent : Nat) (separator : isSeparator x = true) :
    EndsPlain indent (':' :: x :: rest) 0 false where
  run := by simp [plainRun, separator]
  gap c h := by
    have taken := c.takeWhile_eq (p := (· == ' ')) (w := []) h (by simp) (by rintro x ⟨⟩; decide)
    have none := c.lineBreak?_eq_none (by rw [h]; rintro x ⟨⟩; decide)
    have gap : plainGap c = ⟨[], false, c⟩ := by
      simp only [plainGap, taken, List.length_nil, Cursor.skip, none]
    rw [gap]
    exact ⟨rfl, rfl, Or.inl rfl⟩

/-- The end of a line, before a line that is indented less. -/
theorem endsPlain_newLine (less : k < indent)
    (goesOn : ∀ x ∈ rest.head?, x ≠ ' ' ∧ isBreak x = false)
    (mark : ∀ c : Cursor, c.rest = List.replicate k ' ' ++ rest → c.atDocumentMark = false) :
    EndsPlain indent (newLine k ++ rest) (k + 1) true where
  run := by simp [newLine, plainRun, isSeparator, isBreak]
  gap c h := by
    rw [plainGap_newLine h goesOn (mark _ (by rw [c.rest_next, h]; rfl)), Cursor.skip_newLine h]
    exact ⟨rfl, rfl, Or.inr less⟩

theorem FitsPlain.head_ne (fits : FitsPlain cs) : cs.head? ≠ some '#' := by
  intro number
  cases cs with
  | nil => cases number
  | cons x cs =>
    have words := fits.words
    rw [Option.some.inj number] at words
    simp [hasInnerIndicator] at words

/-- A plain text starts no comment. -/
theorem FitsPlain.peek_ne (fits : FitsPlain cs)
    (h : c.rest = writePlain s column previous cs ++ tail) : c.peek ≠ '#' := by
  obtain ⟨x, cs, rfl⟩ := List.exists_cons_of_ne_nil fits.filled
  rw [(fits.writePlain_head s column previous).2, List.cons_append] at h
  rw [c.peek_eq h]
  exact fun same => fits.head_ne (congrArg some same)

/-- What stands behind blanks in a plain text is a plain text. -/
theorem FitsPlain.behind {x : Char} {rest : List Char}
    (fits : FitsPlain (w ++ (List.replicate (k + 1) ' ' ++ x :: rest))) (blank : x ≠ ' ') :
    FitsPlain (x :: rest) where
  filled := List.cons_ne_nil _ _
  starts same := blank (Option.some.inj same)
  ends := by
    have last := fits.ends
    rw [← List.append_assoc, List.getLast?_append] at last
    intro same
    rw [same] at last
    exact last rfl
  printed y mem := fits.printed y (List.mem_append_right _ (List.mem_append_right _ mem))
  words := by
    have words := fits.words
    rw [List.replicate_succ', List.append_assoc, ← List.append_assoc] at words
    exact hasInnerIndicator_behind (by decide) words

/-- A plain text is a word, or a word and a plain text with blanks between them. -/
theorem FitsPlain.split (fits : FitsPlain cs) :
    ∃ w more, cs = w ++ more ∧ w ≠ [] ∧ (∀ x ∈ w, isSeparator x = false ∧ x ≠ '\ufeff') ∧
      (more = [] ∨ ∃ k x rest, more = List.replicate (k + 1) ' ' ++ x :: rest ∧
        isSeparator x = false ∧ FitsPlain (x :: rest)) := by
  obtain ⟨w, more, rfl, word, stops⟩ := exists_run (· != ' ') cs
  have blank : ∀ x ∈ more.head?, x = ' ' := fun x mem => by simpa using stops x mem
  have filled : w ≠ [] := by
    rintro rfl
    cases more with
    | nil => exact fits.filled rfl
    | cons x more => exact fits.starts (congrArg some (blank x rfl))
  refine ⟨w, more, rfl, filled, fun x mem => ?_, ?_⟩
  · obtain ⟨mark, separator⟩ := fits.printed x (List.mem_append_left _ mem)
    exact ⟨separator.resolve_left (by simpa using word x mem), mark⟩
  cases more with
  | nil => exact Or.inl rfl
  | cons y more =>
    obtain rfl := blank y rfl
    obtain ⟨blanks, rest, rfl, each, solid⟩ := exists_run (· == ' ') more
    obtain ⟨k, rfl⟩ : ∃ k, blanks = List.replicate k ' ' :=
      ⟨blanks.length, List.eq_replicate_of_mem fun x mem => by simpa using each x mem⟩
    rw [← List.cons_append, ← List.replicate_succ] at fits ⊢
    cases rest with
    | nil =>
      have last := fits.ends
      rw [List.append_nil, List.replicate_succ', ← List.append_assoc, List.getLast?_concat] at last
      exact absurd rfl last
    | cons x rest =>
      have other : x ≠ ' ' := by simpa using solid x rfl
      obtain ⟨-, separator⟩ := fits.printed x
        (List.mem_append_right _ (List.mem_append_right _ List.mem_cons_self))
      exact Or.inr ⟨k, x, rest, rfl, separator.resolve_left other, fits.behind other⟩

theorem plainRun_separator {x : Char} (separator : isSeparator x = true) :
    plainRun false (x :: rest) = [] := by
  simp [plainRun, separator]

/-- A written gap ends a word. -/
theorem plainRun_gap (s : Setting) (column : Nat) (previous : Char) (k : Nat)
    (rest tail : List Char) :
    plainRun false (writePlain s column previous (List.replicate (k + 1) ' ' ++ rest) ++ tail) =
      [] := by
  rcases writePlain_gap s column previous k rest with ⟨_, text⟩ | ⟨-, -, text⟩
  · rw [text]
    exact plainRun_separator (by decide)
  · rw [text]
    exact plainRun_separator (by decide)

/-- One word, and either the end of the scalar or a gap with more words behind it. -/
theorem lexPlainParts_word {fuel : Nat} {gap : Gap} (run : plainRun false gap.cursor.rest = w)
    (filled : w ≠ []) (number : gap.cursor.peek ≠ '#') :
    lexPlainParts false indent (fuel + 1) gap =
      let after := plainGap (gap.cursor.skip w.length)
      let more := lexPlainParts false indent fuel after
      if after.text = [] ∨ after.cursor.peek = '#' ∨ after.cursor.column < indent then
        ⟨gap.text ++ w, after.brokeLine, after.cursor⟩
      else ⟨gap.text ++ w ++ more.text, more.brokeLine, more.cursor⟩ := by
  rw [lexPlainParts]
  simp [number, run, filled, or_assoc]

/-- **A plain text is read back as itself**, from its first word on. -/
theorem lexPlainParts_written {n : Nat} (ends : EndsPlain indent tail n broke)
    (lines : s.mayBreak = true → indent ≤ s.indent ∧ 0 < s.indent) (cs : List Char)
    (fits : FitsPlain cs) (column : Nat) (previous : Char) (fuel : Nat) (gap : Gap)
    (h : gap.cursor.rest = writePlain s column previous cs ++ tail)
    (right : indent ≤ gap.cursor.column + 1) (enough : gap.cursor.rest.length < fuel) :
    lexPlainParts false indent fuel gap = ⟨gap.text ++ cs, broke,
      gap.cursor.skip ((writePlain s column previous cs).length + n)⟩ := by
  obtain ⟨fuel, rfl⟩ := Nat.exists_eq_succ_of_ne_zero (Nat.ne_zero_of_lt enough)
  obtain ⟨w, more, rfl, filled, word, more_cases⟩ := fits.split
  have blank : ∀ x ∈ w, x ≠ ' ' := by
    rintro x mem rfl
    cases (word _ mem).1
  obtain ⟨column', previous', text⟩ := writePlain_word s column previous more blank
  have some : 0 < w.length := List.length_pos_iff.2 filled
  have number := fits.peek_ne h
  rw [text, List.append_assoc] at h
  have skipped := Cursor.skip_printed h fun x mem =>
    ⟨isBreak_of_not_isSeparator (word x mem).1, (word x mem).2⟩
  have run (separated : endsWord more = true)
      (stops : plainRun false (writePlain s column' previous' more ++ tail) = []) :
      plainRun false gap.cursor.rest = w := by
    rw [h]
    exact plainRun_word (fun x mem => (word x mem).1) fits.words separated stops
  rcases more_cases with rfl | ⟨k, x, rest, rfl, solid, fits'⟩
  · -- the last word
    obtain ⟨cursor, line, past⟩ := ends.gap (gap.cursor.skip w.length) (by rw [skipped]; rfl)
    rw [lexPlainParts_word (run rfl ends.run) filled number, text]
    dsimp only
    rw [if_pos (past.imp id Or.inr), line, cursor, ← Cursor.skip_add, writePlain,
      List.append_nil]
  · -- a gap, and more words
    obtain ⟨column'', m, between, cursor, right', length, left⟩ :=
      plainGap_written (d := gap.cursor.skip w.length) solid (by rw [skipped]) lines
        (by rw [skipped]; dsimp only; omega)
    have more := lexPlainParts_written ends lines (x :: rest) fits' column'' ' ' fuel
      (plainGap (gap.cursor.skip w.length)) (by rw [cursor, left])
      (by rw [cursor]; omega) (by
        rw [h, List.length_append, List.length_append, length] at enough
        rw [cursor, left, List.length_append]
        omega)
    rw [lexPlainParts_word (run rfl (plainRun_gap ..)) filled number]
    dsimp only
    rw [if_neg, more, between, cursor, text, ← Cursor.skip_add, ← Cursor.skip_add,
      List.length_append, length]
    · simp only [List.append_assoc, Nat.add_assoc]
    rw [between, cursor]
    rintro (none | number | less)
    · cases none
    · exact fits'.peek_ne left number
    · omega
termination_by cs.length

/-- **A plain scalar is read as the text that it was written for.** -/
theorem lexPlain_written {n : Nat} (fits : FitsPlain cs) (ends : EndsPlain indent tail n broke)
    (lines : s.mayBreak = true → indent ≤ s.indent ∧ 0 < s.indent)
    (h : c.rest = writePlain s column previous cs ++ tail) (right : indent ≤ c.column + 1) :
    lexPlain false indent c =
      ⟨cs, broke, c.skip ((writePlain s column previous cs).length + n)⟩ :=
  lexPlainParts_written ends lines cs fits column previous _ ⟨[], false, c⟩ h right
    (Nat.lt_succ_self _)

end ResourceApi.Yaml
