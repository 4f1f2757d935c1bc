import Mathlib.Algebra.Group.Nat.Defs
import ResourceApi.Proofs.Yaml.Cursors
import ResourceApi.Yaml.ScalarLexer

/-! # Quoted scalars read back

The inside of quotes is read piece by piece: a character that stands for itself, a
doubled quote, a blank, an escape, or a line that ends. What a piece is read as does
not depend on what follows, but for blanks and lines: a blank is kept as long as no line
ends behind it, and a line goes on at its first character that is no blank. -/

namespace ResourceApi.Yaml

open Numeral (hexDigit?)

/-! ## Hexadecimal digits -/

theorem hexDigit?_toUpper : ∀ d < 16, hexDigit? d.digitChar.toUpper = some d := by
  decide

theorem hexValue?_concat (ds : List Char) {d : Nat} (small : d < 16) :
    hexValue? (ds ++ [d.digitChar.toUpper]) = (hexValue? ds).map (16 * · + d) := by
  rw [hexValue?, List.foldlM_append, ← hexValue?]
  cases hexValue? ds with
  | none => rfl
  | some n => simp [hexDigit?_toUpper d small]

theorem hexValue?_toDigits (n : Nat) :
    hexValue? ((Nat.toDigits 16 n).map Char.toUpper) = some n := by
  induction n using Nat.strongRecOn with
  | ind n ih =>
    rcases Nat.lt_or_ge n 16 with small | large
    · have one := hexValue?_concat [] small
      rw [Nat.toDigits_of_lt_base small]
      simpa [hexValue?] using one
    · have smaller : n / 16 < n := Nat.div_lt_self (by omega) (by decide)
      rw [Nat.toDigits_of_base_le (by decide) large, List.map_append, List.map_singleton,
        hexValue?_concat _ (Nat.mod_lt _ (by decide)), ih _ smaller, Option.map_some,
        Nat.div_add_mod]

theorem hexValue?_zeros (k : Nat) (ds : List Char) :
    hexValue? (List.replicate k '0' ++ ds) = hexValue? ds := by
  induction k with
  | zero => rfl
  | succ k ih =>
    rw [← ih, List.replicate_succ, List.cons_append]
    rfl

theorem hexValue?_upperHex (width n : Nat) : hexValue? (upperHex width n) = some n := by
  rw [upperHex, Text.hexDigits, List.map_append, List.map_replicate,
    show Char.toUpper '0' = '0' from rfl, hexValue?_zeros, hexValue?_toDigits]

theorem length_upperHex {width n : Nat} (some : 0 < width) (fits : n < 16 ^ width) :
    (upperHex width n).length = width := by
  have digits := (Nat.length_toDigits_le_iff (b := 16) (by decide) some).2 fits
  rw [upperHex, Text.hexDigits, List.length_map, List.length_append, List.length_replicate]
  omega

/-! ## Escapes -/

theorem charOf_toNat (x : Char) : charOf x.toNat = .ok x := by
  have valid : x.toNat < 0xd800 ∨ 0xdfff < x.toNat ∧ x.toNat < 0x110000 := x.valid
  rw [charOf, if_neg (by omega), if_neg (by omega), if_neg, Char.ofNat_toNat]
  rw [Bool.and_eq_true, decide_eq_true_eq, decide_eq_true_eq]
  omega

theorem unescape?_escapeLetter {x letter : Char} (h : escapeLetter? x = some letter) :
    unescape? letter = some x := by
  unfold escapeLetter? at h
  split at h <;> first | (cases h; rfl) | cases h

variable {c : Cursor} {text cs t rest : List Char} {quote x : Char} {k fuel : Nat}

theorem lexEscape_letter {letter : Char} (h : c.rest = '\\' :: letter :: rest)
    (stands : unescape? letter = some x) : lexEscape c = .ok ([x], c.skip 2) := by
  have letter' : c.peekAt 1 = letter := c.peekAt_eq (w := ['\\']) h
  simp [lexEscape, letter', stands]

theorem lexEscape_digits {letter : Char} {width : Nat}
    (h : c.rest = '\\' :: letter :: (upperHex width x.toNat ++ rest))
    (letter_eq : unescape? letter = none) (width_eq : escapeWidth? letter = some width)
    (some : 0 < width) (fits : x.toNat < 16 ^ width) :
    lexEscape c = .ok ([x], c.skip (2 + width)) := by
  have letter' : c.peekAt 1 = letter := c.peekAt_eq (w := ['\\']) h
  have length := length_upperHex some fits
  have digits : (c.rest.drop 2).take width = upperHex width x.toNat := by
    rw [h, List.drop_succ_cons, List.drop_succ_cons, List.drop_zero]
    exact List.take_left' length
  simp [lexEscape, letter', letter_eq, width_eq, digits, length, hexValue?_upperHex, charOf_toNat,
    bind, Except.bind, pure, Except.pure]

/-- **An escape is read as the character that it was written for.** -/
theorem lexEscape_escape (h : c.rest = escape x ++ rest) :
    lexEscape c = .ok ([x], c.skip (escape x).length) := by
  have bound : x.toNat < 16 ^ 8 := by
    have : x.toNat < 0xd800 ∨ 0xdfff < x.toNat ∧ x.toNat < 0x110000 := x.valid
    omega
  unfold escape at h ⊢
  split at h
  · next letter found => exact lexEscape_letter h (unescape?_escapeLetter found)
  · split_ifs at h ⊢ with byte short
    · rw [List.length_cons, List.length_cons, length_upperHex (by decide) (by omega)]
      exact lexEscape_digits h rfl rfl (by decide) (by omega)
    · rw [List.length_cons, List.length_cons, length_upperHex (by decide) (by omega)]
      exact lexEscape_digits h rfl rfl (by decide) (by omega)
    · rw [List.length_cons, List.length_cons, length_upperHex (by decide) bound]
      exact lexEscape_digits h rfl rfl (by decide) bound

theorem escape_head (x : Char) : ∃ letter more, escape x = '\\' :: letter :: more := by
  unfold escape
  split
  · exact ⟨_, _, rfl⟩
  · split_ifs <;> exact ⟨_, _, rfl⟩

/-! ## Lines -/

/-- Blanks of a line inside quotes. -/
def isInset (x : Char) : Bool := x == ' ' || x == '\t'

/-- Breaks that are read as themselves. -/
def KeptBreaks (bs : List Char) : Prop := ∀ b ∈ bs, isBreak b = true ∧ b ≠ '\u0085'

/-- What a line ends with goes on at a character that is no blank and no break. -/
def GoesOn (text : List Char) : Prop := ∀ x ∈ text.head?, isInset x = false ∧ isBreak x = false

theorem isInset_of_isBreak (ends : isBreak x = true) : isInset x = false := by
  simp [isInset, ne_of_isBreak ends (y := ' ') (by decide),
    ne_of_isBreak ends (y := '\t') (by decide)]

theorem skipInset (h : c.rest = List.replicate k ' ' ++ rest)
    (stops : ∀ x ∈ rest.head?, isInset x = false) : c.skipWhile isInset = c.skip k := by
  have taken := c.takeWhile_eq (p := isInset) h
    (fun x mem => by rw [List.eq_of_mem_replicate mem]; rfl) stops
  rw [List.length_replicate] at taken
  rw [Cursor.skipWhile, taken]

theorem lexQuotedBreaks_eq {bs : List Char} (fuel : Nat) (kept : KeptBreaks bs) (indented : 0 < k)
    (h : c.rest = bs ++ (List.replicate k ' ' ++ rest)) (goesOn : GoesOn rest)
    (enough : bs.length < fuel) :
    lexQuotedBreaks fuel c = .ok (bs, c.skip (bs.length + k)) := by
  induction bs generalizing c fuel with
  | nil =>
    obtain ⟨fuel, rfl⟩ := Nat.exists_eq_succ_of_ne_zero (Nat.ne_zero_of_lt enough)
    obtain ⟨k, rfl⟩ := Nat.exists_eq_succ_of_ne_zero (Nat.ne_zero_of_lt indented)
    rw [List.nil_append] at h
    have mark : c.atDocumentMark = false := c.atDocumentMark_eq_false (by
      rw [h]
      rintro x ⟨⟩
      decide)
    have none : (c.skip (k + 1)).lineBreak? = none := (c.skip (k + 1)).lineBreak?_eq_none (by
      rw [Cursor.skip_replicate h]
      exact fun x mem => (goesOn x mem).2)
    have skipped := skipInset h (fun x mem => (goesOn x mem).1)
    unfold isInset at skipped
    simp [lexQuotedBreaks, mark, skipped, none, require, bind, Except.bind]
  | cons b bs ih =>
    obtain ⟨fuel, rfl⟩ := Nat.exists_eq_succ_of_ne_zero (Nat.ne_zero_of_lt enough)
    obtain ⟨ends, other⟩ := kept b List.mem_cons_self
    have mark : c.atDocumentMark = false := c.atDocumentMark_eq_false (by
      rw [h]
      rintro x ⟨⟩
      exact ⟨ne_of_isBreak ends (by decide), ne_of_isBreak ends (by decide)⟩)
    have skipped := skipInset (c := c) (k := 0) h (by
      rintro x ⟨⟩
      exact isInset_of_isBreak ends)
    unfold isInset at skipped
    rw [List.cons_append] at h
    have later := ih (c := c.next) fuel (fun y mem => kept y (List.mem_cons_of_mem _ mem))
      (by rw [c.rest_next, h, List.tail_cons]) (Nat.lt_of_succ_lt_succ enough)
    have here : (c.skip 0).lineBreak? = some (b, c.next) := c.lineBreak?_eq h ends other
    have count : (b :: bs).length + k = (bs.length + k) + 1 := by
      rw [List.length_cons]
      omega
    rw [count, Cursor.skip]
    simp [lexQuotedBreaks, mark, skipped, here, later, require, bind, Except.bind, pure,
      Except.pure]

/-- What a break and the breaks behind it are read as. -/
def folded (b : Char) (bs : List Char) : List Char :=
  (if b != '\n' then [b] else if bs.isEmpty then [' '] else []) ++ bs

theorem lexQuotedBlanks_break {b : Char} {bs : List Char} (kept : KeptBreaks (b :: bs))
    (indented : 0 < k) (h : c.rest = b :: bs ++ (List.replicate k ' ' ++ rest))
    (goesOn : GoesOn rest) :
    lexQuotedBlanks c = .ok (folded b bs, c.skip ((b :: bs).length + k)) := by
  obtain ⟨ends, other⟩ := kept b List.mem_cons_self
  have taken : c.takeWhile isInset = ([], c.skip 0) := c.takeWhile_eq (w := []) h (by simp) (by
    rintro x ⟨⟩
    exact isInset_of_isBreak ends)
  rw [List.cons_append] at h
  have here : c.lineBreak? = some (b, c.next) := c.lineBreak?_eq h ends other
  have later := lexQuotedBreaks_eq (c := c.next) (c.next.rest.length + 1)
    (fun y mem => kept y (List.mem_cons_of_mem _ mem)) indented
    (by rw [c.rest_next, h, List.tail_cons]) goesOn (by
      rw [c.rest_next, h, List.tail_cons, List.length_append]
      omega)
  have count : (b :: bs).length + k = (bs.length + k) + 1 := by
    rw [List.length_cons]
    omega
  unfold isInset at taken
  rw [count, Cursor.skip]
  simp only [lexQuotedBlanks, taken, here, Cursor.skip, c.atEnd_cons h, later, require, bind,
    Except.bind, pure, Except.pure, folded, Bool.not_false, if_true]

/-! ## Pieces -/

/-- A text between quotes is read as these characters, whatever stands behind the closing quote
but one more single quote. -/
def ReadsQuoted (quote : Char) (text cs : List Char) : Prop :=
  ∀ (c : Cursor) (rest : List Char) (fuel : Nat), c.rest = text ++ quote :: rest →
    rest.head? ≠ some '\'' → c.rest.length < fuel →
    lexQuotedText quote fuel c = .ok (cs, c.skip (text.length + 1))

namespace ReadsQuoted

theorem nil (q : quote = '\'' ∨ quote = '"') : ReadsQuoted quote [] [] := by
  intro c rest fuel h single enough
  obtain ⟨fuel, rfl⟩ := Nat.exists_eq_succ_of_ne_zero (Nat.ne_zero_of_lt enough)
  rw [List.nil_append] at h
  have twice : (c.peekAt 1 == '\'') = false := by
    rw [c.peekAt_one h, beq_eq_false_iff_ne]
    cases rest with
    | nil => decide
    | cons x rest => simpa using single
  rcases q with rfl | rfl <;>
    simp [lexQuotedText, c.peek_eq h, c.atEnd_cons h, twice, Cursor.skip]

/-- A piece that is read in one step, before a text that is. -/
theorem piece (piece chars : List Char) (some : piece ≠ [])
    (step : ∀ (c : Cursor) (rest : List Char) (fuel : Nat), c.rest = piece ++ (t ++ quote :: rest) →
      lexQuotedText quote (fuel + 1) c =
        (lexQuotedText quote fuel (c.skip piece.length)).map fun r => (chars ++ r.1, r.2))
    (later : ReadsQuoted quote t cs) : ReadsQuoted quote (piece ++ t) (chars ++ cs) := by
  intro c rest fuel h single enough
  obtain ⟨fuel, rfl⟩ := Nat.exists_eq_succ_of_ne_zero (Nat.ne_zero_of_lt enough)
  rw [List.append_assoc] at h
  have left := c.rest_skip_append h
  have shorter : (c.skip piece.length).rest.length < fuel := by
    have := List.length_pos_iff.2 some
    rw [left]
    rw [h, List.length_append] at enough
    omega
  rw [step c rest fuel h, later _ rest fuel left single shorter, ← Cursor.skip_add,
    List.length_append, Nat.add_assoc]
  rfl

theorem raw (close : x ≠ quote) (backslash : x ≠ '\\' ∨ quote ≠ '"')
    (word : isSeparator x = false) (later : ReadsQuoted quote t cs) :
    ReadsQuoted quote (x :: t) (x :: cs) := by
  refine piece [x] [x] (List.cons_ne_nil _ _) ?_ later
  intro c rest fuel h
  have single : ¬ ((x = '\'' ∧ quote = '\'') ∧ c.peekAt 1 = '\'') :=
    fun both => close (both.1.1.trans both.1.2.symm)
  have escape : ¬ (x = '\\' ∧ quote = '"') := fun both => backslash.elim (· both.1) (· both.2)
  rw [List.singleton_append] at h
  simp only [lexQuotedText, c.peek_eq h, c.atEnd_cons h, Bool.and_eq_true, beq_iff_eq, single,
    close, escape, word, Bool.false_eq_true, if_false]
  change _ = Except.map _ (lexQuotedText quote fuel c.next)
  cases lexQuotedText quote fuel c.next <;> rfl

theorem twice (later : ReadsQuoted '\'' t cs) :
    ReadsQuoted '\'' ('\'' :: '\'' :: t) ('\'' :: cs) := by
  refine piece ['\'', '\''] ['\''] (List.cons_ne_nil _ _) ?_ later
  intro c rest fuel h
  have again : c.peekAt 1 = '\'' := c.peekAt_eq (w := ['\'']) h
  simp only [lexQuotedText, c.peek_eq h, c.atEnd_cons h, again, Bool.and_self, beq_self_eq_true,
    Bool.false_eq_true, if_false, if_true]
  cases lexQuotedText '\'' fuel (c.skip 2) <;> rfl

/-! ### Blanks -/

/-- Blanks before this text are kept: no line ends behind the blanks that it starts with. -/
def KeepsBlanks (text : List Char) : Prop :=
  ∀ x ∈ (text.dropWhile isInset).head?, isBreak x = false

/-- Blanks of a line are read at once. -/
theorem lexQuotedText_inset {blanks : List Char} (fuel : Nat) (q : quote = '\'' ∨ quote = '"')
    (some : blanks ≠ []) (inset : ∀ x ∈ blanks, isInset x = true)
    (h : c.rest = blanks ++ x :: rest) (goesOn : GoesOn (x :: rest)) :
    lexQuotedText quote (fuel + 1) c =
      (lexQuotedText quote fuel (c.skip blanks.length)).map fun r => (blanks ++ r.1, r.2) := by
  obtain ⟨y, blanks, rfl⟩ := List.exists_cons_of_ne_nil some
  have taken := c.takeWhile_eq (p := isInset) h inset (fun y mem => (goesOn y mem).1)
  have left := c.rest_skip_append h
  have none := (c.skip (y :: blanks).length).lineBreak?_eq_none (by
    rw [left]
    exact fun y mem => (goesOn y mem).2)
  have blank : y = ' ' ∨ y = '\t' := by
    simpa [isInset] using inset y List.mem_cons_self
  have close : y ≠ quote ∧ y ≠ '\'' ∧ y ≠ '\\' := by
    rcases q with rfl | rfl <;> rcases blank with rfl | rfl <;> decide
  have separator : isSeparator y = true := by
    rcases blank with rfl | rfl <;> decide
  rw [List.cons_append] at h
  unfold isInset at taken
  simp only [lexQuotedText, c.peek_eq h, c.atEnd_cons h, beq_iff_eq, close, separator,
    beq_eq_false_iff_ne.2 close.2.1, beq_eq_false_iff_ne.2 close.2.2, Bool.false_and,
    Bool.false_eq_true, if_false, if_true, lexQuotedBlanks, taken, Cursor.atEnd_cons left, require,
    none, bind, Except.bind, pure, Except.pure, Bool.not_false]
  cases lexQuotedText quote fuel _ <;> rfl

theorem blank (q : quote = '\'' ∨ quote = '"') (keeps : KeepsBlanks t)
    (later : ReadsQuoted quote t cs) : ReadsQuoted quote (' ' :: t) (' ' :: cs) := by
  intro c rest fuel h single enough
  obtain ⟨fuel, rfl⟩ := Nat.exists_eq_succ_of_ne_zero (Nat.ne_zero_of_lt enough)
  have blanks : ∀ x ∈ t.takeWhile isInset, isInset x = true :=
    List.all_eq_true.1 List.all_takeWhile
  -- what stands behind the blanks ends no line
  obtain ⟨y, tail, text, goesOn⟩ : ∃ y tail,
      t ++ quote :: rest = t.takeWhile isInset ++ y :: tail ∧ GoesOn (y :: tail) := by
    have split := (List.takeWhile_append_dropWhile (p := isInset) (l := t)).symm
    cases left : t.dropWhile isInset with
    | nil =>
      rw [left, List.append_nil] at split
      refine ⟨quote, rest, by rw [← split], ?_⟩
      rcases q with rfl | rfl <;> (rintro x ⟨⟩; decide)
    | cons y tail =>
      refine ⟨y, tail ++ quote :: rest, ?_, ?_⟩
      · rw [← List.cons_append, ← List.append_assoc, ← left, ← split]
      · rintro x ⟨⟩
        have other := List.head?_dropWhile_not isInset t
        have flat := keeps y
        rw [left] at other flat
        exact ⟨by simpa using other, flat rfl⟩
  have left : c.next.rest = t ++ quote :: rest := by
    rw [c.rest_next, h, List.cons_append, List.tail_cons]
  have shorter : c.next.rest.length < fuel := by
    rw [left]
    rw [h, List.cons_append, List.length_cons] at enough
    omega
  have whole := later c.next rest fuel left single shorter
  have read := later c.next rest (fuel + 1) left single (Nat.lt_succ_of_lt shorter)
  rw [text] at left
  have here := lexQuotedText_inset (c := c) fuel q (List.cons_ne_nil ' ' _)
    (List.forall_mem_cons.2 ⟨rfl, blanks⟩) (by rw [h, List.cons_append, text, List.cons_append])
    goesOn
  rw [here, List.length_cons, Cursor.skip, List.length_cons, Cursor.skip]
  by_cases none : t.takeWhile isInset = []
  · rw [none] at text ⊢
    rw [List.length_nil, Cursor.skip, whole]
    rfl
  · rw [lexQuotedText_inset _ q none blanks left goesOn] at read
    cases next : lexQuotedText quote fuel (c.next.skip (t.takeWhile isInset).length) with
    | error fault =>
      rw [next] at read
      cases read
    | ok r =>
      rw [next] at read
      simp only [Except.map, Except.ok.injEq, Prod.mk.injEq] at read ⊢
      exact ⟨congrArg (' ' :: ·) read.1, read.2⟩

/-! ### Lines and escapes -/

/-- A break with the breaks and the blanks behind it. -/
theorem lines {b : Char} {bs : List Char} (q : quote = '\'' ∨ quote = '"')
    (kept : KeptBreaks (b :: bs)) (indented : 0 < k) (goesOn : GoesOn t)
    (later : ReadsQuoted quote t cs) :
    ReadsQuoted quote (b :: bs ++ List.replicate k ' ' ++ t) (folded b bs ++ cs) := by
  refine piece _ _ (by simp) ?_ later
  intro c rest fuel h
  have goesOn' : GoesOn (t ++ quote :: rest) := by
    cases t with
    | nil => rcases q with rfl | rfl <;> (rintro x ⟨⟩; decide)
    | cons y t => exact goesOn
  rw [List.append_assoc] at h
  have read := lexQuotedBlanks_break kept indented h goesOn'
  have ends := (kept b List.mem_cons_self).1
  have single : (b == '\'') = false := beq_eq_false_iff_ne.2 (ne_of_isBreak ends (by decide))
  have escape : (b == '\\') = false := beq_eq_false_iff_ne.2 (ne_of_isBreak ends (by decide))
  have close : (b == quote) = false :=
    beq_eq_false_iff_ne.2 (ne_of_isBreak ends (by rcases q with rfl | rfl <;> decide))
  have separator : isSeparator b = true := by
    simp [isSeparator, ends]
  rw [List.cons_append] at h
  rw [List.length_append, List.length_replicate]
  simp only [lexQuotedText, c.peek_eq h, c.atEnd_cons h, single, escape, close, separator,
    Bool.false_and, Bool.false_eq_true, if_false, if_true, read, bind, Except.bind, pure,
    Except.pure]
  cases lexQuotedText quote fuel _ <;> rfl

/-- A backslash with what it stands for. -/
theorem backslash (piece chars : List Char) (some : ∃ more, piece = '\\' :: more)
    (reads : ∀ (c : Cursor) (rest : List Char), c.rest = piece ++ (t ++ '"' :: rest) →
      lexEscape c = .ok (chars, c.skip piece.length))
    (later : ReadsQuoted '"' t cs) : ReadsQuoted '"' (piece ++ t) (chars ++ cs) := by
  obtain ⟨more, rfl⟩ := some
  refine ReadsQuoted.piece _ _ (List.cons_ne_nil _ _) ?_ later
  intro c rest fuel h
  have read := reads c rest h
  rw [List.cons_append] at h
  simp only [lexQuotedText, c.peek_eq h, c.atEnd_cons h, show ('\\' == '\'') = false from rfl,
    show ('\\' == '"') = false from rfl, beq_self_eq_true, Bool.and_self, Bool.false_and,
    Bool.false_eq_true, if_false, if_true, read, bind, Except.bind, pure, Except.pure]
  cases lexQuotedText '"' fuel _ <;> rfl

theorem escape (x : Char) (later : ReadsQuoted '"' t cs) :
    ReadsQuoted '"' (Yaml.escape x ++ t) (x :: cs) := by
  obtain ⟨letter, more, text⟩ := escape_head x
  exact backslash _ _ ⟨_, text⟩ (fun c rest h => lexEscape_escape h) later

theorem escapedBlank (later : ReadsQuoted '"' t cs) :
    ReadsQuoted '"' ('\\' :: ' ' :: t) (' ' :: cs) :=
  backslash ['\\', ' '] [' '] ⟨_, rfl⟩
    (fun _ _ h => lexEscape_letter h rfl) later

/-- A backslash at the end of a line: the line goes on without a blank. -/
theorem brokenLine (indented : 0 < k) (goesOn : GoesOn t) (later : ReadsQuoted '"' t cs) :
    ReadsQuoted '"' ('\\' :: newLine k ++ t) cs := by
  refine backslash _ [] ⟨_, rfl⟩ ?_ later
  intro c rest h
  have goesOn' : GoesOn (t ++ '"' :: rest) := by
    cases t with
    | nil => rintro x ⟨⟩; decide
    | cons y t => exact goesOn
  rw [newLine, List.cons_append, List.cons_append] at h
  have letter : c.peekAt 1 = '\n' := c.peekAt_eq (w := ['\\']) h
  have left : c.next.rest = '\n' :: (List.replicate k ' ' ++ (t ++ '"' :: rest)) := by
    rw [c.rest_next, h, List.tail_cons]
  have here := c.next.lineBreak?_lineFeed left
  have empty : KeptBreaks [] := fun b mem => absurd mem List.not_mem_nil
  have later := lexQuotedBreaks_eq (c := c.next.next) (c.next.next.rest.length + 1) empty indented
    (by rw [Cursor.rest_next, left, List.tail_cons, List.nil_append]) goesOn' (Nat.succ_pos _)
  rw [List.length_cons, newLine, List.length_cons, List.length_replicate, Cursor.skip, Cursor.skip]
  simp only [lexEscape, letter, show unescape? '\n' = none from rfl,
    show escapeWidth? '\n' = none from rfl, here, later, List.length_nil, Nat.zero_add]

end ReadsQuoted

end ResourceApi.Yaml
