import ResourceApi.Proofs.Yaml.LexerSteps
import ResourceApi.Proofs.Yaml.QuotedTexts

/-! # Scalars as tokens

A written scalar is one token, plain or quoted. Below a key it takes its line; as a key
it is followed by a colon, and the tokens that announce it are put before it. -/

namespace ResourceApi.Yaml.Lexer

variable {p : List Token} {c : Cursor} {i : Int} {o : List Int} {a : Bool}
  {keys : List PossibleKey} {rest cs tail : List Char} {k column : Nat} {s : Setting}
  {previous : Char}

/-! ## Reading a scalar -/

/-- A scalar may turn out to be a key where a key may stand. -/
def noted (a : Bool) (i : Int) (c : Cursor) (p : List Token) : List PossibleKey :=
  if a then [⟨0, p.length, i == (c.column : Int), c⟩] else []

theorem noteKey_inBlock : (inBlock c a i o [] p).noteKey =
    .ok (inBlock c a i o (noted a i c p) p) := by
  cases a <;> rfl

theorem lexToken_quoted {quote : Char} {inside : List Char}
    (q : quote = '\'' ∨ quote = '"') (h : c.rest = quote :: (inside ++ quote :: tail))
    (reads : ReadsQuoted quote inside cs) (single : tail.head? ≠ some '\'') :
    (inBlock c a i o [] p).lexToken =
      .ok (some (inBlock (c.skip (inside.length + 2)) false i o (noted a i c p)
        (p ++ [.scalar (String.ofList cs) false]))) := by
  have mark : c.atDocumentMark = false := Cursor.atDocumentMark_eq_false (by
    rw [h]
    rintro y ⟨⟩
    rcases q with rfl | rfl <;> decide)
  have left : c.next.rest = inside ++ quote :: tail := by rw [c.rest_next, h, List.tail_cons]
  have text : lexQuoted c =
      .ok (.scalar (String.ofList cs) false, c.skip (inside.length + 2)) := by
    have read := reads c.next tail (c.rest.length + 1) left single (by
      rw [left, h, List.length_cons]
      omega)
    rw [lexQuoted, c.peek_eq h, read]
    rfl
  have sign : (inBlock c a i o [] p).lexSign =
      (inBlock c a i o [] p).lexKeyLike lexQuoted := by
    rcases q with rfl | rfl <;> simp [lexSign, inBlock, c.peek_eq h]
  rw [lexToken_eq (c.atEnd_cons h) (by
    rw [inBlock, c.peek_eq h]
    rcases q with rfl | rfl <;> decide) mark, sign, lexKeyLike, noteKey_inBlock]
  change some <$> (lexQuoted c >>= fun r => pure
    { (inBlock c a i o (noted a i c p) p).emit r.1 with
      cursor := r.2, keyAllowed := false }) = _
  rw [text]
  exact congrArg (fun l => Except.ok (some l)) (emit_inBlock _ _ _)

/-- The characters that are signs, whatever stands behind them. -/
def signs : List Char := "#,[]\x7b\x7d&*!|>'\"%@`".toList

/-- The characters that are signs if they are words of their own. -/
def wordSigns : List Char := "?:-".toList

/-- A character that is no sign starts a plain scalar. -/
theorem lexSign_other {x : Char} (first : c.peek = x) (solid : isSeparator x = false)
    (never : ∀ y ∈ signs, x ≠ y) (other : ∀ y ∈ wordSigns, x ≠ y) :
    (inBlock c a i o [] p).lexSign = (inBlock c a i o [] p).lexPlainScalar := by
  have apart (y : Char) (mem : y ∈ signs ∨ y ∈ wordSigns) : (x == y) = false :=
    beq_eq_false_iff_ne.2 (mem.elim (never y) (other y))
  have start : (inBlock c a i o [] p).startsPlain = true := by
    have each : ∀ y ∈ "-?:,[]\x7b\x7d#&*!|>'\"%@`".toList, y ∈ signs ∨ y ∈ wordSigns := by decide
    have none : "-?:,[]\x7b\x7d#&*!|>'\"%@`".toList.contains x = false := by
      rw [Bool.eq_false_iff, Ne, List.contains_iff_mem]
      exact fun mem => (each x mem).elim (never x · rfl) (other x · rfl)
    rw [startsPlain]
    simp only [inBlock, first, none, solid]
    rfl
  rw [lexSign]
  split
  · next same => exact absurd (first.symm.trans same) (never _ (by decide))
  · next same => exact absurd (first.symm.trans same) (never _ (by decide))
  · next same => exact absurd (first.symm.trans same) (never _ (by decide))
  · next same => exact absurd (first.symm.trans same) (never _ (by decide))
  · next same => exact absurd (first.symm.trans same) (never _ (by decide))
  · simp only [show (inBlock c a i o [] p).cursor = c from rfl, first, start,
      apart '-' (by decide), apart '?' (by decide), apart ':' (by decide), apart '*' (by decide),
      apart '&' (by decide), apart '!' (by decide), apart '|' (by decide),
      apart '>' (by decide), apart '\'' (by decide), apart '"' (by decide), Bool.false_and,
      Bool.or_self, Bool.false_eq_true, if_false, if_true]

/-- A plain text starts with no sign. -/
theorem lexSign_plain {x : Char} (fits : FitsPlain (x :: cs))
    (indicator : hasIndicator (x :: cs) = false)
    (h : c.rest = writePlain s column previous (x :: cs) ++ tail) :
    (inBlock c a i o [] p).lexSign =
      (inBlock c a i o [] p).lexPlainScalar ∧ c.peek = x ∧ x ≠ '%' := by
  obtain ⟨solid, text⟩ := fits.writePlain_head s column previous
  rw [text, List.cons_append] at h
  have first := c.peek_eq h
  simp only [hasIndicator, Bool.or_eq_false_iff] at indicator
  obtain ⟨⟨⟨-, never⟩, word⟩, -⟩ := indicator
  by_cases sign : wordSigns.contains x = true
  · -- a sign in front of more of a word
    have second : isSeparator (c.peekAt 1) = false := by
      change (wordSigns.contains x && _) = false at word
      rw [sign, Bool.true_and] at word
      cases cs with
      | nil => cases word
      | cons y cs =>
        have solid' : isSeparator y = false := word
        have blank' : y ≠ ' ' := by
          rintro rfl
          cases solid'
        rw [c.peekAt_one h]
        simpa [writePlain, blank'] using solid'
    have cases : x = '?' ∨ x = ':' ∨ x = '-' := by simpa [wordSigns] using sign
    rcases cases with rfl | rfl | rfl <;>
      exact ⟨by simp [lexSign, inBlock, first, second, startsPlain], first, by decide⟩
  · have never : ∀ y ∈ signs, x ≠ y := by
      rintro y mem rfl
      exact Bool.false_ne_true (never.symm.trans (List.contains_iff_mem.2 mem))
    refine ⟨lexSign_other first solid never ?_, first, never _ (by decide)⟩
    rintro y mem rfl
    exact sign (List.contains_iff_mem.2 mem)

/-- A mark of a document is no plain text. -/
theorem isPrefixOf_writePlain {m : Char} (feed : m ≠ '\n') (n : Nat)
    (ends : tail.head? ≠ some m)
    (h : (List.replicate n m).isPrefixOf (writePlain s column previous cs ++ tail) = true) :
    (List.replicate n m).isPrefixOf cs = true := by
  induction n generalizing cs column previous with
  | zero => rfl
  | succ n ih =>
    cases cs with
    | nil =>
      cases tail with
      | nil => cases h
      | cons y tail =>
        simp [writePlain, List.replicate_succ, List.isPrefixOf] at h ends
        exact absurd h.1.symm ends
    | cons y cs =>
      rw [writePlain] at h
      split_ifs at h with broken
      · rw [newLine, List.replicate_succ] at h
        simp [List.isPrefixOf] at h
        exact absurd h.1 feed
      · rw [List.replicate_succ, List.cons_append, List.isPrefixOf_cons_cons, Bool.and_eq_true] at h
        rw [List.replicate_succ, List.isPrefixOf_cons_cons, h.1, ih h.2]
        rfl

theorem noMark_plain (indicator : hasIndicator cs = false)
    (mark : tail.head? ≠ some '-' ∧ tail.head? ≠ some '.')
    (h : c.rest = writePlain s column previous cs ++ tail) : c.atDocumentMark = false := by
  have prefixes : ['-', '-', '-'].isPrefixOf cs = false ∧
      ['.', '.', '.'].isPrefixOf cs = false := by
    cases cs with
    | nil => exact ⟨rfl, rfl⟩
    | cons x cs =>
      simp only [hasIndicator, Bool.or_eq_false_iff] at indicator
      exact indicator.1.1.1
  rw [Cursor.atDocumentMark, Bool.or_eq_false_iff]
  constructor <;> refine Cursor.atMark_eq_false (Bool.eq_false_iff.2 fun same => ?_) <;>
    rw [h] at same
  · exact Bool.false_ne_true
      (prefixes.1.symm.trans (isPrefixOf_writePlain (m := '-') (by decide) 3 mark.1 same))
  · exact Bool.false_ne_true
      (prefixes.2.symm.trans (isPrefixOf_writePlain (m := '.') (by decide) 3 mark.2 same))

/-- A plain scalar, with what the lexer reads on of the gap behind it. -/
theorem lexToken_plain {n : Nat} {broke : Bool} (fits : FitsPlain cs)
    (indicator : hasIndicator cs = false)
    (lines : s.mayBreak = true → i + 1 ≤ s.indent ∧ 0 < s.indent)
    (ends : EndsPlain (i + 1).toNat tail n broke)
    (mark : tail.head? ≠ some '-' ∧ tail.head? ≠ some '.')
    (h : c.rest = writePlain s column previous cs ++ tail) (le : i ≤ c.column) :
    (inBlock c a i o [] p).lexToken =
      .ok (some (inBlock (c.skip ((writePlain s column previous cs).length + n)) broke i o
        (noted a i c p) (p ++ [.scalar (String.ofList cs) true]))) := by
  obtain ⟨x, cs, rfl⟩ := List.exists_cons_of_ne_nil fits.filled
  obtain ⟨sign, first, directive⟩ :=
    lexSign_plain (a := a) (i := i) (o := o) (p := p) fits indicator h
  have more : c.atEnd = false := by
    rw [(fits.writePlain_head _ _ _).2, List.cons_append] at h
    exact c.atEnd_cons h
  have text := lexPlain_written fits ends (by
    intro may
    have := lines may
    omega) h (by omega)
  rw [lexToken_eq more (by rwa [inBlock, first]) (noMark_plain indicator mark h), sign,
    lexPlainScalar, noteKey_inBlock]
  change some <$> (pure
    { (inBlock c a i o (noted a i c p) p).emit
        (.scalar (String.ofList (lexPlain false (i + 1).toNat c).text) true) with
      cursor := (lexPlain false (i + 1).toNat c).cursor,
      keyAllowed := (lexPlain false (i + 1).toNat c).brokeLine } : Lex Lexer) = _
  rw [text]
  exact congrArg (fun l => Except.ok (some l)) (emit_inBlock _ _ _)

/-! ## Texts -/

/-- What may stand on the line below: nothing, or a token that marks no document. -/
structure NextLine (k : Nat) (rest : List Char) : Prop where
  solid : Solid rest
  noMark : ∀ c : Cursor, c.rest = List.replicate k ' ' ++ rest → c.atDocumentMark = false

/-- A plain text starts a token. -/
theorem solid_writePlain (s : Setting) (column : Nat) (previous : Char) (fits : FitsPlain cs) :
    ∃ x more, writePlain s column previous cs = x :: more ∧ Solid [x] := by
  obtain ⟨x, cs, rfl⟩ := List.exists_cons_of_ne_nil fits.filled
  obtain ⟨solid, head⟩ := fits.writePlain_head s column previous
  have number := fits.head_ne
  refine ⟨x, _, head, ?_⟩
  rintro y ⟨⟩
  refine ⟨?_, by simpa using number, isBreak_of_not_isSeparator solid⟩
  rintro rfl
  cases solid

theorem solid_writeText (s : Setting) (isKey : Bool) (column : Nat) (text : String) :
    ∃ x more, writeText s isKey column text = x :: more ∧ Solid [x] := by
  unfold writeText
  dsimp only
  split
  · next plain => exact solid_writePlain _ _ _ (FitsPlain.of_fitsPlain (quoting_plain.1 plain)).1
  · refine ⟨'\'', _, rfl, ?_⟩
    rintro y ⟨⟩
    decide
  · refine ⟨'"', _, rfl, ?_⟩
    rintro y ⟨⟩
    decide

/-- A text marks no document. -/
theorem noMark_writeText {isKey : Bool} {text : String}
    (mark : tail.head? ≠ some '-' ∧ tail.head? ≠ some '.')
    (h : c.rest = writeText s isKey column text ++ tail) : c.atDocumentMark = false := by
  unfold writeText at h
  dsimp only at h
  split at h
  · next plain => exact noMark_plain (FitsPlain.of_fitsPlain (quoting_plain.1 plain)).2.1 mark h
  · refine c.atDocumentMark_eq_false ?_
    rw [h]
    rintro x ⟨⟩
    decide
  · refine c.atDocumentMark_eq_false ?_
    rw [h]
    rintro x ⟨⟩
    decide

/-- A text between quotes is written with the quotes around its inside. -/
theorem lexNext_quoted {quote : Char} {inside text : List Char}
    (q : quote = '\'' ∨ quote = '"') (written : text = quote :: inside ++ [quote])
    (reads : ReadsQuoted quote inside cs) (single : tail.head? ≠ some '\'')
    (h : c.rest = text ++ tail) (le : i ≤ c.column) :
    (inBlock c a i o [] p).lexNext =
      .ok (some (inBlock (c.skip text.length) false i o (noted a i c p)
        (p ++ [.scalar (String.ofList cs) false]))) := by
  have left : c.rest = quote :: (inside ++ quote :: tail) := by
    rw [h, written]
    simp
  have solid : Solid c.rest := by
    rw [left]
    rintro x ⟨⟩
    rcases q with rfl | rfl <;> decide
  have length : text.length = inside.length + 2 := by
    rw [written]
    simp
  rw [lexNext_inBlock solid le, lexToken_quoted q left reads single, length]

/-- What a written text is lexed as: how far the cursor goes on behind it, and whether a key may
stand there. -/
theorem lexNext_text {isKey : Bool} {text : String} {n : Nat} {broke : Bool}
    (kept : isKept s isKey text.toList = true)
    (indented : i + 1 ≤ s.indent ∧ 0 < s.indent ∨ s.mayBreak = false ∧ isKey = true)
    (ends : EndsPlain (i + 1).toNat tail n broke) (mark : ∀ x ∈ tail.head?, x ∉ ['-', '.', '\''])
    (h : c.rest = writeText s isKey column text ++ tail) (le : i ≤ c.column) :
    ∃ m b, (m = n ∧ b = broke ∨ m = 0 ∧ b = false) ∧
      (inBlock c a i o [] p).lexNext =
        .ok (some (inBlock (c.skip ((writeText s isKey column text).length + m)) b i o
          (noted a i c p) (p ++ [.scalar text (fitsPlain text.toList)]))) := by
  by_cases plain : fitsPlain text.toList = true
  · obtain ⟨fits, indicator, -⟩ := FitsPlain.of_fitsPlain plain
    have written : writeText s isKey column text = writePlain s column '"' text.toList := by
      rw [writeText, quoting_plain.2 plain]
    rw [written] at h
    have solid : Solid c.rest := by
      obtain ⟨x, more, head, solid⟩ := solid_writePlain s column '"' fits
      rw [h, head]
      exact solid.append
    refine ⟨n, broke, Or.inl ⟨rfl, rfl⟩, ?_⟩
    rw [lexNext_inBlock solid le, written, plain, lexToken_plain fits indicator ?_ ends ?_ h le,
      String.ofList_toList]
    · intro may
      refine indented.resolve_right fun whole => ?_
      rw [whole.1] at may
      cases may
    · constructor <;> intro same <;> exact mark _ same (by decide)
  · have quoted : quoting isKey text.toList ≠ .plain := fun same => plain (quoting_plain.1 same)
    have single : tail.head? ≠ some '\'' := fun same => mark _ same (by decide)
    rw [Bool.not_eq_true] at plain
    refine ⟨0, false, Or.inr ⟨rfl, rfl⟩, ?_⟩
    rcases readsQuoted_text column kept (indented.imp (·.2) id) quoted with
      ⟨how, reads⟩ | ⟨how, reads⟩
    · have written : writeText s isKey column text =
          '\'' :: writeSingle s (column + 1) none text.toList ++ ['\''] := by
        rw [writeText, how]
      have next := lexNext_quoted (a := a) (o := o) (p := p)
        (Or.inl rfl) written reads single h le
      rw [String.ofList_toList] at next
      rw [plain, Nat.add_zero, next]
    · have written : writeText s isKey column text =
          '"' :: writeDouble s (column + 1) true true text.toList ++ ['"'] := by
        rw [writeText, how]
      have next := lexNext_quoted (a := a) (o := o) (p := p)
        (Or.inr rfl) written reads single h le
      rw [String.ofList_toList] at next
      rw [plain, Nat.add_zero, next]

/-! ## Values on their lines -/

/-- Behind a text and a line end stands the next line. -/
theorem skip_line {text : List Char} (h : c.rest = text ++ (newLine k ++ rest)) :
    (c.skip (text.length + (k + 1))).rest = rest ∧
      (c.skip (text.length + (k + 1))).column = k ∧
      c.line < (c.skip (text.length + (k + 1))).line := by
  have left := c.rest_skip_append h
  have := c.line_le_skip text.length
  rw [Cursor.skip_add, Cursor.skip_newLine left]
  exact ⟨rfl, rfl, by dsimp only; omega⟩

theorem spare_noted (right : a = true → i < c.column) :
    Spare (noted a i c p) := by
  unfold noted
  split
  · next allowed =>
    have := right allowed
    simp [Spare]
    omega
  · exact spare_nil

theorem start_noted : ∀ key ∈ noted a i c p, key.start = c := by
  unfold noted
  split <;> simp

/-- A token that fills its line but for the line end, which it may take along. -/
theorem leads_line {text : List Char} {t : Token} {m : Nat} {b : Bool} (filled : text ≠ [])
    (h : c.rest = text ++ (newLine k ++ rest)) (solid : Solid rest)
    (right : a = true → i < c.column) (taken : m = k + 1 ∧ b = true ∨ m = 0 ∧ b = false)
    (next : (inBlock c a i o [] p).lexNext =
      .ok (some (inBlock (c.skip (text.length + m)) b i o (noted a i c p)
        (p ++ [t])))) :
    Leads (inBlock c a i o [] p)
      (inBlock (c.skip (text.length + (k + 1))) true i o [] (p ++ [t])) := by
  obtain ⟨left, -, line⟩ := skip_line h
  have spare := spare_noted (p := p) right
  have some := List.length_pos_iff.2 filled
  refine Leads.trans (.of_lexNext next ?_) ?_
  · change (c.skip (text.length + m)).rest.length < c.rest.length
    rw [Cursor.rest_skip, List.length_drop, h, List.length_append]
    omega
  · rcases taken with ⟨rfl, rfl⟩ | ⟨rfl, rfl⟩
    · refine leads_stale (by rwa [left]) spare fun key mem => ?_
      rw [start_noted key mem]
      omega
    · rw [Nat.add_zero, Cursor.skip_add c text.length (k + 1)]
      refine leads_newLine (c.rest_skip_append h) solid spare fun key mem => ?_
      rw [start_noted key mem]
      exact c.line_le_skip _

theorem head_newLine (k : Nat) (rest : List Char) : (newLine k ++ rest).head? = some '\n' := rfl

theorem endsPlain_nextLine (left : (k : Int) ≤ i) (next : NextLine k rest) :
    EndsPlain (i + 1).toNat (newLine k ++ rest) (k + 1) true :=
  endsPlain_newLine (by omega) (fun x mem => ⟨(next.solid x mem).1, (next.solid x mem).2.2⟩)
    next.noMark

/-- **A text that takes its line is one token.** -/
theorem leads_text {isKey : Bool} {text : String} (kept : isKept s isKey text.toList = true)
    (indented : i + 1 ≤ s.indent ∧ 0 < s.indent) (left : (k : Int) ≤ i) (next : NextLine k rest)
    (h : c.rest = writeText s isKey column text ++ (newLine k ++ rest)) (le : i ≤ c.column)
    (right : a = true → i < c.column) :
    Leads (inBlock c a i o [] p)
      (inBlock (c.skip ((writeText s isKey column text).length + (k + 1))) true i o []
        (p ++ [.scalar text (fitsPlain text.toList)])) := by
  obtain ⟨m, b, taken, token⟩ := lexNext_text (a := a) (o := o)
    (p := p) kept (Or.inl indented) (endsPlain_nextLine left next) (by
      rw [head_newLine]
      rintro x ⟨⟩
      decide) h le
  obtain ⟨x, more, head, -⟩ := solid_writeText s isKey column text
  exact leads_line (by rw [head]; exact List.cons_ne_nil _ _) h next.solid right taken token

/-- A plain word, such as a number. -/
theorem leads_word {w : List Char} (fits : FitsPlain w) (indicator : hasIndicator w = false)
    (left : (k : Int) ≤ i) (next : NextLine k rest) (h : c.rest = w ++ (newLine k ++ rest))
    (le : i ≤ c.column) (right : a = true → i < c.column) :
    Leads (inBlock c a i o [] p)
      (inBlock (c.skip (w.length + (k + 1))) true i o []
        (p ++ [.scalar (String.ofList w) true])) := by
  have whole (column previous) : writePlain ⟨false, 0⟩ column previous w = w := writePlain_whole rfl
  obtain ⟨x, more, head, solid⟩ := solid_writePlain ⟨false, 0⟩ 0 '"' fits
  rw [whole] at head
  have token := lexToken_plain (a := a) (o := o) (p := p)
    fits indicator (s := ⟨false, 0⟩) (by rintro ⟨⟩) (endsPlain_nextLine left next)
    (by rw [head_newLine]; decide) (by rw [whole 0 '"', h]) le
  rw [whole] at token
  have here : Solid c.rest := by
    rw [h, head]
    exact solid.append
  exact leads_line fits.filled h next.solid right (Or.inl ⟨rfl, rfl⟩)
    ((lexNext_inBlock here le).trans token)

/-! ## Empty collections -/

/-- The marks of an empty collection: its brackets and their tokens. -/
inductive Brackets : Char → Char → Token → Token → Prop where
  | list : Brackets '[' ']' .flowSequenceStart .flowSequenceEnd
  | map : Brackets '\x7b' '\x7d' .flowMappingStart .flowMappingEnd

section Brackets

variable {first last : Char} {opens closes : Token} (bracket : Brackets first last opens closes)
include bracket

/-- A bracket starts a token, and neither a directive nor a document. -/
theorem bracket_starts {x : Char} (h : c.rest = x :: rest) (either : x = first ∨ x = last) :
    Solid c.rest ∧ c.peek ≠ '%' ∧ c.atDocumentMark = false := by
  refine ⟨?_, ?_, c.atDocumentMark_eq_false ?_⟩
  · rw [h]
    rintro y ⟨⟩
    cases bracket <;> rcases either with rfl | rfl <;> decide
  · rw [c.peek_eq h]
    cases bracket <;> rcases either with rfl | rfl <;> decide
  · rw [h]
    rintro y ⟨⟩
    cases bracket <;> rcases either with rfl | rfl <;> decide

theorem lexNext_open (h : c.rest = first :: rest) (le : i ≤ c.column) :
    (inBlock c a i o [] p).lexNext =
      .ok (some { inBlock c.next true i o (noted a i c p) (p ++ [opens]) with
        depth := 1 }) := by
  obtain ⟨solid, directive, mark⟩ := bracket_starts bracket h (Or.inl rfl)
  have sign : (inBlock c a i o [] p).lexSign =
      (inBlock c a i o [] p).lexFlowStart opens := by
    cases bracket <;> simp [lexSign, inBlock, c.peek_eq h]
  rw [lexNext_inBlock solid le, lexToken_eq (c.atEnd_cons h) directive mark, sign, lexFlowStart,
    noteKey_inBlock]
  refine congrArg (fun l => Except.ok (some l)) ?_
  rw [emitOver_inBlock]
  rfl

theorem lexNext_close (h : c.rest = last :: rest) (spare : Spare keys) :
    ∃ keys', (∀ key ∈ keys', key ∈ keys) ∧
      { inBlock c true i o keys p with depth := 1 }.lexNext =
        .ok (some (inBlock c.next false i o keys' (p ++ [closes]))) := by
  obtain ⟨solid, directive, mark⟩ := bracket_starts bracket h (Or.inr rfl)
  refine ⟨keys.filter fun key => !PossibleKey.isStale key c,
    fun key mem => (List.mem_filter.1 mem).1, ?_⟩
  have arrived : { inBlock c true i o keys p with depth := 1 }.arrive =
      .ok { inBlock c true i o (keys.filter fun key => !PossibleKey.isStale key c) p with
        depth := 1 } := by
    rw [arrive, skipToToken_blanks (k := 0) _ rfl solid,
      dropStaleKeys_eq fun key mem _ => (spare key mem).2]
    rfl
  have spare' : Spare (keys.filter fun key => !PossibleKey.isStale key c) :=
    fun key mem => spare key (List.mem_filter.1 mem).1
  generalize keys.filter (fun key => !PossibleKey.isStale key c) = keys at arrived spare'
  have sign : { inBlock c true i o keys p with depth := 1 }.lexSign =
      { inBlock c true i o keys p with depth := 1 }.lexFlowEnd closes := by
    cases bracket <;> simp [lexSign, inBlock, c.peek_eq h]
  -- a key in front of the brackets is not given up with what stands in them
  have dropped : { inBlock c true i o keys p with depth := 1 }.dropKey =
      .ok { inBlock c true i o keys p with depth := 1 } := by
    refine dropKey_eq_self fun key mem => ?_
    rw [(spare' key mem).1]
    exact Nat.zero_ne_one
  rw [lexNext_eq, arrived]
  change lexToken _ = _
  rw [lexToken_eq (c.atEnd_cons h) directive mark, sign, lexFlowEnd, dropped]
  refine congrArg (fun l => Except.ok (some l)) ?_
  simp [emitOver, emit, inBlock, Cursor.skip]

/-- Brackets around nothing. -/
theorem leads_empty (solid : Solid rest) (h : c.rest = [first, last] ++ (newLine k ++ rest))
    (le : i ≤ c.column) (right : a = true → i < c.column) :
    Leads (inBlock c a i o [] p)
      (inBlock (c.skip (2 + (k + 1))) true i o [] (p ++ [opens, closes])) := by
  have left : c.next.rest = last :: (newLine k ++ rest) := by
    rw [c.rest_next, h]
    rfl
  have left' : (c.skip 2).rest = newLine k ++ rest := c.rest_skip_append (w := [first, last]) h
  have spare := spare_noted (p := p) right
  obtain ⟨keys', old, close⟩ := lexNext_close bracket (i := i) (o := o)
    (p := p ++ [opens]) left spare
  refine Leads.trans (.of_lexNext (lexNext_open bracket h le) ?_)
    (Leads.trans (.of_lexNext close ?_) ?_)
  · change c.next.rest.length < c.rest.length
    rw [left, h]
    simp
  · change c.next.next.rest.length < c.next.rest.length
    rw [Cursor.rest_next, left]
    simp
  · rw [Cursor.skip_add c 2 (k + 1), List.append_assoc]
    refine leads_newLine left' solid (fun key mem => spare key (old key mem)) fun key mem => ?_
    rw [start_noted key (old key mem)]
    exact c.line_le_skip 2

end Brackets

end ResourceApi.Yaml.Lexer
