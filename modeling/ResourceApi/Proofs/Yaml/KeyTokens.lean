import ResourceApi.Proofs.Yaml.ScalarTokens
import ResourceApi.Yaml.Writer

/-! # Keys as tokens

A key, its scalar and the sign of its value are three tokens. A key on the line of its
value is told by the colon behind it only, so that its token, and that of the block it
starts, are put in front of a scalar that is read already. -/

namespace ResourceApi.Yaml.Lexer

variable {p q : List Token} {c : Cursor} {i : Int} {o o' : List Int}
  {a : Bool} {rest : List Char} {k column : Nat} {key : String} {t : Token}

/-- What a mark in a column opens: a block, unless one is open there. -/
inductive Opens (column : Nat) (t : Token) : Int → List Int → List Int → List Token → Prop where
  | right {i : Int} {o : List Int} : i < column → Opens column t i o (i :: o) [t]
  | same {o : List Int} : Opens column t column o o []

theorem Opens.le (opens : Opens column t i o o' q) : i ≤ column := by
  cases opens with
  | right less => omega
  | same => exact Int.le_refl _

theorem Opens.openHere (opens : Opens c.column t i o o' q) :
    (inBlock c true i o [] p).openHere t =
      .ok (inBlock c true c.column o' [] (p ++ q)) := by
  cases opens with
  | right less => exact openHere_right t less
  | same =>
    rw [List.append_nil]
    exact openHere_same t rfl

/-! ## Keys on lines of their own -/

/-- Only at the start of a line a document may be marked. -/
theorem NextLine.of_solid (solid : Solid rest)
    (mark : ∀ c : Cursor, c.rest = rest → c.atDocumentMark = false) : NextLine k rest where
  solid := solid
  noMark c h := by
    cases k with
    | zero => exact mark c h
    | succ k =>
      refine c.atDocumentMark_eq_false ?_
      rw [h]
      rintro x ⟨⟩
      decide

theorem nextLine_colon : NextLine k (':' :: ' ' :: rest) :=
  .of_solid (by rintro x ⟨⟩; decide) fun _ h => atDocumentMark_sign h (by decide)

/-- A key that is announced by a question mark. -/
theorem leads_announcedKey {rest : List Char}
    (kept : isKept ⟨true, c.column + 2⟩ false key.toList = true)
    (opens : Opens c.column .blockMappingStart i o o' q)
    (h : c.rest = '?' :: ' ' :: writeText ⟨true, c.column + 2⟩ false (c.column + 2) key ++
      newLine c.column ++ ':' :: ' ' :: rest) (solid : Solid rest) :
    ∃ d : Cursor, d.rest = rest ∧ d.column = c.column + 2 ∧
      Leads (inBlock c true i o [] p)
        (inBlock d true c.column o' [] (p ++ q ++
          [.key, .scalar key (fitsPlain key.toList), .value])) := by
  rw [List.append_assoc, List.cons_append, List.cons_append] at h
  obtain ⟨x, more, head, start⟩ :=
    solid_writeText ⟨true, c.column + 2⟩ false (c.column + 2) key
  have question : Leads (inBlock c true i o [] p)
      (inBlock (c.skip 2) true c.column o' [] (p ++ q ++ [.key])) :=
    leads_sign opens.le h (by rintro x ⟨⟩; decide) (by decide)
      (by rw [head]; exact start.append) (lexSign_question h rfl opens.openHere)
  have behind : (c.skip 2).rest = writeText ⟨true, c.column + 2⟩ false (c.column + 2) key ++
      (newLine c.column ++ ':' :: ' ' :: rest) := c.rest_skip_append (w := ['?', ' ']) h
  have place : (c.skip 2).column = c.column + 2 :=
    congrArg Cursor.column (c.skip_printed (w := ['?', ' ']) h (by decide))
  have text := leads_text (a := true) (o := o') (p := p ++ q ++ [.key])
    kept (by dsimp only; omega) (Int.le_refl c.column) nextLine_colon behind (by omega)
    (fun _ => by omega)
  obtain ⟨left, line, -⟩ := skip_line behind
  generalize (c.skip 2).skip
    ((writeText ⟨true, c.column + 2⟩ false (c.column + 2) key).length + (c.column + 1)) = d
    at text left line
  have same : (c.column : Int) = d.column := by rw [line]
  have place' : (d.skip 2).column = d.column + 2 :=
    congrArg Cursor.column (d.skip_printed (w := [':', ' ']) left (by decide))
  have colon := leads_sign (Int.le_of_eq same) left (by rintro x ⟨⟩; decide) (by decide) solid
    (lexSign_colon left rfl (openHere_same (o := o') (p := p ++ q ++ [.key] ++
      [.scalar key (fitsPlain key.toList)]) .blockMappingStart same))
  refine ⟨d.skip 2, d.rest_skip_append (w := [':', ' ']) left, by omega, ?_⟩
  have all := (question.trans text).trans colon
  rwa [List.append_assoc (p ++ q), List.append_assoc (p ++ q)] at all

/-! ## Keys on the lines of their values -/

theorem isKept_simple (simple : isSimpleKey key.toList = true) :
    isKept ⟨false, 0⟩ true key.toList = true := by
  simp only [isSimpleKey, Bool.and_eq_true, Bool.not_eq_true'] at simple
  unfold isKept
  split
  · rfl
  · have none : '\u0085' ∉ key.toList := fun mem =>
      absurd (List.any_eq_false.1 simple.1.2 _ mem) (by decide)
    simpa using none
  · rfl

/-- A key that stands on one line is one token, and its line goes on. -/
theorem skip_key (simple : isSimpleKey key.toList = true) (h : c.rest = writeKey key ++ rest) :
    c.skip (writeKey key).length =
      ⟨rest, c.index + (writeKey key).length, c.line, c.column + (writeKey key).length⟩ := by
  simp only [isSimpleKey, Bool.and_eq_true, Bool.not_eq_true'] at simple
  refine c.skip_printed h fun x mem => ?_
  obtain ⟨special, flat⟩ := printed_writeText x mem
  rw [simple.1.2] at flat
  refine ⟨?_, ?_⟩
  · rw [Bool.eq_false_iff]
    intro ends
    rcases flat ends with may | has
    · cases may
    · cases has
  · rintro rfl
    cases special

/-- The token that stands here may still be a key. -/
theorem lexValue_noted {d : Cursor}
    (opens : Opens c.column .blockMappingStart i o o' q) :
    (inBlock d false i o (noted true i c p) (p ++ [t])).lexValue =
      .ok (inBlock d.next false c.column o' [] (p ++ q ++ [.key, t, .value])) := by
  cases opens with
  | right less =>
    simp [lexValue, inBlock, noted, emitAt, openBlock, less, emitOver, emit, Cursor.skip]
    rw [show p.length + 1 + 1 - p.length = 2 by omega]
    rfl
  | same => simp [lexValue, inBlock, noted, emitAt, openBlock, emitOver, emit, Cursor.skip]

/-- A colon behind what may still be a key. -/
theorem lexNext_colon {d : Cursor} {x : Char}
    (opens : Opens c.column .blockMappingStart i o o' q)
    (h : d.rest = ':' :: x :: rest) (separator : isSeparator x = true) (line : d.line = c.line)
    (near : d.index - c.index ≤ longestKey) (le : c.column ≤ d.column) :
    (inBlock d false i o (noted true i c p) (p ++ [t])).lexNext =
      .ok (some (inBlock d.next false c.column o' []
        (p ++ q ++ [.key, t, .value]))) := by
  have solid : Solid d.rest := by
    rw [h]
    rintro x ⟨⟩
    decide
  have mark : d.atDocumentMark = false := d.atDocumentMark_eq_false (by
    rw [h]
    rintro x ⟨⟩
    decide)
  have fresh : ∀ key ∈ noted true i c p, PossibleKey.isStale key d = false := by
    intro key mem
    rw [PossibleKey.isStale, start_noted key mem, line]
    simpa using near
  have arrived : (inBlock d false i o (noted true i c p) (p ++ [t])).arrive =
      .ok (inBlock d false i o (noted true i c p) (p ++ [t])) := by
    have right : i ≤ d.column := Int.le_trans opens.le (Int.ofNat_le.2 le)
    rw [arrive, skipToToken_blanks (k := 0) _ rfl solid]
    exact (congrArg (· >>= _) (dropStaleKeys_fresh fresh)).trans
      (congrArg Except.ok (unwind_inBlock right))
  have second : d.peekAt 1 = x := d.peekAt_eq (w := [':']) h
  have sign : (inBlock d false i o (noted true i c p) (p ++ [t])).lexSign =
      (inBlock d false i o (noted true i c p) (p ++ [t])).lexValue := by
    simp [lexSign, inBlock, d.peek_eq h, second, separator]
  rw [lexNext_eq, arrived]
  change lexToken _ = _
  rw [lexToken_eq (d.atEnd_cons h) (by rw [inBlock, d.peek_eq h]; decide) mark, sign,
    lexValue_noted opens]
  rfl

/-- **A key on the line of its value** is told by the colon behind it. -/
theorem leads_simpleKey {x : Char} (simple : isSimpleKey key.toList = true)
    (short : (writeKey key).length ≤ longestKey)
    (opens : Opens c.column .blockMappingStart i o o' q)
    (h : c.rest = writeKey key ++ ':' :: x :: rest) (separator : isSeparator x = true) :
    ∃ d : Cursor, d.rest = x :: rest ∧ c.column ≤ d.column ∧
      Leads (inBlock c true i o [] p)
        (inBlock d false c.column o' [] (p ++ q ++
          [.key, .scalar key (fitsPlain key.toList), .value])) := by
  obtain ⟨m, b, none, token⟩ := lexNext_text (a := true) (o := o) (p := p)
    (isKept_simple simple) (Or.inr ⟨rfl, rfl⟩) (endsPlain_colon _ separator)
    (by rintro x ⟨⟩; decide) h opens.le
  obtain ⟨rfl, rfl⟩ : m = 0 ∧ b = false := by simpa using none
  obtain ⟨d, skipped⟩ : ∃ d, c.skip (writeKey key).length = d := ⟨_, rfl⟩
  change (inBlock c true i o [] p).lexNext = .ok (some (inBlock (c.skip (writeKey key).length)
    false i o (noted true i c p) (p ++ [.scalar key (fitsPlain key.toList)]))) at token
  have place := skip_key simple h
  rw [skipped] at token place
  have left : d.rest = ':' :: x :: rest := by rw [place]
  have colon := lexNext_colon (o := o) (p := p)
    (t := .scalar key (fitsPlain key.toList)) opens left separator (by rw [place])
    (by rw [place]; dsimp only; omega) (by rw [place]; dsimp only; omega)
  refine ⟨d.next, by rw [d.rest_next, left, List.tail_cons], ?_,
    Leads.trans (.of_lexNext token ?_) (.of_lexNext colon ?_)⟩
  · rw [d.next_eq left (by decide) (by decide), place]
    dsimp only
    omega
  · change d.rest.length < c.rest.length
    rw [left, h, List.length_append]
    have := List.length_pos_iff.2 (show writeKey key ≠ [] by
      obtain ⟨y, more, head, -⟩ := solid_writeText ⟨false, 0⟩ true 0 key
      rw [writeKey, head]
      exact List.cons_ne_nil _ _)
    omega
  · change d.next.rest.length < d.rest.length
    rw [d.rest_next, left]
    exact Nat.lt_succ_self _

end ResourceApi.Yaml.Lexer
