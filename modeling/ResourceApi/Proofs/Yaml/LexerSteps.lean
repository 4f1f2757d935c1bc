import Mathlib.Tactic.SplitIfs
import ResourceApi.Proofs.Yaml.PlainScalars
import ResourceApi.Proofs.Yaml.QuotedScalars
import ResourceApi.Yaml.Lexer

/-! # Steps of the lexer

Reading the tokens of a text to its end is a chain of steps, each of which takes a
character at least. Before each token the lexer skips what separates tokens, gives up
the tokens that cannot be keys any more and closes the blocks that the column of the
token ends; two places with the same token in reach after that are as good as one. -/

namespace ResourceApi.Yaml

/-- Where a token may start, if the text goes on. -/
def Solid (text : List Char) : Prop := ∀ x ∈ text.head?, x ≠ ' ' ∧ x ≠ '#' ∧ isBreak x = false

theorem Solid.append {x : Char} {more : List Char} (solid : Solid [x]) : Solid (x :: more) := by
  rintro y ⟨⟩
  exact solid x rfl

namespace Lexer

variable {l m n : Lexer} {ts p : List Token} {c : Cursor} {i j : Int} {o : List Int}
  {a : Bool} {keys : List PossibleKey} {rest : List Char} {k : Nat}

/-! ## Chains of steps -/

/-- Reading on from here, without a fault, gives these tokens in all. -/
inductive Finishes : Lexer → List Token → Prop where
  | ends {l : Lexer} : l.lexNext = .ok none → Finishes l l.allTokens
  | step {l m : Lexer} {ts : List Token} : l.lexNext = .ok (some m) →
      m.cursor.rest.length < l.cursor.rest.length → Finishes m ts → Finishes l ts

theorem Finishes.lexAll (h : Finishes l ts) {fuel : Nat} (enough : l.cursor.rest.length < fuel) :
    l.lexAll fuel = ts := by
  induction h generalizing fuel with
  | ends none =>
    obtain ⟨fuel, rfl⟩ := Nat.exists_eq_succ_of_ne_zero (Nat.ne_zero_of_lt enough)
    unfold Lexer.lexAll
    rw [none]
  | step next shorter _ ih =>
    obtain ⟨fuel, rfl⟩ := Nat.exists_eq_succ_of_ne_zero (Nat.ne_zero_of_lt enough)
    unfold Lexer.lexAll
    rw [next]
    exact ih (by omega)

/-- What is read on from the second place is also read on from the first. -/
def Leads (l m : Lexer) : Prop := ∀ ts, Finishes m ts → Finishes l ts

theorem Leads.refl (l : Lexer) : Leads l l := fun _ h => h

theorem Leads.trans (first : Leads l m) (second : Leads m n) : Leads l n :=
  fun ts h => first ts (second ts h)

theorem Leads.of_lexNext (next : l.lexNext = .ok (some m))
    (shorter : m.cursor.rest.length < l.cursor.rest.length) : Leads l m :=
  fun _ h => .step next shorter h

/-! ## Before a token -/

/-- Comes to the next token. -/
def arrive (l : Lexer) : Lex Lexer := do
  let l ← (skipToToken (l.cursor.rest.length + 1) l).dropStaleKeys
  pure (l.unwind l.cursor.column)

/-- Reads the token that the character here starts. -/
def lexSign (l : Lexer) : Lex Lexer :=
  let inBlock := l.depth == 0
  let endsWord := isSeparator (l.cursor.peekAt 1)
  match l.cursor.peek with
  | '[' => l.lexFlowStart .flowSequenceStart
  | '{' => l.lexFlowStart .flowMappingStart
  | ']' => l.lexFlowEnd .flowSequenceEnd
  | '}' => l.lexFlowEnd .flowMappingEnd
  | ',' => l.lexFlowEntry
  | ch =>
    if ch == '-' && endsWord then l.lexBlockEntry
    else if ch == '?' && (endsWord || !inBlock) then l.lexKey
    else if ch == ':' && (endsWord || !inBlock) then l.lexValue
    else if ch == '*' then l.lexKeyLike (lexNamed .reference)
    else if ch == '&' then l.lexKeyLike (lexNamed .anchor)
    else if ch == '!' then l.lexKeyLike lexTag
    else if ch == '|' && inBlock then l.lexBlock false
    else if ch == '>' && inBlock then l.lexBlock true
    else if ch == '\'' || ch == '"' then l.lexKeyLike lexQuoted
    else if l.startsPlain then l.lexPlainScalar
    else .error .malformed

/-- Reads the token that stands here; none at the end of the text. -/
def lexToken (l : Lexer) : Lex (Option Lexer) := do
  let c := l.cursor
  if c.atEnd then pure none
  else if c.column == 0 && c.peek == '%' then do
    let l ← l.lexRootMark
    let (t, c) ← lexDirective l.cursor
    pure (some { l.emit t with cursor := c })
  else if c.column == 0 && c.atMark "---" then
    return some ((← l.lexRootMark).emitOver 3 .documentStart)
  else if c.column == 0 && c.atMark "..." then
    return some ((← l.lexRootMark).emitOver 3 .documentEnd)
  else some <$> l.lexSign

theorem lexNext_eq (l : Lexer) : l.lexNext = l.arrive >>= lexToken := by
  unfold lexNext arrive
  cases (skipToToken (l.cursor.rest.length + 1) l).dropStaleKeys <;> rfl

theorem lexToken_eq (more : l.cursor.atEnd = false) (directive : l.cursor.peek ≠ '%')
    (mark : l.cursor.atDocumentMark = false) : l.lexToken = some <$> l.lexSign := by
  rw [Cursor.atDocumentMark, Bool.or_eq_false_iff] at mark
  simp [lexToken, more, directive, mark]

theorem Leads.of_arrive (same : l.arrive = m.arrive) (all : l.allTokens = m.allTokens)
    (le : m.cursor.rest.length ≤ l.cursor.rest.length) : Leads l m := by
  have next : l.lexNext = m.lexNext := by rw [lexNext_eq, same, ← lexNext_eq]
  intro ts h
  cases h with
  | ends none =>
    rw [← all]
    exact .ends (next.trans none)
  | step some shorter later => exact .step (next.trans some) (by omega) later

theorem skipToToken_blanks (fuel : Nat) (h : l.cursor.rest = List.replicate k ' ' ++ rest)
    (solid : Solid rest) : skipToToken (fuel + 1) l = { l with cursor := l.cursor.skip k } := by
  have blanks := l.cursor.skipBlanks_eq h fun blank => (solid _ blank).1 rfl
  have left : (l.cursor.skip k).rest = rest := by rw [Cursor.skip_replicate h]
  have comment := (l.cursor.skip k).skipComment_eq (by
    rw [left]
    exact fun number => (solid _ number).2.1 rfl)
  have none := (l.cursor.skip k).lineBreak?_eq_none (by
    rw [left]
    exact fun x mem => (solid x mem).2.2)
  rw [skipToToken]
  simp only [blanks, comment, none]

theorem skipToToken_newLine (fuel : Nat) (h : l.cursor.rest = newLine k ++ rest)
    (solid : Solid rest) (block : l.depth = 0) :
    skipToToken (fuel + 2) l =
      { l with cursor := l.cursor.skip (k + 1), keyAllowed := true } := by
  rw [newLine, List.cons_append] at h
  have blanks : l.cursor.skipBlanks = l.cursor :=
    l.cursor.skipBlanks_eq (k := 0) h (by rintro ⟨⟩)
  have comment := l.cursor.skipComment_eq (by rw [h]; rintro ⟨⟩)
  have feed := l.cursor.lineBreak?_lineFeed h
  rw [skipToToken]
  simp only [blanks, comment, feed, block, beq_self_eq_true, Bool.or_true]
  rw [skipToToken_blanks fuel (k := k) (by rw [Cursor.rest_next, h, List.tail_cons]) solid]
  rfl

theorem closeBlocks_le {column : Int} (le : i ≤ column) :
    closeBlocks column i o = (0, i, o) := by
  cases o with
  | nil => rfl
  | cons j o => rw [closeBlocks, if_neg (by omega)]

/-! ## Places outside of flow collections -/

/-- A place outside of flow collections, with the tokens before it in order. -/
def inBlock (c : Cursor) (a : Bool) (indent : Int) (o : List Int)
    (keys : List PossibleKey) (p : List Token) : Lexer :=
  ⟨c, 0, indent, o, a, keys, p.reverse, p.length⟩

/-- Tokens that give way to what follows: nothing is lost if they are no keys. -/
def Spare (keys : List PossibleKey) : Prop := ∀ key ∈ keys, key.depth = 0 ∧ key.required = false

theorem allTokens_inBlock (spare : Spare keys) :
    (inBlock c a i o keys p).allTokens =
      p ++ List.replicate (closeBlocks (-1) i o).1 .blockEnd ++ [.streamEnd] := by
  have none : keys.any (fun key => key.depth == 0 && key.required) = false := by
    rw [List.any_eq_false]
    intro key mem
    simp [(spare key mem).2]
  simp [allTokens, inBlock, unwind, dropKey, none, List.reverse_append]

/-- Stale tokens that need not be keys are given up. -/
theorem dropStaleKeys_eq
    (free : ∀ key ∈ l.keys, PossibleKey.isStale key l.cursor = true → key.required = false) :
    l.dropStaleKeys =
      .ok { l with keys := l.keys.filter fun key => !PossibleKey.isStale key l.cursor } := by
  have none : l.keys.any (fun key => PossibleKey.isStale key l.cursor && key.required) = false := by
    rw [List.any_eq_false]
    intro key mem
    simpa using free key mem
  rw [dropStaleKeys, none]
  rfl

theorem dropStaleKeys_inBlock (spare : Spare keys) (stale : ∀ key ∈ keys, key.start.line ≠ c.line) :
    (inBlock c a i o keys p).dropStaleKeys =
      .ok (inBlock c a i o [] p) := by
  have left : keys.filter (fun key => !PossibleKey.isStale key c) = [] := by
    rw [List.filter_eq_nil_iff]
    intro key mem
    simp [PossibleKey.isStale, stale key mem]
  rw [dropStaleKeys_eq fun key mem _ => (spare key mem).2]
  simp only [inBlock, left]

theorem dropStaleKeys_fresh (fresh : ∀ key ∈ keys, PossibleKey.isStale key c = false) :
    (inBlock c a i o keys p).dropStaleKeys =
      .ok (inBlock c a i o keys p) := by
  have all : keys.filter (fun key => !PossibleKey.isStale key c) = keys := by
    rw [List.filter_eq_self]
    intro key mem
    simp [fresh key mem]
  rw [dropStaleKeys_eq fun key mem stale => by
    rw [inBlock, fresh key mem] at stale
    cases stale]
  simp only [inBlock, all]

/-- Tokens at other depths stay possible keys. -/
theorem dropKey_eq_self (others : ∀ key ∈ l.keys, key.depth ≠ l.depth) : l.dropKey = .ok l := by
  have none : l.keys.any (fun key => key.depth == l.depth && key.required) = false := by
    rw [List.any_eq_false]
    intro key mem
    simp [others key mem]
  have all : l.keys.filter (fun key => key.depth != l.depth) = l.keys := by
    rw [List.filter_eq_self]
    intro key mem
    simp [others key mem]
  rw [dropKey, none, all]
  rfl

theorem unwind_inBlock {column : Int} (le : i ≤ column) :
    (inBlock c a i o keys p).unwind column =
      inBlock c a i o keys p := by
  simp [unwind, inBlock, closeBlocks_le le]

/-- Where a token starts already, and it ends no block. -/
theorem arrive_inBlock (solid : Solid c.rest) (spare : Spare keys)
    (stale : ∀ key ∈ keys, key.start.line ≠ c.line) :
    (inBlock c a i o keys p).arrive =
      .ok ((inBlock c a i o [] p).unwind c.column) := by
  rw [arrive, skipToToken_blanks (k := 0) _ rfl solid]
  exact congrArg (· >>= _) (dropStaleKeys_inBlock spare stale)

theorem spare_nil : Spare [] := fun _ mem => absurd mem List.not_mem_nil

theorem lexNext_inBlock (solid : Solid c.rest) (le : i ≤ c.column) :
    (inBlock c a i o [] p).lexNext =
      (inBlock c a i o [] p).lexToken := by
  rw [lexNext_eq, arrive_inBlock solid spare_nil (by simp), unwind_inBlock le]
  rfl

/-- Tokens on an earlier line are no keys. -/
theorem leads_stale (solid : Solid c.rest) (spare : Spare keys)
    (stale : ∀ key ∈ keys, key.start.line ≠ c.line) :
    Leads (inBlock c a i o keys p) (inBlock c a i o [] p) := by
  refine .of_arrive ?_ ?_ (Nat.le_refl _)
  · rw [arrive_inBlock solid spare stale, arrive_inBlock solid spare_nil (by simp)]
  · rw [allTokens_inBlock spare, allTokens_inBlock spare_nil]

theorem leads_blanks (h : c.rest = List.replicate k ' ' ++ rest) (solid : Solid rest) :
    Leads (inBlock c a i o [] p)
      (inBlock (c.skip k) a i o [] p) := by
  have left : (c.skip k).rest = rest := by rw [Cursor.skip_replicate h]
  have arrived : (inBlock c a i o [] p).arrive =
      .ok ((inBlock (c.skip k) a i o [] p).unwind (c.skip k).column) := by
    rw [arrive, skipToToken_blanks (l := inBlock c _ _ _ _ _) _ h solid]
    exact congrArg (· >>= _) (dropStaleKeys_inBlock spare_nil (by simp))
  refine .of_arrive (arrived.trans (arrive_inBlock (by rwa [left]) spare_nil (by simp)).symm)
    (by rw [allTokens_inBlock spare_nil, allTokens_inBlock spare_nil]) ?_
  change (c.skip k).rest.length ≤ c.rest.length
  rw [left, h, List.length_append]
  omega

/-- A line ends, and a key may stand at the start of the next one. -/
theorem leads_newLine (h : c.rest = newLine k ++ rest) (solid : Solid rest) (spare : Spare keys)
    (before : ∀ key ∈ keys, key.start.line ≤ c.line) :
    Leads (inBlock c a i o keys p)
      (inBlock (c.skip (k + 1)) true i o [] p) := by
  have skipped := Cursor.skip_newLine h
  have left : (c.skip (k + 1)).rest = rest := by rw [skipped]
  have stale : ∀ key ∈ keys, key.start.line ≠ (c.skip (k + 1)).line := by
    intro key mem
    have := before key mem
    rw [skipped]
    dsimp only
    omega
  have arrived : (inBlock c a i o keys p).arrive =
      .ok ((inBlock (c.skip (k + 1)) true i o [] p).unwind (c.skip (k + 1)).column) := by
    obtain ⟨fuel, long⟩ : ∃ fuel, c.rest.length = fuel + 1 :=
      ⟨(List.replicate k ' ' ++ rest).length, by rw [h]; rfl⟩
    rw [arrive]
    change (skipToToken (c.rest.length + 1) _).dropStaleKeys >>= _ = _
    rw [long, skipToToken_newLine (l := inBlock c _ _ _ _ _) fuel h solid rfl]
    exact congrArg (· >>= _) (dropStaleKeys_inBlock spare stale)
  refine .of_arrive (arrived.trans (arrive_inBlock (by rwa [left]) spare_nil (by simp)).symm)
    (by rw [allTokens_inBlock spare, allTokens_inBlock spare_nil]) ?_
  change (c.skip (k + 1)).rest.length ≤ c.rest.length
  rw [left, h, List.length_append]
  omega

/-- A block is closed by a token left of it. -/
theorem leads_close (solid : Solid c.rest) (left : (c.column : Int) < j) :
    Leads (inBlock c a j (i :: o) [] p)
      (inBlock c a i o [] (p ++ [.blockEnd])) := by
  refine .of_arrive ?_ ?_ (Nat.le_refl _)
  · rw [arrive_inBlock solid spare_nil (by simp), arrive_inBlock solid spare_nil (by simp)]
    simp [unwind, inBlock, closeBlocks, left, List.replicate_succ']
    omega
  · rw [allTokens_inBlock spare_nil, allTokens_inBlock spare_nil, closeBlocks, if_pos (by omega)]
    simp [List.replicate_succ]

/-! ## Marks of blocks -/

theorem openHere_right (t : Token) (right : i < c.column) :
    (inBlock c true i o [] p).openHere t =
      .ok (inBlock c true c.column (i :: o) [] (p ++ [t])) := by
  simp [openHere, openBlock, inBlock, right, emit]

theorem openHere_same (t : Token) (same : i = c.column) :
    (inBlock c true i o [] p).openHere t = .ok (inBlock c true i o [] p) := by
  simp [openHere, openBlock, inBlock, same]

theorem emit_inBlock (t : Token) (d : Cursor) (keyAllowed' : Bool) :
    { (inBlock c a i o keys p).emit t with
      cursor := d, keyAllowed := keyAllowed' } =
      inBlock d keyAllowed' i o keys (p ++ [t]) := by
  simp [emit, inBlock]

theorem emitOver_inBlock (n : Nat) (t : Token) :
    (inBlock c a i o keys p).emitOver n t =
      inBlock (c.skip n) a i o keys (p ++ [t]) := by
  simp [emitOver, emit, inBlock]

/-- A sign that is a word of its own marks no document. -/
theorem atDocumentMark_sign {x y : Char} (h : c.rest = x :: y :: rest)
    (separator : isSeparator y = true) : c.atDocumentMark = false := by
  have other {z : Char} (solid : isSeparator z = false) : z ≠ y := by
    rintro rfl
    rw [separator] at solid
    cases solid
  rw [Cursor.atDocumentMark, Bool.or_eq_false_iff]
  constructor <;> apply Cursor.atMark_eq_false <;> rw [h]
  · simp [List.isPrefixOf, other (z := '-') (by decide)]
  · simp [List.isPrefixOf, other (z := '.') (by decide)]

variable {i' : Int} {o' : List Int} {p' : List Token} {x : Char}

/-- A sign that is a word of its own, and a blank before what it announces. -/
theorem leads_sign {sign : Char} {ts : List Token} (le : i ≤ c.column)
    (h : c.rest = sign :: ' ' :: rest) (solid : Solid (sign :: rest)) (directive : sign ≠ '%')
    (solid' : Solid rest)
    (read : (inBlock c true i o [] p).lexSign = .ok (inBlock c.next true i' o' [] ts)) :
    Leads (inBlock c true i o [] p) (inBlock (c.skip 2) true i' o' [] ts) := by
  have here : Solid c.rest := by
    rw [h]
    rintro x ⟨⟩
    exact solid sign rfl
  have left : c.next.rest = ' ' :: rest := by rw [c.rest_next, h, List.tail_cons]
  have token : (inBlock c true i o [] p).lexToken =
      .ok (some (inBlock c.next true i' o' [] ts)) := by
    rw [lexToken_eq (c.atEnd_cons h) (by rwa [inBlock, c.peek_eq h])
      (atDocumentMark_sign h (by decide)), read]
    rfl
  refine Leads.trans (.of_lexNext ((lexNext_inBlock here le).trans token) ?_)
    (leads_blanks (k := 1) left solid')
  change c.next.rest.length < c.rest.length
  rw [left, h]
  exact Nat.lt_succ_self _

section Signs

variable (h : c.rest = x :: ' ' :: rest)
include h

theorem lexSign_dash (sign : x = '-')
    (opens : (inBlock c true i o [] p).openHere .blockSequenceStart =
      .ok (inBlock c true i' o' [] p')) :
    (inBlock c true i o [] p).lexSign =
      .ok (inBlock c.next true i' o' [] (p' ++ [.blockEntry])) := by
  subst sign
  have second : c.peekAt 1 = ' ' := c.peekAt_eq (w := ['-']) h
  have entry : (inBlock c true i o [] p).lexSign =
      (inBlock c true i o [] p).lexBlockEntry := by
    simp [lexSign, inBlock, c.peek_eq h, second, isSeparator]
  rw [entry, lexBlockEntry, opens]
  exact congrArg Except.ok (emitOver_inBlock 1 .blockEntry)

theorem lexSign_question (sign : x = '?')
    (opens : (inBlock c true i o [] p).openHere .blockMappingStart =
      .ok (inBlock c true i' o' [] p')) :
    (inBlock c true i o [] p).lexSign =
      .ok (inBlock c.next true i' o' [] (p' ++ [.key])) := by
  subst sign
  have second : c.peekAt 1 = ' ' := c.peekAt_eq (w := ['?']) h
  have key : (inBlock c true i o [] p).lexSign =
      (inBlock c true i o [] p).lexKey := by
    simp [lexSign, inBlock, c.peek_eq h, second, isSeparator]
  rw [key, lexKey, opens]
  exact congrArg Except.ok (emitOver_inBlock 1 .key)

/-- A colon with no key before it on its line. -/
theorem lexSign_colon (sign : x = ':')
    (opens : (inBlock c true i o [] p).openHere .blockMappingStart =
      .ok (inBlock c true i' o' [] p')) :
    (inBlock c true i o [] p).lexSign =
      .ok (inBlock c.next true i' o' [] (p' ++ [.value])) := by
  subst sign
  have second : c.peekAt 1 = ' ' := c.peekAt_eq (w := [':']) h
  have value : (inBlock c true i o [] p).lexSign =
      (inBlock c true i o [] p).lexValue := by
    simp [lexSign, inBlock, c.peek_eq h, second, isSeparator]
  have none : (inBlock c true i o [] p).keys.find?
      (·.depth == (inBlock c true i o [] p).depth) = none := rfl
  rw [value, lexValue, none, opens]
  exact congrArg Except.ok (emitOver_inBlock 1 .value)

end Signs

end Lexer
end ResourceApi.Yaml
