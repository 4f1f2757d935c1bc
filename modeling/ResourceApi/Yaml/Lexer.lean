import ResourceApi.Yaml.ScalarLexer

/-! # From text to tokens

The tokens of a YAML text. Two things are known only later than they are read: that
a token starts a block, by its column, and that a token was a key, by the colon
behind it. So the columns of the open blocks are kept, and for each depth of flow
collections the last token that may still turn out to be a key; a key stands on one
line and within 1024 characters.

A fault of the text shows in the place of the first token that cannot be told without
reading on to the fault. -/

namespace ResourceApi.Yaml

/-- A token that may turn out to be a key. -/
structure PossibleKey where
  /-- The depth of flow collections it stands at. -/
  depth : Nat
  /-- How many tokens stand before it. -/
  position : Nat
  /-- Nothing but a key can stand there. -/
  required : Bool
  start : Cursor

structure Lexer where
  cursor : Cursor
  /-- The depth of flow collections. -/
  depth : Nat
  /-- The column of the innermost open block, `-1` at the root. -/
  indent : Int
  /-- The columns of the blocks around it. -/
  outer : List Int
  keyAllowed : Bool
  keys : List PossibleKey
  /-- The tokens so far, last first, and their number. -/
  tokens : List Token
  count : Nat

namespace Lexer

def start (cs : List Char) : Lexer := ⟨.start cs, 0, -1, [], true, [], [], 0⟩

def emit (l : Lexer) (t : Token) : Lexer :=
  { l with tokens := t :: l.tokens, count := l.count + 1 }

/-- Puts a token behind the first `position` ones. -/
def emitAt (l : Lexer) (position : Nat) (t : Token) : Lexer :=
  let later := l.count - position
  { l with tokens := l.tokens.take later ++ t :: l.tokens.drop later, count := l.count + 1 }

/-- Emits a token of `n` characters. -/
def emitOver (l : Lexer) (n : Nat) (t : Token) : Lexer :=
  { l.emit t with cursor := l.cursor.skip n }

/-! ## Keys -/

/-- The length past which a token cannot be a key. -/
def longestKey : Nat := 1024

def PossibleKey.isStale (k : PossibleKey) (c : Cursor) : Bool :=
  k.start.line != c.line || longestKey < c.index - k.start.index

/-- Gives up the tokens that cannot be keys any more. -/
def dropStaleKeys (l : Lexer) : Lex Lexer :=
  if l.keys.any fun k => PossibleKey.isStale k l.cursor && k.required then .error .malformed
  else .ok { l with keys := l.keys.filter fun k => !PossibleKey.isStale k l.cursor }

/-- Gives up the possible key at this depth. -/
def dropKey (l : Lexer) : Lex Lexer :=
  if l.keys.any fun k => k.depth == l.depth && k.required then .error .malformed
  else .ok { l with keys := l.keys.filter fun k => k.depth != l.depth }

/-- Notes that the next token may be a key. -/
def noteKey (l : Lexer) : Lex Lexer :=
  if l.keyAllowed then do
    let required := l.depth == 0 && l.indent == (l.cursor.column : Int)
    let l ← l.dropKey
    pure { l with keys := ⟨l.depth, l.count, required, l.cursor⟩ :: l.keys }
  else .ok l

/-! ## Blocks -/

/-- Closes the blocks right of `column`: how many, and what is left of them. -/
def closeBlocks (column : Int) : Int → List Int → Nat × Int × List Int
  | indent, [] => (0, indent, [])
  | indent, i :: rest =>
    if column < indent then
      let (n, indent, outer) := closeBlocks column i rest
      (n + 1, indent, outer)
    else (0, indent, i :: rest)

def unwind (l : Lexer) (column : Int) : Lexer :=
  if l.depth != 0 then l
  else
    let (n, indent, outer) := closeBlocks column l.indent l.outer
    { l with
      indent, outer
      tokens := List.replicate n .blockEnd ++ l.tokens
      count := l.count + n }

/-- Opens a block at `column`, unless one is open there. -/
def openBlock (l : Lexer) (column : Nat) : Option Lexer :=
  if l.indent < column then some { l with indent := column, outer := l.indent :: l.outer }
  else none

/-- Opens a block here, where one may start. -/
def openHere (l : Lexer) (t : Token) : Lex Lexer :=
  if l.depth != 0 then .ok l
  else if !l.keyAllowed then .error .malformed
  else match l.openBlock l.cursor.column with
    | some l => .ok (l.emit t)
    | none => .ok l

/-! ## The next token -/

/-- Skips blanks, comments and breaks; a key may stand on a new line outside of flow
collections. -/
def skipToToken : Nat → Lexer → Lexer
  | 0, l => l
  | fuel + 1, l =>
    let c := l.cursor.skipBlanks.skipComment
    match c.lineBreak? with
    | some (_, c) =>
      skipToToken fuel { l with cursor := c, keyAllowed := l.keyAllowed || l.depth == 0 }
    | none => { l with cursor := c }

/-- A token behind which no block goes on. -/
def lexRootMark (l : Lexer) : Lex Lexer := do
  let l ← (l.unwind (-1)).dropKey
  pure { l with keyAllowed := false }

def lexFlowStart (l : Lexer) (t : Token) : Lex Lexer := do
  let l ← l.noteKey
  pure { l.emitOver 1 t with depth := l.depth + 1, keyAllowed := true }

def lexFlowEnd (l : Lexer) (t : Token) : Lex Lexer :=
  if l.depth == 0 then .error .malformed
  else do
    let l ← l.dropKey
    pure { l.emitOver 1 t with depth := l.depth - 1, keyAllowed := false }

def lexFlowEntry (l : Lexer) : Lex Lexer := do
  let l ← l.dropKey
  pure { l.emitOver 1 .flowEntry with keyAllowed := true }

def lexBlockEntry (l : Lexer) : Lex Lexer := do
  let l ← l.openHere .blockSequenceStart
  let l ← dropKey { l with keyAllowed := true }
  pure (l.emitOver 1 .blockEntry)

def lexKey (l : Lexer) : Lex Lexer := do
  let l ← l.openHere .blockMappingStart
  let l ← dropKey { l with keyAllowed := l.depth == 0 }
  pure (l.emitOver 1 .key)

/-- A colon. If a token before it may be a key, it is one, and it starts a block if none is open
in its column. -/
def lexValue (l : Lexer) : Lex Lexer :=
  match l.keys.find? (·.depth == l.depth) with
  | some k =>
    let l := { l with keys := l.keys.filter fun k => k.depth != l.depth, keyAllowed := false }
    let l := l.emitAt k.position .key
    let l := if l.depth != 0 then l
      else match l.openBlock k.start.column with
        | some l => l.emitAt k.position .blockMappingStart
        | none => l
    .ok (l.emitOver 1 .value)
  | none => do
    let l ← l.openHere .blockMappingStart
    let l ← dropKey { l with keyAllowed := l.depth == 0 }
    pure (l.emitOver 1 .value)

/-- A token that may be a key, read by `lex`. -/
def lexKeyLike (l : Lexer) (lex : Cursor → Lex (Token × Cursor)) : Lex Lexer := do
  let l ← l.noteKey
  let (t, c) ← lex l.cursor
  pure { l.emit t with cursor := c, keyAllowed := false }

def lexNamed (token : String → Token) (c : Cursor) : Lex (Token × Cursor) := do
  let (name, c) ← lexName c
  pure (token name, c)

def lexBlock (l : Lexer) (folded : Bool) : Lex Lexer := do
  let l ← dropKey { l with keyAllowed := true }
  let (t, c) ← lexBlockScalar folded l.indent l.cursor
  pure { l.emit t with cursor := c }

def lexPlainScalar (l : Lexer) : Lex Lexer := do
  let l ← l.noteKey
  let s := lexPlain (l.depth != 0) (l.indent + 1).toNat l.cursor
  pure { l.emit (.scalar (String.ofList s.text) true) with
         cursor := s.cursor, keyAllowed := s.brokeLine }

/-- Whether a plain scalar may start here. -/
def startsPlain (l : Lexer) : Bool :=
  let ch := l.cursor.peek
  if "-?:,[]\x7b\x7d#&*!|>'\"%@`".toList.contains ch then
    !isSeparator (l.cursor.peekAt 1) && (ch == '-' || (l.depth == 0 && (ch == '?' || ch == ':')))
  else !isSeparator ch

/-- Reads one token; none behind the last one. -/
def lexNext (l : Lexer) : Lex (Option Lexer) := do
  let l ← (skipToToken (l.cursor.rest.length + 1) l).dropStaleKeys
  let l := l.unwind l.cursor.column
  let c := l.cursor
  let inBlock := l.depth == 0
  let endsWord := isSeparator (c.peekAt 1)
  if c.atEnd then pure none
  else if c.column == 0 && c.peek == '%' then do
    let l ← l.lexRootMark
    let (t, c) ← lexDirective l.cursor
    pure (some { l.emit t with cursor := c })
  else if c.column == 0 && c.atMark "---" then
    return some ((← l.lexRootMark).emitOver 3 .documentStart)
  else if c.column == 0 && c.atMark "..." then
    return some ((← l.lexRootMark).emitOver 3 .documentEnd)
  else some <$> match c.peek with
    | '[' => l.lexFlowStart .flowSequenceStart
    | '{' => l.lexFlowStart .flowMappingStart
    | ']' => l.lexFlowEnd .flowSequenceEnd
    | '}' => l.lexFlowEnd .flowMappingEnd
    | ',' => l.lexFlowEntry
    | ch =>
      if ch == '-' && endsWord then l.lexBlockEntry
      else if ch == '?' && (endsWord || !inBlock) then l.lexKey
      else if ch == ':' && (endsWord || !inBlock) then l.lexValue
      else if ch == '*' then l.lexKeyLike (lexNamed .reference)
      else if ch == '&' then l.lexKeyLike (lexNamed .anchor)
      else if ch == '!' then l.lexKeyLike lexTag
      else if ch == '|' && inBlock then l.lexBlock false
      else if ch == '>' && inBlock then l.lexBlock true
      else if ch == '\'' || ch == '"' then l.lexKeyLike lexQuoted
      else if l.startsPlain then l.lexPlainScalar
      else .error .malformed

/-- The tokens before a fault that comes next. A token that may be a key is not one of them, as
a token may still come before it. -/
def tokensBefore (l : Lexer) (fault : ReadFault) : List Token :=
  let live := l.keys.filter fun k => !PossibleKey.isStale k l.cursor
  let settled := live.foldl (fun n k => min n k.position) l.count
  (.broken fault :: l.tokens.drop (l.count - settled)).reverse

/-- The tokens with the end of the text behind them. -/
def allTokens (l : Lexer) : List Token :=
  match (l.unwind (-1)).dropKey with
  | .ok l => (.streamEnd :: l.tokens).reverse
  | .error fault => l.tokensBefore fault

/-- Reads on to the end or to a fault. Every token but the last takes a character of the text. -/
def lexAll : Nat → Lexer → List Token
  | 0, l => l.tokensBefore .malformed
  | fuel + 1, l =>
    match l.lexNext with
    | .ok (some l) => lexAll fuel l
    | .ok none => l.allTokens
    | .error fault => l.tokensBefore fault

end Lexer

/-- Characters that a YAML text may hold. -/
def isReadable (c : Char) : Bool :=
  let n := c.toNat
  n == 9 || n == 10 || n == 13 || (0x20 ≤ n && n ≤ 0x7e) || n == 0x85 ||
    (0xa0 ≤ n && n ≤ 0xd7ff) || (0xe000 ≤ n && n ≤ 0xfffd) || 0x10000 ≤ n

/-- The tokens of a text. A byte order mark may stand at its start. -/
def tokens (cs : List Char) : List Token :=
  if cs.all isReadable then
    let l := Lexer.start cs
    let l := if l.cursor.peek == '\ufeff' then { l with cursor := l.cursor.next } else l
    l.lexAll (cs.length + 2)
  else [.broken .malformed]

end ResourceApi.Yaml
