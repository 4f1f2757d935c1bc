import ResourceApi.Yaml.Lexeme

/-! # Scalars of a YAML text

How the text of a scalar is read: between quotes, plain, or as a block of lines.
Where a scalar goes on over several lines, one break reads as a blank, and of more
breaks all but the first are kept. -/

namespace ResourceApi.Yaml

open Numeral (isDigit)

/-! ## Quoted scalars -/

/-- The character that a letter behind a backslash stands for. -/
def unescape? : Char → Option Char
  | '0' => some '\x00'
  | 'a' => some '\x07'
  | 'b' => some '\x08'
  | 't' => some '\t'
  | '\t' => some '\t'
  | 'n' => some '\n'
  | 'v' => some '\x0b'
  | 'f' => some '\x0c'
  | 'r' => some '\r'
  | 'e' => some '\x1b'
  | ' ' => some ' '
  | '"' => some '"'
  | '\\' => some '\\'
  | '/' => some '/'
  | 'N' => some '\u0085'
  | '_' => some '\u00a0'
  | 'L' => some '\u2028'
  | 'P' => some '\u2029'
  | _ => none

/-- The number of hexadecimal digits that follow a letter behind a backslash. -/
def escapeWidth? : Char → Option Nat
  | 'x' => some 2
  | 'u' => some 4
  | 'U' => some 8
  | _ => none

/-- The character of a code point; half a surrogate pair is no character and is replaced. -/
def charOf (n : Nat) : Lex Char :=
  if 0x80000000 ≤ n then .error .oversize
  else if 0x110000 ≤ n then .error .badCodePoint
  else if 0xd800 ≤ n && n < 0xe000 then .ok '\ufffd'
  else .ok (Char.ofNat n)

/-- The breaks that follow a break in a quoted scalar. -/
def lexQuotedBreaks : Nat → Cursor → Lex (List Char × Cursor)
  | 0, c => .ok ([], c)
  | fuel + 1, c => do
    require (!c.atDocumentMark)
    let c := c.skipWhile fun ch => ch == ' ' || ch == '\t'
    match c.lineBreak? with
    | none => .ok ([], c)
    | some (b, c) =>
      let (more, c) ← lexQuotedBreaks fuel c
      pure (b :: more, c)

/-- Blanks in a quoted scalar; around breaks they are lost. -/
def lexQuotedBlanks (c : Cursor) : Lex (List Char × Cursor) := do
  let (blanks, c) := c.takeWhile fun ch => ch == ' ' || ch == '\t'
  require (!c.atEnd)
  match c.lineBreak? with
  | none => pure (blanks, c)
  | some (b, c) =>
    let (breaks, c) ← lexQuotedBreaks (c.rest.length + 1) c
    let first := if b != '\n' then [b] else if breaks.isEmpty then [' '] else []
    pure (first ++ breaks, c)

/-- What a backslash between double quotes stands for. -/
def lexEscape (c : Cursor) : Lex (List Char × Cursor) :=
  let letter := c.peekAt 1
  match unescape? letter, escapeWidth? letter with
  | some ch, _ => .ok ([ch], c.skip 2)
  | none, some width =>
    let digits := (c.rest.drop 2).take width
    match if digits.length == width then hexValue? digits else none with
    | none => .error .malformed
    | some n => do
      let ch ← charOf n
      pure ([ch], c.skip (2 + width))
  | none, none =>
    match c.next.lineBreak? with
    | none => .error .malformed
    | some (_, c) => lexQuotedBreaks (c.rest.length + 1) c

/-- The inside of a quoted scalar up to the closing quote. -/
def lexQuotedText (quote : Char) : Nat → Cursor → Lex (List Char × Cursor)
  | 0, _ => .error .malformed
  | fuel + 1, c =>
    let ch := c.peek
    if c.atEnd then .error .malformed
    else if ch == '\'' && quote == '\'' && c.peekAt 1 == '\'' then do
      let (more, d) ← lexQuotedText quote fuel (c.skip 2)
      pure ('\'' :: more, d)
    else if ch == quote then .ok ([], c.next)
    else if ch == '\\' && quote == '"' then do
      let (cs, c) ← lexEscape c
      let (more, c) ← lexQuotedText quote fuel c
      pure (cs ++ more, c)
    else if isSeparator ch then do
      let (cs, c) ← lexQuotedBlanks c
      let (more, c) ← lexQuotedText quote fuel c
      pure (cs ++ more, c)
    else do
      let (more, d) ← lexQuotedText quote fuel c.next
      pure (ch :: more, d)

/-- A scalar in the quotes that stand here. -/
def lexQuoted (c : Cursor) : Lex (Token × Cursor) := do
  let (cs, d) ← lexQuotedText c.peek (c.rest.length + 1) c.next
  pure (.scalar (String.ofList cs) false, d)

/-! ## Plain scalars -/

def flowIndicators : List Char := ",[]\x7b\x7d".toList

/-- The characters of a plain scalar up to a blank or an indicator. -/
def plainRun (inFlow : Bool) : List Char → List Char
  | [] => []
  | c :: rest =>
    let next := rest.head?.getD '\x00'
    let ends := isSeparator c ||
      (c == ':' && (isSeparator next || (inFlow && flowIndicators.contains next))) ||
      (inFlow && (c == '?' || flowIndicators.contains c))
    if ends then [] else c :: plainRun inFlow rest

/-- What separates two parts of a plain scalar: the characters it reads as, none if the scalar
ends here, and whether a line ended. -/
structure Gap where
  text : List Char
  brokeLine : Bool
  cursor : Cursor

/-- The breaks that follow a break in a plain scalar; none if a document mark ends it. -/
def plainBreaks : Nat → Cursor → Option (List Char) × Cursor
  | 0, c => (some [], c)
  | fuel + 1, c =>
    let c := c.skipBlanks
    match c.lineBreak? with
    | none => (some [], c)
    | some (b, c) =>
      if c.atDocumentMark then (none, c)
      else
        let (more, c) := plainBreaks fuel c
        (more.map (b :: ·), c)

def plainGap (c : Cursor) : Gap :=
  let (blanks, c) := c.takeWhile (· == ' ')
  match c.lineBreak? with
  | none => ⟨blanks, false, c⟩
  | some (b, c) =>
    if c.atDocumentMark then ⟨[], true, c⟩
    else match plainBreaks (c.rest.length + 1) c with
      | (none, c) => ⟨[], true, c⟩
      | (some breaks, c) =>
        let first := if b != '\n' then [b] else if breaks.isEmpty then [' '] else []
        ⟨first ++ breaks, true, c⟩

/-- A plain scalar as far as it is read. -/
structure PlainScalar where
  text : List Char
  /-- Whether the last line of the scalar has ended. -/
  brokeLine : Bool
  cursor : Cursor

/-- The parts of a plain scalar behind the characters `gap`. Outside of flow collections its
lines are indented by `indent` at least. -/
def lexPlainParts (inFlow : Bool) (indent : Nat) : Nat → Gap → PlainScalar
  | 0, gap => ⟨[], gap.brokeLine, gap.cursor⟩
  | fuel + 1, gap =>
    let c := gap.cursor
    let run := if c.peek == '#' then [] else plainRun inFlow c.rest
    if run.isEmpty then ⟨[], gap.brokeLine, c⟩
    else
      let after := plainGap (c.skip run.length)
      let d := after.cursor
      if after.text.isEmpty || d.peek == '#' || (!inFlow && d.column < indent) then
        ⟨gap.text ++ run, after.brokeLine, d⟩
      else
        let more := lexPlainParts inFlow indent fuel after
        { more with text := gap.text ++ run ++ more.text }

/-- A plain scalar that starts here. -/
def lexPlain (inFlow : Bool) (indent : Nat) (c : Cursor) : PlainScalar :=
  lexPlainParts inFlow indent (c.rest.length + 1) ⟨[], false, c⟩

/-! ## Block scalars -/

/-- What becomes of the breaks at the end of a block scalar. -/
inductive Chomping where
  | strip
  | clip
  | keep
  deriving DecidableEq

def chompingOf? : Char → Option Chomping
  | '+' => some .keep
  | '-' => some .strip
  | _ => none

/-- A digit that gives an indentation, which is not zero. -/
def lexIncrement (c : Cursor) : Lex (Option Nat × Cursor) :=
  if isDigit c.peek then
    if c.peek == '0' then .error .malformed else .ok (some (c.peek.toNat - 48), c.next)
  else .ok (none, c)

/-- The chomping and the indentation in a header, in either order. -/
def lexHeader (c : Cursor) : Lex ((Chomping × Option Nat) × Cursor) := do
  let ((chomping, increment), c) ←
    match chompingOf? c.peek with
    | some chomping => do
      let (increment, c) ← lexIncrement c.next
      pure ((chomping, increment), c)
    | none => do
      let (increment, c) ← lexIncrement c
      match increment, chompingOf? c.peek with
      | some _, some chomping => pure ((chomping, increment), c.next)
      | _, _ => pure ((Chomping.clip, increment), c)
  require (endsToken c.peek)
  pure ((chomping, increment), c)

/-- Blank lines before the first line that is not, and the widest indentation seen. -/
def leadingLines : Nat → Nat → Cursor → List Char × Nat × Cursor
  | 0, widest, c => ([], widest, c)
  | fuel + 1, widest, c =>
    if c.peek == ' ' then leadingLines fuel (max widest c.next.column) c.next
    else match c.lineBreak? with
      | none => ([], widest, c)
      | some (b, c) =>
        let (more, widest, c) := leadingLines fuel widest c
        (b :: more, widest, c)

/-- Blanks up to the column `indent`. -/
def skipIndent (indent : Nat) (c : Cursor) : Cursor :=
  c.skip ((c.rest.take (indent - c.column)).takeWhile (· == ' ')).length

/-- Blank lines before a line of a block scalar. -/
def blankLines (indent : Nat) : Nat → Cursor → List Char × Cursor
  | 0, c => ([], c)
  | fuel + 1, c =>
    let c := skipIndent indent c
    match c.lineBreak? with
    | none => ([], c)
    | some (b, c) =>
      let (more, c) := blankLines indent fuel c
      (b :: more, c)

def startsBlank (c : Cursor) : Bool := c.peek == ' ' || c.peek == '\t'

/-- The lines of a block scalar, `breaks` being the blank lines before this one. -/
def blockLines (folded : Bool) (chomping : Chomping) (indent : Nat) :
    Nat → List Char → List Char → Cursor → List Char × Cursor
  | 0, _, _, c => ([], c)
  | fuel + 1, lastBreak, breaks, c =>
    if c.column == indent && !c.atEnd then
      let (line, d) := c.takeWhile (!isBreak ·)
      let (ended, d) := match d.lineBreak? with
        | some (b, d) => ([b], d)
        | none => ([], d)
      let (more, d) := blankLines indent (d.rest.length + 1) d
      let goesOn := d.column == indent && !d.atEnd
      let joint :=
        if !goesOn then []
        else if folded && ended == ['\n'] && !startsBlank c && !startsBlank d then
          if more.isEmpty then [' '] else []
        else ended
      let (tail, d) := blockLines folded chomping indent fuel ended more d
      (breaks ++ line ++ joint ++ tail, d)
    else
      let ended := if chomping = .strip then [] else lastBreak
      (ended ++ if chomping = .keep then breaks else [], c)

/-- A block scalar, literal or folded, below a collection indented by `parent` (`-1` at the
root). -/
def lexBlockScalar (folded : Bool) (parent : Int) (c : Cursor) : Lex (Token × Cursor) := do
  let ((chomping, increment), c) ← lexHeader c.next
  let c ← c.finishLine
  let least := (max (parent + 1) 1).toNat
  let fuel := c.rest.length + 1
  let (indent, breaks, c) := match increment with
    | none =>
      let (breaks, widest, c) := leadingLines fuel 0 c
      (max least widest, breaks, c)
    | some n =>
      let indent := least + n - 1
      let (breaks, c) := blankLines indent fuel c
      (indent, breaks, c)
  let (cs, c) := blockLines folded chomping indent fuel [] breaks c
  pure (.scalar (String.ofList cs) false, c)

end ResourceApi.Yaml
