import ResourceApi.Yaml.ReadFault
import ResourceApi.Yaml.ScalarText

/-! # A place in a YAML text

What is left of a text, with the place it is at. The end of the text reads as NUL,
which no text may hold. -/

namespace ResourceApi.Yaml

structure Cursor where
  rest : List Char
  index : Nat
  line : Nat
  column : Nat

namespace Cursor

def start (cs : List Char) : Cursor := ⟨cs, 0, 0, 0⟩

/-- The character `n` places on. -/
def peekAt (c : Cursor) (n : Nat) : Char := (c.rest[n]?).getD '\x00'

def peek (c : Cursor) : Char := c.peekAt 0

def atEnd (c : Cursor) : Bool := c.rest.isEmpty

/-- One character on. A byte order mark takes no column. -/
def next (c : Cursor) : Cursor :=
  match c.rest with
  | [] => c
  | ch :: rest =>
    if isBreak ch then ⟨rest, c.index + 1, c.line + 1, 0⟩
    else if ch == '\ufeff' then ⟨rest, c.index + 1, c.line, c.column⟩
    else ⟨rest, c.index + 1, c.line, c.column + 1⟩

def skip (c : Cursor) : Nat → Cursor
  | 0 => c
  | n + 1 => skip c.next n

/-- The characters that come next and satisfy `p`, and the place behind them. -/
def takeWhile (c : Cursor) (p : Char → Bool) : List Char × Cursor :=
  let taken := c.rest.takeWhile p
  (taken, c.skip taken.length)

def skipWhile (c : Cursor) (p : Char → Bool) : Cursor := (c.takeWhile p).2

def skipBlanks (c : Cursor) : Cursor := c.skipWhile (· == ' ')

/-- The break that stands here, as it is read: a line feed, or a separator that is kept. -/
def lineBreak? (c : Cursor) : Option (Char × Cursor) :=
  let ch := c.peek
  if ch == '\n' || ch == '\u0085' then some ('\n', c.next)
  else if isBreak ch then some (ch, c.next)
  else none

def skipBreak (c : Cursor) : Cursor :=
  match c.lineBreak? with
  | some (_, c) => c
  | none => c

/-- Whether a comment stands here; it reaches to the end of its line. -/
def skipComment (c : Cursor) : Cursor :=
  if c.peek == '#' then c.skipWhile (!isBreak ·) else c

def startsWith (c : Cursor) (s : String) : Bool := s.toList.isPrefixOf c.rest

/-- Three dashes or points that stand as a word mark where a document starts or ends. -/
def atMark (c : Cursor) (mark : String) : Bool := c.startsWith mark && isSeparator (c.peekAt 3)

def atDocumentMark (c : Cursor) : Bool := c.atMark "---" || c.atMark "..."

/-- Skips what may stand behind a header on its line. -/
def finishLine (c : Cursor) : Lex Cursor :=
  let c := c.skipBlanks.skipComment
  if c.atEnd || isBreak c.peek then .ok c.skipBreak else .error .malformed

end Cursor
end ResourceApi.Yaml
