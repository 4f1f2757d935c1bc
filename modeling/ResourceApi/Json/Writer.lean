import ResourceApi.Json.Basic
import ResourceApi.Number.Numeral
import ResourceApi.Number.Shortest
import ResourceApi.Text.Quoted

/-! # Writing JSON

Two layouts: everything on one line, and one item or field a line with an
indentation of four blanks a level. Only what must be escaped in a string is:
the quote, the backslash and the control characters. Integers are written up to the
number of digits up to which they are read. -/

namespace ResourceApi.Json

/-- Doubles in JSON text; what is not finite is written by name. -/
def floatStyle : FloatStyle := ⟨false, "Infinity", "NaN"⟩

/-- One character of a string. -/
def writeChar (c : Char) : List Char :=
  if c == '"' || c == '\\' then ['\\', c]
  else if c == '\n' then ['\\', 'n']
  else if c == '\r' then ['\\', 'r']
  else if c == '\t' then ['\\', 't']
  else if c == '\x08' then ['\\', 'b']
  else if c == '\x0c' then ['\\', 'f']
  else if c.toNat < 0x20 then '\\' :: 'u' :: Text.hexDigits 4 c.toNat
  else [c]

def writeString (s : String) : List Char := '"' :: s.toList.flatMap writeChar ++ ['"']

/-- A value that holds no other value. Of arrays and objects only the empty ones are written so. -/
def writeAtom : Json → List Char
  | null => "null".toList
  | bool true => "true".toList
  | bool false => "false".toList
  | int n => (toString n).toList
  | float x => (x.write floatStyle).toList
  | str s => writeString s
  | arr _ => "[]".toList
  | obj _ => "\x7b\x7d".toList

/-! ## Integers that are not written -/

mutual
/-- The number of digits of the first integer in a value that has more of them than are written. -/
def longInt? : Json → Option Nat
  | int n =>
    let digits := (Nat.toDigits 10 n.natAbs).length
    if Numeral.mostDigits < digits then some digits else none
  | arr items => longIntOfItems? items
  | obj fields => longIntOfFields? fields
  | _ => none

def longIntOfItems? : List Json → Option Nat
  | [] => none
  | v :: rest => (longInt? v).or (longIntOfItems? rest)

def longIntOfFields? : List (String × Json) → Option Nat
  | [] => none
  | (_, v) :: rest => (longInt? v).or (longIntOfFields? rest)
end

/-! ## On one line -/

mutual
/-- A value on one line, with a blank after each comma and colon. -/
def writeLine : Json → List Char
  | arr (v :: rest) => '[' :: writeLine v ++ writeLineItems rest ++ [']']
  | obj ((n, v) :: rest) =>
    '{' :: writeString n ++ ':' :: ' ' :: writeLine v ++ writeLineFields rest ++ ['}']
  | v => writeAtom v

def writeLineItems : List Json → List Char
  | [] => []
  | v :: rest => ',' :: ' ' :: writeLine v ++ writeLineItems rest

def writeLineFields : List (String × Json) → List Char
  | [] => []
  | (n, v) :: rest =>
    ',' :: ' ' :: writeString n ++ ':' :: ' ' :: writeLine v ++ writeLineFields rest
end

def oneLine (v : Json) : String := String.ofList (writeLine v)

/-! ## Indented -/

/-- The start of a line at the given level. -/
def newLine (level : Nat) : List Char := '\n' :: List.replicate (4 * level) ' '

mutual
/-- A value whose lines after the first are indented from `level` on. -/
def writeIndented (level : Nat) : Json → List Char
  | arr (v :: rest) =>
    '[' :: newLine (level + 1) ++ writeIndented (level + 1) v ++
      writeIndentedItems (level + 1) rest ++ newLine level ++ [']']
  | obj ((n, v) :: rest) =>
    '{' :: newLine (level + 1) ++ writeString n ++ ':' :: ' ' :: writeIndented (level + 1) v ++
      writeIndentedFields (level + 1) rest ++ newLine level ++ ['}']
  | v => writeAtom v

def writeIndentedItems (level : Nat) : List Json → List Char
  | [] => []
  | v :: rest => ',' :: newLine level ++ writeIndented level v ++ writeIndentedItems level rest

def writeIndentedFields (level : Nat) : List (String × Json) → List Char
  | [] => []
  | (n, v) :: rest =>
    ',' :: newLine level ++ writeString n ++ ':' :: ' ' :: writeIndented level v ++
      writeIndentedFields level rest
end

def indented (v : Json) : String := String.ofList (writeIndented 0 v)

end ResourceApi.Json
