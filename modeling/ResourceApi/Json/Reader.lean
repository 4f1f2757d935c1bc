import ResourceApi.Json.Basic
import ResourceApi.Number.Numeral

/-! # Reading JSON

A text is read from front to back; what is still to be read is a list of
characters, and a fault is placed by how many characters of the text are left
there. `NaN`, `Infinity` and `-Infinity` are read as numbers, and of several
fields of one name the last value stands in the first place. An escape for one half of
a surrogate pair alone stands for no character; which one to put in its place, the
reader is told. Nesting has no limit. -/

namespace ResourceApi.Json

open Numeral (isDigit hexDigit? digitsValue)

/-- Why a text is not JSON. -/
inductive Fault where
  | byteOrderMark
  | expectingValue
  | expectingName
  | expectingColon
  | expectingComma
  | unterminatedString
  | controlCharacter
  | badEscape
  | badCodeUnit
  | extraData
  /-- An integer has more digits than are read. -/
  | longInt (digits : Nat)
  deriving DecidableEq

def Fault.message : Fault → String
  | byteOrderMark => "Unexpected UTF-8 BOM (decode using utf-8-sig)"
  | expectingValue => "Expecting value"
  | expectingName => "Expecting property name enclosed in double quotes"
  | expectingColon => "Expecting ':' delimiter"
  | expectingComma => "Expecting ',' delimiter"
  | unterminatedString => "Unterminated string starting at"
  | controlCharacter => "Invalid control character at"
  | badEscape => "Invalid \\escape"
  | badCodeUnit => "Invalid \\uXXXX escape"
  | extraData => "Extra data"
  | longInt digits => Numeral.tooLongMessage digits

/-- A fault at the place where `left` characters of the text remain. -/
structure Stop where
  fault : Fault
  left : Nat
  deriving DecidableEq

/-- A value read, and what is left of the text after it. -/
abbrev Read (α : Type) := Except Stop (α × List Char)

def stop {α : Type} (fault : Fault) (rest : List Char) : Except Stop α :=
  .error ⟨fault, rest.length⟩

def isBlank (c : Char) : Bool := c == ' ' || c == '\t' || c == '\n' || c == '\r'

def skipBlank (cs : List Char) : List Char := cs.dropWhile isBlank

/-! ## Strings -/

/-- The UTF-16 code unit of four hexadecimal digits. -/
def codeUnit? (a b c d : Char) : Option Nat := do
  let a ← hexDigit? a
  let b ← hexDigit? b
  let c ← hexDigit? c
  let d ← hexDigit? d
  pure (((a * 16 + b) * 16 + c) * 16 + d)

def isHighSurrogate (n : Nat) : Bool := 0xd800 ≤ n && n < 0xdc00

def isLowSurrogate (n : Nat) : Bool := 0xdc00 ≤ n && n < 0xe000

/-- The character of a code unit. One half of a surrogate pair is no character, and `half` is put
in its place. -/
def unitChar (half : Char) (n : Nat) : Char :=
  if isHighSurrogate n || isLowSurrogate n then half else Char.ofNat n

def pairChar (high low : Nat) : Char :=
  Char.ofNat (0x10000 + (high - 0xd800) * 0x400 + (low - 0xdc00))

/-- The character that a backslash and `c` stand for. -/
def shortEscape? : Char → Option Char
  | '"' => some '"'
  | '\\' => some '\\'
  | '/' => some '/'
  | 'b' => some '\x08'
  | 'f' => some '\x0c'
  | 'n' => some '\n'
  | 'r' => some '\r'
  | 't' => some '\t'
  | _ => none

/-- The code unit of an escape that stands here, if one does and does not end the text. -/
def nextUnit? : List Char → Option (Option Nat)
  | '\\' :: 'u' :: a :: b :: c :: d :: _ :: _ => some (codeUnit? a b c d)
  | _ => none

/-- The text up to the closing quote. `start` characters were left at the opening quote, and
`acc` holds what was read, last first. -/
def readString (half : Char) (start : Nat) (acc : List Char) : List Char → Read String
  | [] => .error ⟨.unterminatedString, start⟩
  | '"' :: rest => .ok (String.ofList acc.reverse, rest)
  | ['\\'] => .error ⟨.unterminatedString, start⟩
  -- the four digits of an escape must not end the text
  | '\\' :: 'u' :: a :: b :: c :: d :: e :: rest =>
    match codeUnit? a b c d with
    | none => .error ⟨.badCodeUnit, rest.length + 6⟩
    | some n =>
      match if isHighSurrogate n then nextUnit? (e :: rest) else none with
      | some none => .error ⟨.badCodeUnit, rest.length⟩
      | some (some m) =>
        if isLowSurrogate m then readString half start (pairChar n m :: acc) (rest.drop 5)
        else readString half start (unitChar half n :: acc) (e :: rest)
      | none => readString half start (unitChar half n :: acc) (e :: rest)
  | '\\' :: 'u' :: rest => .error ⟨.badCodeUnit, rest.length + 1⟩
  | '\\' :: c :: rest =>
    match shortEscape? c with
    | some x => readString half start (x :: acc) rest
    | none => .error ⟨.badEscape, rest.length + 2⟩
  | c :: rest =>
    if c.toNat < 0x20 then .error ⟨.controlCharacter, rest.length + 1⟩
    else readString half start (c :: acc) rest
termination_by cs => cs.length
decreasing_by all_goals simp only [List.length_cons, List.length_drop]; omega

/-! ## Numbers -/

/-- The digits of a number's integral part: a zero stands alone. -/
def wholePart : List Char → Option (List Char × List Char)
  | '0' :: rest => some (['0'], rest)
  | c :: rest => if isDigit c then some ((c :: rest).takeWhile isDigit, (c :: rest).dropWhile isDigit)
    else none
  | [] => none

/-- A point with digits after it; anything else is left to be read. -/
def fractionPart : List Char → List Char × List Char
  | '.' :: c :: rest =>
    if isDigit c then ((c :: rest).takeWhile isDigit, (c :: rest).dropWhile isDigit)
    else ([], '.' :: c :: rest)
  | cs => ([], cs)

/-- An exponent with its sign and digits; anything else is left to be read. -/
def exponentPart (cs : List Char) : Option Int × List Char :=
  match cs with
  | e :: rest =>
    if e == 'e' || e == 'E' then
      let (negative, rest) := match rest with
        | '-' :: r => (true, r)
        | '+' :: r => (false, r)
        | r => (false, r)
      let ds := rest.takeWhile isDigit
      if ds.isEmpty then (none, cs)
      else
        let n : Int := digitsValue ds
        (some (if negative then -n else n), rest.dropWhile isDigit)
    else (none, cs)
  | [] => (none, [])

/-- A number behind its sign: an integer unless it has a fraction or an exponent. The text from
the sign on is `start`. -/
def readUnsigned (start : List Char) (negative : Bool) (cs : List Char) : Read Json :=
  match wholePart cs with
  | none => stop .expectingValue start
  | some (whole, rest) =>
    let (fraction, rest) := fractionPart rest
    let (exponent, rest) := exponentPart rest
    if !fraction.isEmpty || exponent.isSome then
      let power := exponent.getD 0 - fraction.length
      .ok (float (.ofDecimal negative (digitsValue (whole ++ fraction)) power), rest)
    else if Numeral.mostDigits < whole.length then stop (.longInt whole.length) rest
    else
      let n : Int := digitsValue whole
      .ok (int (if negative then -n else n), rest)

/-! ## Values -/

/-- What is left after the word `word`, if the text starts with it. -/
def afterWord? (word : String) (cs : List Char) : Option (List Char) :=
  if word.toList.isPrefixOf cs then some (cs.drop word.length) else none

/-- The words that stand for values. -/
def words : List (String × Json) := [
  ("null", null), ("true", bool true), ("false", bool false), ("NaN", float .notANumber),
  ("Infinity", float (.infinite false)), ("-Infinity", float (.infinite true))]

/-- A word or a number. -/
def readAtom (cs : List Char) : Read Json :=
  match words.findSome? fun w => (afterWord? w.1 cs).map ((w.2, ·)) with
  | some r => .ok r
  | none =>
    match cs with
    | '-' :: rest => readUnsigned cs true rest
    | _ => readUnsigned cs false cs

mutual
/-- One value at the start of the text. Reading goes one level deeper with every unit of fuel. -/
def readValue (half : Char) : Nat → List Char → Read Json
  | 0, cs => stop .expectingValue cs
  | fuel + 1, cs => match cs with
    | '"' :: rest =>
      match readString half cs.length [] rest with
      | .ok (s, rest) => .ok (str s, rest)
      | .error e => .error e
    | '{' :: rest => match skipBlank rest with
      | '}' :: rest => .ok (obj [], rest)
      | rest => readFields half fuel [] rest
    | '[' :: rest => match skipBlank rest with
      | ']' :: rest => .ok (arr [], rest)
      | rest => readItems half fuel [] rest
    | _ => readAtom cs

/-- Items up to the closing bracket; `acc` holds those read, last first. -/
def readItems (half : Char) : Nat → List Json → List Char → Read Json
  | 0, _, cs => stop .expectingValue cs
  | fuel + 1, acc, cs => match readValue half fuel cs with
    | .error e => .error e
    | .ok (v, rest) => match skipBlank rest with
      | ']' :: rest => .ok (arr (v :: acc).reverse, rest)
      | ',' :: rest => readItems half fuel (v :: acc) (skipBlank rest)
      | rest => stop .expectingComma rest

/-- Fields up to the closing brace; `acc` holds those read, last first. -/
def readFields (half : Char) : Nat → List (String × Json) → List Char → Read Json
  | 0, _, cs => stop .expectingValue cs
  | fuel + 1, acc, cs => match cs with
    | '"' :: rest => match readString half cs.length [] rest with
      | .error e => .error e
      | .ok (name, rest) => match skipBlank rest with
        | ':' :: rest => match readValue half fuel (skipBlank rest) with
          | .error e => .error e
          | .ok (v, rest) => match skipBlank rest with
            | '}' :: rest => .ok (obj (Fields.ofPairs ((name, v) :: acc).reverse), rest)
            | ',' :: rest => readFields half fuel ((name, v) :: acc) (skipBlank rest)
            | rest => stop .expectingComma rest
        | rest => stop .expectingColon rest
    | _ => stop .expectingName cs
end

/-- The value that the whole text is. -/
def readAll (half : Char) (cs : List Char) : Except Stop Json :=
  match cs with
  | '\ufeff' :: _ => stop .byteOrderMark cs
  | _ => match readValue half (2 * cs.length + 2) (skipBlank cs) with
    | .error e => .error e
    | .ok (v, rest) => match skipBlank rest with
      | [] => .ok v
      | rest => stop .extraData rest

/-! ## Places of faults -/

/-- A fault and its place: lines and columns count from one. -/
structure ReadError where
  fault : Fault
  line : Nat
  column : Nat
  deriving DecidableEq

/-- The place of a fault in the text it was found in. -/
def Stop.locate (s : Stop) (cs : List Char) : ReadError :=
  let before := cs.take (cs.length - s.left)
  let column := (before.reverse.takeWhile (· != '\n')).length
  ⟨s.fault, before.count '\n' + 1, column + 1⟩

/-- Reads a text as one JSON value, with `half` in the place of halves of surrogate pairs. -/
def readWith (half : Char) (text : String) : Except ReadError Json :=
  match readAll half text.toList with
  | .ok v => .ok v
  | .error s => .error (s.locate text.toList)

/-- Reads a text as one JSON value. -/
def read (text : String) : Except ReadError Json := readWith '\ufffd' text

end ResourceApi.Json
