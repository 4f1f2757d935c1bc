import ResourceApi.Number.Numeral
import ResourceApi.Validation.Fault

/-! # Reading scalars

How truth values, counts, numbers and texts are read from values that may be
written otherwise: a truth value from 0, 1 or a word, a number from its digits. -/

namespace ResourceApi

/-- A value as far as it can stand for a scalar. -/
inductive Scalar where
  | bool (b : Bool)
  | int (n : Int)
  | float (x : Binary64)
  | text (s : String)
  /-- Bytes, with the text that they encode if there is one. -/
  | bytes (text? : Option String)
  /-- Null, a list, a map or anything else. -/
  | other
  deriving DecidableEq

namespace Scalar

open Numeral (isDigit digitsValue trim splitSign isWord readDouble)

/-- Underscores stand singly between other characters. -/
def underscoresFit : List Char → Bool
  | [] => false
  | '_' :: _ => false
  | [_] => true
  | _ :: '_' :: rest => underscoresFit rest
  | _ :: rest => underscoresFit rest

/-- The text without its underscores, if they fit. -/
def dropUnderscores (cs : List Char) : Option (List Char) :=
  if underscoresFit cs then some (cs.filter (· != '_')) else none

/-! ## Whole numbers -/

/-- The most digits that a whole number is read from. -/
def longestInt : Nat := 4300

/-- A whole number in digits, of which the first is no zero unless it is the only one. -/
def readPlainInt (cs : List Char) : Option Int :=
  let negative := cs.head? = some '-'
  let ds := if negative then cs.drop 1 else cs
  if ds.isEmpty || !ds.all isDigit || (1 < ds.length && ds.head? = some '0') ||
      longestInt < ds.length then none
  else some (if negative then -(digitsValue ds : Int) else digitsValue ds)

/-- Goes past zeros and underscores behind the character `last`. The number goes on with a digit
or a minus sign, or with `last` if a point follows it; if nothing follows, `last` is all of it. -/
def skipZeros (last : Char) : List Char → Option (List Char)
  | [] => some [last]
  | c :: rest =>
    if c == '0' || c == '_' then skipZeros c rest
    else if isDigit c || c == '-' then some (c :: rest)
    else if c == '.' then some (last :: c :: rest)
    else none

/-- A number without the zeros that it starts with. -/
def dropZeros : List Char → Option (List Char)
  | [] => none
  | c :: rest =>
    if c == '0' then skipZeros c rest
    else if isDigit c || c == '-' then some (c :: rest)
    else none

/-- A number without a point that only zeros follow. -/
def dropFraction (cs : List Char) : List Char :=
  let zeros := (cs.dropWhile (· != '.')).drop 1
  if !zeros.isEmpty && zeros.all (· == '0') then cs.takeWhile (· != '.') else cs

/-- A whole number as it may also be written: signed, with zeros in front and behind a point, and
with underscores. -/
def readLooseInt (cs : List Char) : Option Int := do
  let (negative, cs) := splitSign (trim cs)
  if cs.head?.any fun c => c == '-' || c == '+' then none
  else
    let cs := dropFraction (← dropZeros cs)
    let cs := (dropUnderscores cs).getD cs
    readPlainInt (if negative then '-' :: cs else cs)

/-- Whether a text starts with more digits than a whole number may have. -/
def startsOversize (cs : List Char) : Bool :=
  let ds := if cs.head? = some '-' then cs.drop 1 else cs
  ds.head?.any (fun c => isDigit c && c != '0') && longestInt < (ds.takeWhile isDigit).length

def readIntText (s : String) : Except Fault Int :=
  let cs := s.toList
  if startsOversize cs then .error .oversizeInt
  else match (readPlainInt cs).orElse fun _ => readLooseInt cs with
    | some n => .ok n
    | none => .error .unclearInt

/-! ## Numbers -/

/-- A number with blanks around it, or with underscores and no blanks. -/
def readNumber? (s : String) : Option Binary64 :=
  (readDouble (trim s.toList)).orElse fun _ =>
    (dropUnderscores s.toList).bind readDouble

/-! ## Truth values -/

/-- The words for a truth value, in any case. -/
def readBool? (s : String) : Option Bool :=
  let cs := s.toList
  if ["1", "t", "y", "on", "yes", "true"].any (isWord cs) then some true
  else if ["0", "f", "n", "no", "off", "false"].any (isWord cs) then some false
  else none

/-! ## Readers -/

/-- Whether an integer fits in 64 bits. -/
def fits64 (n : Int) : Bool := -Int.pow 2 63 ≤ n && n < Int.pow 2 63

/-- A double as an integer of 64 bits. -/
def wholeNumber (x : Binary64) : Except Fault Int :=
  if !x.isFinite then .error .notFinite
  else match x.toInt? with
    | none => .error .fractionalInt
    | some n => if -Int.pow 2 63 < n && n < Int.pow 2 63 then .ok n else .error .oversizeInt

def boolOfInt (n : Int) : Except Fault Bool :=
  if n == 0 then .ok false
  else if n == 1 then .ok true
  else .error .unclearBool

/-- Bytes read as the text that they encode. -/
def decoded : Scalar → Scalar
  | bytes (some s) => text s
  | s => s

def readBool (s : Scalar) : Except Fault Bool :=
  match s.decoded with
  | bool b => .ok b
  | int n => if fits64 n then boolOfInt n else .error .notBool
  | float x => match wholeNumber x with
    | .ok n => boolOfInt n
    | .error _ => .error .notBool
  | text s => match readBool? s with
    | some b => .ok b
    | none => .error .unclearBool
  | bytes _ => .error .unclearBool
  | other => .error .notBool

def readInt (s : Scalar) : Except Fault Int :=
  match s.decoded with
  | bool b => .ok (if b then 1 else 0)
  | int n => .ok n
  | float x => wholeNumber x
  | text s => readIntText s
  | bytes _ => .error .unclearInt
  | other => .error .notInt

/-- An integer that is not negative. -/
def readCount (s : Scalar) : Except Fault Int :=
  match readInt s with
  | .ok n => if n < 0 then .error .belowZero else .ok n
  | .error f => .error f

def readNumber (s : Scalar) : Except Fault Binary64 :=
  match s.decoded with
  | bool b => .ok (.ofInt (if b then 1 else 0))
  | int n => let x := Binary64.ofInt n; if x.isFinite then .ok x else .error .notNumber
  | float x => .ok x
  | text s => match readNumber? s with
    | some x => .ok x
    | none => .error .unclearNumber
  | bytes _ => .error .unclearNumber
  | other => .error .notNumber

/-- A number above zero. -/
def readPositive (s : Scalar) : Except Fault Binary64 :=
  match readNumber s with
  | .ok x => if x.isPositive then .ok x else .error .notAboveZero
  | .error f => .error f

def readText (s : Scalar) : Except Fault String :=
  match s.decoded with
  | text s => .ok s
  | bytes _ => .error .notUnicode
  | _ => .error .notText

end Scalar
end ResourceApi
