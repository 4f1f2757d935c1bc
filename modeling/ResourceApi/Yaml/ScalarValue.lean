import ResourceApi.Number.Numeral
import ResourceApi.Text.Base64
import ResourceApi.Text.LowerCase
import ResourceApi.Yaml.ReadFault
import ResourceApi.Yaml.Resolve

/-! # Values of scalars

What the characters of a scalar stand for once its tag is known. The tag may have
been given, so that the characters need not have the form that would have led to it. -/

namespace ResourceApi.Yaml

open Numeral (isDigit digitsValue splitSign)

/-! ## Numbers -/

/-- The parts between colons. -/
def splitColons : List Char → List (List Char)
  | [] => [[]]
  | c :: rest =>
    if c == ':' then [] :: splitColons rest
    else match splitColons rest with
      | [] => [[c]]
      | p :: ps => (c :: p) :: ps

def readWhole (base : Nat) (cs : List Char) : Lex Int :=
  match Numeral.readWhole base cs with
  | .ok n => .ok n
  | .error .notDigits => .error (.badInt base (String.ofList cs))
  | .error (.tooLong digits) => .error (.longInt digits)

/-- An integer without its sign, in the base that its first characters show. -/
def readMagnitude : List Char → Lex Int
  | ['0'] => .ok 0
  | '0' :: 'b' :: rest => readWhole 2 rest
  | '0' :: 'x' :: rest => readWhole 16 rest
  | '0' :: rest => readWhole 8 ('0' :: rest)
  | [] => .error .emptyNumber
  | cs =>
    if cs.contains ':' then do
      let places ← (splitColons cs).mapM (readWhole 10)
      pure (places.foldl (fun n place => 60 * n + place) 0)
    else readWhole 10 cs

/-- An integer; its underscores count for nothing. -/
def readInt (s : String) : Lex Int := do
  let (negative, cs) := splitSign (s.toList.filter (· != '_'))
  let n ← readMagnitude cs
  pure (if negative then -n else n)

def readDouble (cs : List Char) : Lex Binary64 :=
  match Numeral.readFreeDouble cs with
  | some x => .ok x
  | none => .error (.badFloat (String.ofList cs))

/-- The sum of places of sixty, the last place first, from the place worth `worth` on. -/
def sumPlaces (worth : Nat) (sum : Binary64) : List Binary64 → Lex Binary64
  | [] => .ok sum
  | place :: rest =>
    let factor := Binary64.ofInt worth
    if factor.isFinite then sumPlaces (60 * worth) (sum.add (place.mul factor)) rest
    else .error .oversize

/-- A double without its sign, in lower case. -/
def readDoubleMagnitude (cs : List Char) : Lex Binary64 :=
  if cs == ".inf".toList then .ok (.infinite false)
  else if cs == ".nan".toList then .ok .notANumber
  else if cs.contains ':' then do
    let places ← (splitColons cs).mapM readDouble
    sumPlaces 1 (.ofInt 0) places.reverse
  else readDouble cs

/-- A double; its underscores and the case of its letters count for nothing. -/
def readFloat (s : String) : Lex Binary64 :=
  let cs := (Text.lower (String.ofList (s.toList.filter (· != '_')))).toList
  if cs.isEmpty then .error .emptyNumber
  else
    let (negative, cs) := splitSign cs
    (readDoubleMagnitude cs).map fun x => if negative then x.neg else x

/-- The words for truth values. -/
def readBool (s : String) : Lex Bool :=
  let word := Text.lower s
  if ["yes", "true", "on"].contains word then .ok true
  else if ["no", "false", "off"].contains word then .ok false
  else .error .unknownWord

/-! ## Points in time -/

def isLeap (year : Nat) : Bool := year % 4 == 0 && (year % 100 != 0 || year % 400 == 0)

def daysOf (year month : Nat) : Nat :=
  if month == 2 then if isLeap year then 29 else 28
  else if [4, 6, 9, 11].contains month then 30
  else 31

def inRange (low high n : Nat) (message : String) : Lex Unit :=
  if low ≤ n && n ≤ high then .ok () else .error (.momentRange message)

/-- A zone's offset is less than a day. -/
def checkZone (negative : Bool) (hours minutes : Nat) : Lex Unit :=
  let seconds := 3600 * hours + 60 * minutes
  if seconds < 86400 then .ok ()
  else
    let days : Int := if negative then -((seconds + 86399) / 86400 : Nat) else (seconds / 86400 : Nat)
    let rest : Int := (if negative then -(seconds : Int) else seconds) - 86400 * days
    let shown := s!"datetime.timedelta(days={days}" ++
      (if rest == 0 then "" else s!", seconds={rest}") ++ ")"
    .error (.momentRange ("offset must be a timedelta strictly between " ++
      "-timedelta(hours=24) and timedelta(hours=24), not " ++ shown ++ "."))

/-- The numbers in a text, in order. -/
def numbersIn (cs : List Char) : List Nat :=
  ((cs.splitBy fun a b => isDigit a == isDigit b).filter (·.all isDigit)).map digitsValue

/-- The form of a point in time, in which a line may end behind it. -/
def hasMomentForm (cs : List Char) : Bool :=
  Forms.anyMoment.accepts cs ||
    (cs.getLast? == some '\n' && Forms.anyMoment.accepts cs.dropLast)

/-- Checks the form and the ranges of a point in time: a date, and a time of day and a zone if
there are. -/
def checkMoment (s : String) : Lex Unit := do
  let cs := s.toList
  if !hasMomentForm cs then throw .notMoment
  let date := cs.takeWhile fun c => isDigit c || c == '-'
  let time := cs.drop date.length
  let clock := time.takeWhile fun c => c != 'Z' && c != '+' && c != '-'
  let zone := time.drop clock.length
  match numbersIn zone with
  | [] => pure ()
  | hours :: minutes => checkZone (zone.head? = some '-') hours (minutes.headD 0)
  match numbersIn date with
  | [year, month, day] =>
    inRange 1 9999 year s!"year {year} is out of range"
    inRange 1 12 month "month must be in 1..12"
    inRange 1 (daysOf year month) day "day is out of range for month"
  | _ => pure ()
  match numbersIn clock with
  | hour :: minute :: second :: _ =>
    inRange 0 23 hour "hour must be in 0..23"
    inRange 0 59 minute "minute must be in 0..59"
    inRange 0 59 second "second must be in 0..59"
  | _ => pure ()

/-! ## Bytes -/

/-- The bytes that ASCII letters write. -/
def readBytes (s : String) : Lex (List UInt8) :=
  if s.toList.any fun c => 0x80 ≤ c.toNat then .error .malformed
  else match Text.Base64.decode s.toList with
    | some bs => .ok bs
    | none => .error .malformed

end ResourceApi.Yaml
