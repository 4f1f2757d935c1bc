import ResourceApi.Number.Binary64
import ResourceApi.Text.DecimalDigit

/-! # Numerals

Whole numbers and doubles from the characters they are written with. A free numeral
may be written with the digits of any script, and may have white space around it. -/

namespace ResourceApi.Numeral

/-! ## Characters -/

def isDigit (c : Char) : Bool := '0' ≤ c && c ≤ '9'

def hexDigit? (c : Char) : Option Nat :=
  if isDigit c then some (c.toNat - 48)
  else if 'a' ≤ c && c ≤ 'f' then some (c.toNat - 87)
  else if 'A' ≤ c && c ≤ 'F' then some (c.toNat - 55)
  else none

/-- The value of a digit of a base up to sixteen. -/
def digit? (base : Nat) (c : Char) : Option Nat := (hexDigit? c).filter (· < base)

/-- The number that digits of a base write; what is no digit counts as zero. -/
def valueIn (base : Nat) (ds : List Char) : Nat :=
  ds.foldl (fun n c => base * n + (hexDigit? c).getD 0) 0

/-- The number that decimal digits write. -/
def digitsValue (ds : List Char) : Nat := ds.foldl (fun n c => 10 * n + (c.toNat - 48)) 0

/-- White space of any script. -/
def isWhite (c : Char) : Bool :=
  let n := c.toNat
  (9 ≤ n && n ≤ 13) || n == 0x20 || n == 0x85 || n == 0xa0 || n == 0x1680 ||
    (0x2000 ≤ n && n ≤ 0x200a) || n == 0x2028 || n == 0x2029 || n == 0x202f || n == 0x205f ||
    n == 0x3000

def trim (cs : List Char) : List Char :=
  ((cs.dropWhile isWhite).reverse.dropWhile isWhite).reverse

/-- A sign, if there is one, and what follows it. -/
def splitSign : List Char → Bool × List Char
  | '-' :: rest => (true, rest)
  | '+' :: rest => (false, rest)
  | cs => (false, cs)

/-! ## Doubles -/

def isWord (cs : List Char) (word : String) : Bool := cs.map Char.toLower == word.toList

/-- The exponent of a number in digits: nothing, or a letter, a sign and digits. -/
def readExponent : List Char → Option Int
  | [] => some 0
  | e :: rest =>
    let (negative, ds) := splitSign rest
    if e.toLower == 'e' && !ds.isEmpty && ds.all isDigit then
      let n : Int := digitsValue ds
      some (if negative then -n else n)
    else none

/-- A double in digits, with a point and an exponent allowed, or the name of what is no number. -/
def readDouble (cs : List Char) : Option Binary64 := do
  let (negative, cs) := splitSign cs
  if isWord cs "inf" || isWord cs "infinity" then pure (.infinite negative)
  else if isWord cs "nan" then pure .notANumber
  else
    let whole := cs.takeWhile isDigit
    let rest := cs.dropWhile isDigit
    let (fraction, rest) := match rest with
      | '.' :: r => (r.takeWhile isDigit, r.dropWhile isDigit)
      | r => ([], r)
    if whole.isEmpty && fraction.isEmpty then none
    else
      let exponent ← readExponent rest
      pure (.ofDecimal negative (digitsValue (whole ++ fraction)) (exponent - fraction.length))

/-! ## Free numerals -/

/-- A character of a free numeral by what it stands for: the digits of other scripts stand for
those of ASCII, their white space for a blank, and all else beyond ASCII for nothing. -/
def plainChar (c : Char) : Char :=
  if c.toNat < 127 then c
  else if isWhite c then ' '
  else match Text.decimalDigit? c with
    | some d => Char.ofNat (48 + d)
    | none => '?'

def plainText (cs : List Char) : List Char := trim (cs.map plainChar)

/-- Why characters write no whole number. -/
inductive Fault where
  | notDigits
  /-- There are more decimal digits than are read. -/
  | tooLong (digits : Nat)
  deriving DecidableEq

/-- The most decimal digits that a whole number may have. -/
def mostDigits : Nat := 4300

/-- The message on a whole number with too many digits. -/
def tooLongMessage (digits : Nat) : String :=
  s!"Exceeds the limit ({mostDigits} digits) for integer string conversion: value has {digits} " ++
    "digits; use sys.set_int_max_str_digits() to increase the limit"

/-- Whether two characters announce digits of a base. -/
def announces (base : Nat) (zero letter : Char) : Bool :=
  zero == '0' && ((base == 2 && letter.toLower == 'b') || (base == 8 && letter.toLower == 'o') ||
    (base == 16 && letter.toLower == 'x'))

/-- Digits behind the two characters that may announce them. -/
def dropAnnouncement (base : Nat) : List Char → List Char
  | zero :: letter :: rest => if announces base zero letter then rest else zero :: letter :: rest
  | cs => cs

/-- The whole number of a free numeral in a base up to sixteen. Decimal digits are counted before
what follows them is looked at. -/
def readWhole (base : Nat) (cs : List Char) : Except Fault Int :=
  let (negative, cs) := splitSign (plainText cs)
  let cs := dropAnnouncement base cs
  let isDigitHere (c : Char) : Bool := (digit? base c).isSome
  let ds := cs.takeWhile isDigitHere
  if base == 10 && mostDigits < ds.length then .error (.tooLong ds.length)
  else if ds.isEmpty || !(cs.dropWhile isDigitHere).isEmpty then .error .notDigits
  else
    let n : Int := valueIn base ds
    .ok (if negative then -n else n)

/-- The double of a free numeral. -/
def readFreeDouble (cs : List Char) : Option Binary64 := readDouble (plainText cs)

end ResourceApi.Numeral
