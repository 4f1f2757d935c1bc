/-! # Binary floating-point numbers

Double-precision numbers as exact values: a finite one is
`± mantissa · 2 ^ exponent`. The form is canonical, so equal numbers are equal
values: the mantissa is below `2 ^ 53`, the exponent at least `-1074`, and the
mantissa is at least `2 ^ 52` unless the exponent is `-1074`. Zero keeps its
sign. All arithmetic is on natural numbers; nothing depends on the machine. -/

namespace ResourceApi

inductive Binary64 where
  | finite (negative : Bool) (mantissa : Nat) (exponent : Int)
  | infinite (negative : Bool)
  | notANumber
  deriving DecidableEq

namespace Binary64

instance : Inhabited Binary64 := ⟨finite false 0 (-1074)⟩

/-- The numerator of `n · base ^ e` as a fraction in which `scaleDown base e` is the denominator. -/
def scaleUp (base n : Nat) (e : Int) : Nat := n * base.pow e.toNat

def scaleDown (base : Nat) (e : Int) : Nat := base.pow (-e).toNat

/-- The integer nearest to `num / den`; a half goes to the even neighbour. -/
def nearestEven (num den : Nat) : Nat :=
  let q := num / den
  let twice := 2 * (num % den)
  if twice < den then q
  else if den < twice then q + 1
  else if q % 2 == 0 then q else q + 1

/-- The exponent for which a positive `num / den` has a mantissa of 53 bits, or the least one. -/
def fittingExponent (num den : Nat) : Int :=
  let guess : Int := (num.log2 : Int) - (den.log2 : Int) - 52
  -- `num / den` lies between `2 ^ (guess + 51)` and `2 ^ (guess + 53)`
  let e := if num * scaleDown 2 guess < Nat.pow 2 52 * scaleUp 2 den guess then guess - 1 else guess
  max e (-1074)

/-- The double nearest to `± num / den`; a half goes to the even mantissa. -/
def ofRatio (negative : Bool) (num den : Nat) : Binary64 :=
  if num == 0 then finite negative 0 (-1074)
  else
    let e := fittingExponent num den
    let m := nearestEven (num * scaleDown 2 e) (scaleUp 2 den e)
    let carried := m == Nat.pow 2 53
    let mantissa := if carried then Nat.pow 2 52 else m
    let exponent := if carried then e + 1 else e
    if 971 < exponent then infinite negative else finite negative mantissa exponent

/-- The double nearest to `± digits · 10 ^ power`. Powers far beyond the range are
decided without computing them. -/
def ofDecimal (negative : Bool) (digits : Nat) (power : Int) : Binary64 :=
  let size : Int := (Nat.toDigits 10 digits).length + power
  if digits == 0 || size < -400 then finite negative 0 (-1074)
  else if 400 < size then infinite negative
  else ofRatio negative (scaleUp 10 digits power) (scaleDown 10 power)

def ofInt (n : Int) : Binary64 := ofRatio (n < 0) n.natAbs 1

def isFinite : Binary64 → Bool
  | finite .. => true
  | _ => false

def isZero : Binary64 → Bool
  | finite _ 0 _ => true
  | _ => false

/-- Greater than zero; not a number is not. -/
def isPositive : Binary64 → Bool
  | finite negative m _ => !negative && m != 0
  | infinite negative => !negative
  | notANumber => false

/-- The value of a finite number that has no fractional part. -/
def toInt? : Binary64 → Option Int
  | finite negative m e =>
    let den := scaleDown 2 e
    if m % den == 0 then
      let n : Int := scaleUp 2 (m / den) e
      some (if negative then -n else n)
    else none
  | _ => none

/-! ## Arithmetic -/

/-- The double nearest to `± n · 2 ^ e`. -/
def ofDyadic (negative : Bool) (n : Nat) (e : Int) : Binary64 :=
  ofRatio negative (scaleUp 2 n e) (scaleDown 2 e)

def neg : Binary64 → Binary64
  | finite negative m e => finite (!negative) m e
  | infinite negative => infinite (!negative)
  | notANumber => notANumber

/-- The double nearest to the exact sum. A sum of zero is negative only if both parts are. -/
def add : Binary64 → Binary64 → Binary64
  | finite s m e, finite t n f =>
    let least := min e f
    let a : Int := scaleUp 2 m (e - least)
    let b : Int := scaleUp 2 n (f - least)
    let sum := (if s then -a else a) + (if t then -b else b)
    ofDyadic (if sum == 0 then s && t else sum < 0) sum.natAbs least
  | infinite s, infinite t => if s = t then infinite s else notANumber
  | infinite s, finite .. => infinite s
  | finite .., infinite t => infinite t
  | notANumber, _ | _, notANumber => notANumber

/-- The double nearest to the exact product. -/
def mul : Binary64 → Binary64 → Binary64
  | finite s m e, finite t n f => ofDyadic (s != t) (m * n) (e + f)
  | infinite s, infinite t => infinite (s != t)
  | infinite s, finite t n _ => if n == 0 then notANumber else infinite (s != t)
  | finite s m _, infinite t => if m == 0 then notANumber else infinite (s != t)
  | notANumber, _ | _, notANumber => notANumber

end Binary64
end ResourceApi
