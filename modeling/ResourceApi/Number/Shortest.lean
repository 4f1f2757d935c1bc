import ResourceApi.Number.Binary64

/-! # Shortest decimal form of a double

A finite double is written with the fewest digits that read back as the same
double, and among those with the nearest. The numbers that read back as
`m · 2 ^ q` form an interval around it, whose ends belong to it exactly when `m`
is even. If a decimal grid has a point in that interval, one of the value's two
neighbours on the grid lies in it, so trying the two neighbours with 1, 2, … , 17
digits finds the shortest form. -/

namespace ResourceApi

/-- The number `digits · 10 ^ power`, `digits` having no trailing zero. -/
structure Decimal where
  digits : Nat
  power : Int
  deriving DecidableEq

namespace Decimal

/-- Strips trailing zeros; `fuel` bounds their number. -/
def stripZeros : Nat → Decimal → Decimal
  | 0, d => d
  | fuel + 1, d =>
    if d.digits != 0 && d.digits % 10 == 0 then stripZeros fuel ⟨d.digits / 10, d.power + 1⟩ else d

/-- The number of decimal digits of a positive `n`. -/
def width (n : Nat) : Nat := (Nat.toDigits 10 n).length

/-- The `p` with `10 ^ p ≤ num / den < 10 ^ (p + 1)`, for a positive fraction. -/
def leadingPower (num den : Nat) : Int :=
  if den ≤ num then (width (num / den) : Int) - 1
  else -(width ((den + num - 1) / num - 1) : Int)

/-- Everything that reads back as a double, in units of a quarter of its last place. -/
structure Interval where
  low : Nat
  value : Nat
  high : Nat
  closed : Bool
  /-- The unit is two to this power. -/
  unit : Int

/-- The interval of `mantissa · 2 ^ exponent`. Below a power of two the next double is half as far. -/
def Interval.of (mantissa : Nat) (exponent : Int) : Interval :=
  let low :=
    if mantissa == Nat.pow 2 52 && -1074 < exponent then 4 * mantissa - 1 else 4 * mantissa - 2
  ⟨low, 4 * mantissa, 4 * mantissa + 2, mantissa % 2 == 0, exponent - 2⟩

/-- The best point of the grid of step `10 ^ power`, if one lies in the interval. -/
def Interval.nearest? (i : Interval) (power : Int) : Option Nat :=
  -- a grid point `a` and an interval point `x` compare as `a * step` and `x * scale`
  let step := Binary64.scaleUp 10 1 power * Binary64.scaleDown 2 i.unit
  let scale := Binary64.scaleUp 2 1 i.unit * Binary64.scaleDown 10 power
  let inside (a : Nat) : Bool :=
    if i.closed then i.low * scale ≤ a * step && a * step ≤ i.high * scale
    else i.low * scale < a * step && a * step < i.high * scale
  let below := i.value * scale / step
  let toBelow := i.value * scale - below * step
  let toAbove := (below + 1) * step - i.value * scale
  match inside below, inside (below + 1) with
  | true, true =>
    if toBelow < toAbove then some below
    else if toAbove < toBelow then some (below + 1)
    else some (if below % 2 == 0 then below else below + 1)
  | true, false => some below
  | false, true => some (below + 1)
  | false, false => none

/-- The first grid with a point in the interval, from the coarsest on; `fuel` grids are tried. -/
def Interval.search (i : Interval) : Nat → Int → Decimal
  | 0, power => ⟨0, power⟩
  | fuel + 1, power => match i.nearest? power with
    | some a => ⟨a, power⟩
    | none => search i fuel (power - 1)

/-- The shortest decimal that reads back as the positive double `mantissa · 2 ^ exponent`. -/
def shortest (mantissa : Nat) (exponent : Int) : Decimal :=
  let top := leadingPower (Binary64.scaleUp 2 mantissa exponent) (Binary64.scaleDown 2 exponent)
  stripZeros 20 ((Interval.of mantissa exponent).search 17 top)

end Decimal

/-- How one output format writes doubles: whether a mantissa of one digit gets `.0` before an
exponent, and the texts of what is not finite. -/
structure FloatStyle where
  pointBeforeExponent : Bool
  infinity : String
  notANumber : String

namespace Decimal

/-- A decimal in digits. From `10 ^ -4` up to below `10 ^ 16` it is positional with at least one
digit on each side of the point; outside, it has an exponent of at least two digits. -/
def write (style : FloatStyle) (d : Decimal) : String :=
  let ds := Nat.toDigits 10 d.digits
  let lead : Int := d.power + ds.length - 1
  let zeros (n : Int) := List.replicate n.toNat '0'
  if lead < -4 || 16 ≤ lead then
    let fraction := match ds.drop 1 with
      | [] => if style.pointBeforeExponent then ['.', '0'] else []
      | rest => '.' :: rest
    let size := Nat.toDigits 10 lead.natAbs
    let sign := if lead < 0 then '-' else '+'
    String.ofList (ds.take 1 ++ fraction ++ 'e' :: sign :: zeros (2 - size.length) ++ size)
  else if lead < 0 then String.ofList ('0' :: '.' :: zeros (-lead - 1) ++ ds)
  else
    let whole := ds.take (lead.toNat + 1) ++ zeros d.power
    let fraction := ds.drop (lead.toNat + 1)
    String.ofList (whole ++ '.' :: (if fraction.isEmpty then ['0'] else fraction))

end Decimal

/-- The text of a double. -/
def Binary64.write (style : FloatStyle) : Binary64 → String
  | finite negative m e =>
    let body := if m == 0 then "0.0" else (Decimal.shortest m e).write style
    if negative then "-" ++ body else body
  | infinite negative => if negative then "-" ++ style.infinity else style.infinity
  | notANumber => style.notANumber

end ResourceApi
