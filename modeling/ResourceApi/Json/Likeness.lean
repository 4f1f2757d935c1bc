import ResourceApi.Json.Basic

/-! # Likeness of values

Two values are alike if they differ at most in what a comparison does not look at: the
order of fields, and how a number is written. True and false count as one and zero, and
an integer is like the double of the same value. -/

namespace ResourceApi

/-- What numbers are compared by: an integer, or a double that is none. -/
inductive Quantity where
  | whole (n : Int)
  | other (x : Binary64)
  deriving DecidableEq

def Quantity.ofDouble (x : Binary64) : Quantity :=
  match x.toInt? with
  | some n => whole n
  | none => other x

namespace Json

def quantity? : Json → Option Quantity
  | bool b => some (.whole (if b then 1 else 0))
  | int n => some (.whole n)
  | float x => some (.ofDouble x)
  | _ => none

mutual
/-- Whether values are alike. -/
def alike : Json → Json → Bool
  | null, w => w.isNull
  | bool b, w => w.quantity? = some (.whole (if b then 1 else 0))
  | int n, w => w.quantity? = some (.whole n)
  | float x, w => w.quantity? = some (.ofDouble x)
  | str s, w => w.str? = some s
  | arr items, w =>
    match w.items? with
    | some others => alikeItems items others
    | none => false
  | obj fields, w =>
    match w.fields? with
    | some others => fields.length = others.length && alikeFields fields others
    | none => false

def alikeItems : List Json → List Json → Bool
  | [], others => others.isEmpty
  | _ :: _, [] => false
  | v :: rest, w :: others => alike v w && alikeItems rest others

/-- Whether every field is among the others, with a value that is like its own. -/
def alikeFields : List (String × Json) → Fields Json → Bool
  | [], _ => true
  | (name, v) :: rest, others =>
    (match others.get? name with
      | some w => alike v w
      | none => false) && alikeFields rest others
end

end Json
end ResourceApi
