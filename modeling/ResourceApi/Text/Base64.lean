/-! # Base 64

Bytes written with 64 letters, six bits a letter. Characters that are no letters are
passed over, and the bytes end at the filling of the last group. -/

namespace ResourceApi.Text.Base64

def letterValue? (c : Char) : Option Nat :=
  if 'A' ≤ c && c ≤ 'Z' then some (c.toNat - 65)
  else if 'a' ≤ c && c ≤ 'z' then some (c.toNat - 71)
  else if '0' ≤ c && c ≤ '9' then some (c.toNat + 4)
  else if c == '+' then some 62
  else if c == '/' then some 63
  else none

/-- Reads on in a group of which `held` letters have been read, worth `bits`; `fills` fillings
have followed them. -/
def decodeFrom (held bits fills : Nat) : List Char → Option (List UInt8)
  | [] => if held = 0 then some [] else none
  | c :: rest =>
    if c == '=' then
      if 2 ≤ held && 4 ≤ held + fills + 1 then some []
      else decodeFrom held bits (if 2 ≤ held then fills + 1 else fills) rest
    else match letterValue? c with
      | none => decodeFrom held bits fills rest
      | some v =>
        match held with
        | 0 => decodeFrom 1 v 0 rest
        | 1 => (decodeFrom 2 (v % 16) 0 rest).map ((bits * 4 + v / 16).toUInt8 :: ·)
        | 2 => (decodeFrom 3 (v % 4) 0 rest).map ((bits * 16 + v / 4).toUInt8 :: ·)
        | _ => (decodeFrom 0 0 0 rest).map ((bits * 64 + v).toUInt8 :: ·)

/-- The bytes of a text; none if the last group is incomplete. -/
def decode (cs : List Char) : Option (List UInt8) := decodeFrom 0 0 0 cs

end ResourceApi.Text.Base64
