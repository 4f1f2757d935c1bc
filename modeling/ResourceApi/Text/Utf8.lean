import ResourceApi.Text.Quoted

/-! # Bytes that are no UTF-8

Where the bytes of a text stop being UTF-8, and why: a sequence has a first byte that
starts none, is followed by a byte that does not continue it, or ends with the text.
The other way round, a text has no bytes if it holds one half of a surrogate pair alone. -/

namespace ResourceApi

inductive Utf8Flaw where
  | noStart
  | notContinued
  | unfinished
  deriving DecidableEq

def Utf8Flaw.message : Utf8Flaw → String
  | noStart => "invalid start byte"
  | notContinued => "invalid continuation byte"
  | unfinished => "unexpected end of data"

/-- A sequence of bytes that is no character: its place, its first byte and its length. -/
structure Utf8Fault where
  flaw : Utf8Flaw
  position : Nat
  first : UInt8
  length : Nat
  deriving DecidableEq

namespace Utf8Fault

/-- The number of bytes that follow the first byte of a sequence, and the range of the second;
none for a byte that starts no sequence. -/
def following? (first : UInt8) : Option (Nat × UInt8 × UInt8) :=
  let between (low high : UInt8) := low ≤ first && first ≤ high
  if first < 0x80 then some (0, 0x80, 0xbf)
  else if between 0xc2 0xdf then some (1, 0x80, 0xbf)
  else if first == 0xe0 then some (2, 0xa0, 0xbf)
  else if first == 0xed then some (2, 0x80, 0x9f)
  else if between 0xe1 0xef then some (2, 0x80, 0xbf)
  else if first == 0xf0 then some (3, 0x90, 0xbf)
  else if between 0xf1 0xf3 then some (3, 0x80, 0xbf)
  else if first == 0xf4 then some (3, 0x80, 0x8f)
  else none

/-- How many of the next `n` bytes continue a sequence, if the next one must be in the range. -/
def continued : Nat → UInt8 → UInt8 → List UInt8 → Nat
  | n + 1, low, high, b :: rest =>
    if low ≤ b && b ≤ high then continued n 0x80 0xbf rest + 1 else 0
  | _, _, _, _ => 0

/-- The first fault in bytes, of which the first stands at `position`. -/
def find? (position : Nat) : List UInt8 → Option Utf8Fault
  | [] => none
  | first :: rest =>
    match following? first with
    | none => some ⟨.noStart, position, first, 1⟩
    | some (n, low, high) =>
      let found := continued n low high rest
      if found == n then find? (position + n + 1) (rest.drop n)
      else if (rest.drop found).isEmpty then some ⟨.unfinished, position, first, found + 1⟩
      else some ⟨.notContinued, position, first, found + 1⟩
termination_by bytes => bytes.length
decreasing_by simp only [List.length_drop, List.length_cons]; omega

/-- The first fault of bytes that are no UTF-8. -/
def firstIn (bytes : List UInt8) : Utf8Fault := (find? 0 bytes).getD ⟨.unfinished, 0, 0, 0⟩

def message (f : Utf8Fault) : String :=
  let place :=
    if f.length == 1 then
      s!"byte 0x{String.ofList (Text.hexDigits 2 f.first.toNat)} in position {f.position}"
    else s!"bytes in position {f.position}-{f.position + f.length - 1}"
  "'utf-8' codec can't decode " ++ place ++ ": " ++ f.flaw.message

end Utf8Fault

/-- Why bytes give no text, or a text no bytes. -/
inductive UnicodeFault where
  | decoding (fault : Utf8Fault)
  /-- The text holds one half of a surrogate pair alone. -/
  | encoding

def UnicodeFault.message : UnicodeFault → String
  | decoding fault => fault.message
  | encoding => "'utf-8' codec can't encode characters: surrogates not allowed"

end ResourceApi
