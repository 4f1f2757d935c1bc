import ResourceApi.Number.Numeral
import ResourceApi.Text.Quoted

/-! # Faults of a YAML text

Why a text has no value: it does not follow the grammar, or a scalar has not the form
that its tag calls for. -/

namespace ResourceApi.Yaml

inductive ReadFault where
  /-- The text does not follow the grammar, or has no value by it. -/
  | malformed
  /-- The characters write no integer in the base. -/
  | badInt (base : Nat) (characters : String)
  /-- An integer has more digits than are read. -/
  | longInt (digits : Nat)
  | badFloat (characters : String)
  | badCodePoint
  /-- A number is beyond the range that its place has. -/
  | oversize
  /-- A number is called for where there is no character left. -/
  | emptyNumber
  /-- A truth value is called for, and the word is none. -/
  | unknownWord
  /-- A point in time is called for, and the text has not its form. -/
  | notMoment
  /-- A point in time is called for, and the node is no text. -/
  | notText
  /-- A part of a point in time is out of its range. -/
  | momentRange (message : String)
  /-- A map stands for a scalar that is looked for in the map itself. -/
  | endless
  deriving DecidableEq

/-- Reading that may end in a fault. -/
abbrev Lex := Except ReadFault

namespace ReadFault

/-- The most characters of quoted text that are shown of what writes no integer. -/
def shownLength : Nat := 200

/-- The message for a scalar that gives no value of its kind; none for a fault of the grammar, or
where nothing is known of the scalar. -/
def message? : ReadFault → Option String
  | badInt base characters =>
    some (s!"invalid literal for int() with base {base}: " ++
      String.ofList ((Text.quoted characters).toList.take shownLength))
  | longInt digits => some (Numeral.tooLongMessage digits)
  | badFloat characters =>
    some ("could not convert string to float: " ++ Text.quoted characters)
  | badCodePoint => some "chr() arg not in range(0x110000)"
  | momentRange message => some message
  | _ => none

end ReadFault
end ResourceApi.Yaml
