import ResourceApi.Json.Basic
import ResourceApi.Number.Shortest
import ResourceApi.Yaml.ScalarText

/-! # Writing YAML

A value as a block document: an item or a field a line, and each level indented by
two, except that a list below a key stands in the key's own column. A key that is
empty, long or of several lines is announced by a question mark. -/

namespace ResourceApi.Yaml

/-- Doubles in YAML text. -/
def floatStyle : FloatStyle := ⟨true, ".inf", ".nan"⟩

/-- A value that holds no other value, as a scalar or an empty collection. -/
def writeAtom (s : Setting) (column : Nat) : Json → List Char
  | .null => "null".toList
  | .bool true => "true".toList
  | .bool false => "false".toList
  | .int n => (toString n).toList
  | .float x => (x.write floatStyle).toList
  | .str t => writeText s false column t
  | .arr _ => "[]".toList
  | .obj _ => "\x7b\x7d".toList

/-- Whether a key can stand on the line of its value: it is not empty, has no break, and leaves
room for its tag within 128 characters. -/
def isSimpleKey (key : List Char) : Bool :=
  !key.isEmpty && !hasBreak key && key.length + 5 < 128

/-- A key that stands on the line of its value. -/
def writeKey (key : String) : List Char := writeText ⟨false, 0⟩ true 0 key

/-- Where a value stands: right of a dash or sign, or below a key whose line has reached a
column. -/
inductive Place where
  | beside
  | below (column : Nat)

/-- A key with the sign after it, on a line that stands at `indent`. -/
def keyText (indent : Nat) (key : String) : List Char :=
  if isSimpleKey key.toList then writeKey key ++ [':']
  else
    '?' :: ' ' :: writeText ⟨true, indent + 2⟩ false (indent + 2) key ++
      newLine indent ++ [':', ' ']

/-- Where the value of a key stands. -/
def valuePlace (indent : Nat) (key : String) : Place :=
  if isSimpleKey key.toList then .below (indent + (writeKey key).length + 1) else .beside

/-- How a collection starts whose own lines stand at `indent`. -/
def startBlock (place : Place) (indent : Nat) : List Char :=
  match place with
  | .beside => []
  | .below _ => newLine indent

/-- The column of a list's dashes. -/
def dashColumn (indent : Nat) : Place → Nat
  | .beside => indent + 2
  | .below _ => indent

def placeAtom (indent : Nat) (place : Place) (v : Json) : List Char :=
  match place with
  | .beside => writeAtom ⟨true, indent + 2⟩ (indent + 2) v
  | .below column => ' ' :: writeAtom ⟨true, indent + 2⟩ (column + 1) v

mutual
/-- A value whose dash, sign or key stands in the column `indent`. -/
def writeValue (indent : Nat) (place : Place) : Json → List Char
  | .arr (v :: rest) =>
    let dashes := dashColumn indent place
    startBlock place dashes ++ '-' :: ' ' :: writeValue dashes .beside v ++ writeItems dashes rest
  | .obj ((k, v) :: rest) =>
    startBlock place (indent + 2) ++ keyText (indent + 2) k ++
      writeValue (indent + 2) (valuePlace (indent + 2) k) v ++ writeFields (indent + 2) rest
  | v => placeAtom indent place v

/-- Items after the first. -/
def writeItems (indent : Nat) : List Json → List Char
  | [] => []
  | v :: rest =>
    newLine indent ++ '-' :: ' ' :: writeValue indent .beside v ++ writeItems indent rest

/-- Fields after the first. -/
def writeFields (indent : Nat) : List (String × Json) → List Char
  | [] => []
  | (k, v) :: rest =>
    newLine indent ++ keyText indent k ++ writeValue indent (valuePlace indent k) v ++
      writeFields indent rest
end

/-- Whether a value at the root is written without quotes or brackets. -/
def isPlainRoot : Json → Bool
  | .arr _ | .obj _ => false
  | .str s => quoting false s.toList = .plain
  | _ => true

/-- The root of a document. -/
def writeRoot : Json → List Char
  | .arr (v :: rest) => '-' :: ' ' :: writeValue 0 .beside v ++ writeItems 0 rest
  | .obj ((k, v) :: rest) =>
    keyText 0 k ++ writeValue 0 (valuePlace 0 k) v ++ writeFields 0 rest
  | v => writeAtom ⟨true, 2⟩ 0 v

/-- A value as a document of its own. A plain scalar needs a mark that it has ended. -/
def document (v : Json) : String :=
  let ending := if isPlainRoot v then "\n...\n".toList else ['\n']
  String.ofList (writeRoot v ++ ending)

end ResourceApi.Yaml
