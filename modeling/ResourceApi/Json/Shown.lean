import ResourceApi.Json.Basic
import ResourceApi.Number.Shortest
import ResourceApi.Text.Quoted

/-! # Values in messages

How a message shows a JSON value: texts quoted as messages quote them, and the
names `None`, `True` and `False`. -/

namespace ResourceApi.Json

def shownFloatStyle : FloatStyle := ⟨false, "inf", "nan"⟩

mutual
def shown : Json → String
  | null => "None"
  | bool b => if b then "True" else "False"
  | int n => toString n
  | float x => x.write shownFloatStyle
  | str s => Text.quoted s
  | arr items => "[" ++ ", ".intercalate (shownItems items) ++ "]"
  | obj fields => "\x7b" ++ ", ".intercalate (shownFields fields) ++ "\x7d"

def shownItems : List Json → List String
  | [] => []
  | v :: rest => shown v :: shownItems rest

def shownFields : List (String × Json) → List String
  | [] => []
  | (n, v) :: rest => (Text.quoted n ++ ": " ++ shown v) :: shownFields rest
end

end ResourceApi.Json
