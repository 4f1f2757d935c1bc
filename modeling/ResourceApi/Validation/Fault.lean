/-! # Faults of a value

Why a value is not what a place calls for. A fault is placed by the path of names
and positions that leads to it. -/

namespace ResourceApi

inductive Fault where
  | missing
  | notText
  | notUnicode
  | notBool
  | unclearBool
  | notInt
  | unclearInt
  | fractionalInt
  | oversizeInt
  | notFinite
  | belowZero
  | notNumber
  | unclearNumber
  | notAboveZero
  | notList
  | emptyList
  | notObject
  /-- The value is no object, which the named kind of record is read from. -/
  | notRecord (name : String)
  | notPath
  /-- The value is none of the names, of which there are at least two. -/
  | notOneOf (names : List String)
  deriving DecidableEq

namespace Fault

/-- `'a', 'b' or 'c'` -/
def alternatives (names : List String) : String :=
  let quotedNames := names.map fun n => "'" ++ n ++ "'"
  ", ".intercalate quotedNames.dropLast ++ " or " ++ quotedNames.getLastD ""

def message : Fault → String
  | missing => "Field required"
  | notText => "Input should be a valid string"
  | notUnicode => "Input should be a valid string, unable to parse raw data as a unicode string"
  | notBool => "Input should be a valid boolean"
  | unclearBool => "Input should be a valid boolean, unable to interpret input"
  | notInt => "Input should be a valid integer"
  | unclearInt => "Input should be a valid integer, unable to parse string as an integer"
  | fractionalInt => "Input should be a valid integer, got a number with a fractional part"
  | oversizeInt => "Unable to parse input string as an integer, exceeded maximum size"
  | notFinite => "Input should be a finite number"
  | belowZero => "Input should be greater than or equal to 0"
  | notNumber => "Input should be a valid number"
  | unclearNumber => "Input should be a valid number, unable to parse string as a number"
  | notAboveZero => "Input should be greater than 0"
  | notList => "Input should be a valid list"
  | emptyList => "List should have at least 1 item after validation, not 0"
  | notObject => "Input should be a valid dictionary"
  | notRecord name => "Input should be a valid dictionary or instance of " ++ name
  | notPath => "Input is not a valid path for <class 'pathlib.Path'>"
  | notOneOf names => "Input should be " ++ alternatives names

/-- The short name of a fault in reports. -/
def code : Fault → String
  | missing => "missing"
  | notText => "string_type"
  | notUnicode => "string_unicode"
  | notBool => "bool_type"
  | unclearBool => "bool_parsing"
  | notInt => "int_type"
  | unclearInt => "int_parsing"
  | fractionalInt => "int_from_float"
  | oversizeInt => "int_parsing_size"
  | notFinite => "finite_number"
  | belowZero => "greater_than_equal"
  | notNumber => "float_type"
  | unclearNumber => "float_parsing"
  | notAboveZero => "greater_than"
  | notList => "list_type"
  | emptyList => "too_short"
  | notObject => "dict_type"
  | notRecord _ => "model_type"
  | notPath => "path_type"
  | notOneOf _ => "literal_error"

end Fault

/-- A fault with the path that leads to it. -/
structure Finding where
  path : List String
  fault : Fault
  deriving DecidableEq

namespace Finding

/-- The path in one text, its steps joined by points. -/
def location (f : Finding) : String := ".".intercalate f.path

/-- The same fault seen from one step further out. -/
def under (step : String) (f : Finding) : Finding := { f with path := step :: f.path }

end Finding
end ResourceApi
