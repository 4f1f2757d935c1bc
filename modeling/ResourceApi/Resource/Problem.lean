import ResourceApi.Disk.Basic
import ResourceApi.Json.Reader
import ResourceApi.Json.Shown
import ResourceApi.Text.UpperCase
import ResourceApi.Validation.Fault

/-! # Problems of a schema

Why a schema is not compiled. A problem belongs to one of seven kinds, may point at
a field, and is reported together with the source it was found in. -/

namespace ResourceApi

/-- The field of a schema that describes the resource. -/
def configKey : String := "x-documentConfig"

inductive Problem where
  | unreadable (reason : DiskError)
  | notJson (error : Json.ReadError)
  /-- The text is JSON but no object. -/
  | notObject
  | noConfig
  /-- The named text of the configuration is missing or empty. -/
  | noConfigName (key : String)
  /-- A part of the configuration has a fault; the finding's path starts inside it. -/
  | badConfig (finding : Finding)
  | rootNotObject
  /-- There is no object of properties at this place. -/
  | noProperties (place : String)
  | propertyNotObject (place : String)
  | unknownMethod (token : Json)
  /-- Parameters were meant for an operation that is not there. -/
  | noOperation (verb route : String)
  /-- What stands in the place of an operation can have no parameters. -/
  | notOperation (verb route : String)
  /-- The document is not an API description; the first of its faults is given. -/
  | badDocument (faults : Nat) (place : String) (first : Fault)

/-- The kinds of problem. -/
inductive ProblemKind where
  | loading
  | configuration
  | shape
  | method
  | patching
  | operation
  | document
  deriving DecidableEq

namespace Problem

def kind : Problem → ProblemKind
  | unreadable _ | notJson _ => .loading
  | notObject | rootNotObject | noProperties _ | propertyNotObject _ => .shape
  | noConfig | noConfigName _ | badConfig _ => .configuration
  | unknownMethod _ => .method
  | noOperation .. => .patching
  | notOperation .. => .operation
  | badDocument .. => .document

def message : Problem → String
  | unreadable reason => "Cannot read schema file: " ++ reason.message
  | notJson e => s!"Invalid JSON at line {e.line} column {e.column}: {e.fault.message}"
  | notObject => "Schema document must be a JSON object"
  | noConfig => configKey ++ " not found"
  | noConfigName key => configKey ++ "." ++ key ++ " not found"
  | badConfig finding => finding.fault.message
  | rootNotObject => "Schema root must be of type object"
  | noProperties _ => "Invalid schema.properties"
  | propertyNotObject _ => "Property must be a schema object"
  | unknownMethod token => "Unknown document method " ++ token.shown
  | noOperation verb route =>
    "No " ++ Text.upper verb ++ " operation on " ++ route ++ " to attach parameters to"
  | notOperation verb route =>
    "No parameters fit what is at " ++ Text.upper verb ++ " of " ++ route
  | badDocument faults _ first =>
    s!"OpenAPI document failed shape validation ({faults} errors): " ++ first.message

/-- The field that a problem points at. -/
def field? : Problem → Option String
  | unreadable _ | notJson _ | notObject => none
  | noConfig => some configKey
  | noConfigName key => some (configKey ++ "." ++ key)
  | badConfig finding => some (configKey ++ "." ++ finding.location)
  | rootNotObject => some "type"
  | noProperties place | propertyNotObject place => some place
  | unknownMethod _ => some (configKey ++ ".methods")
  | noOperation .. | notOperation .. => some "paths"
  | badDocument _ place _ => some place

end Problem

/-- A problem and the source it was found in. -/
structure SchemaError where
  problem : Problem
  source : Option String

/-- The message with the field and the source, where there are any. -/
def SchemaError.message (e : SchemaError) : String :=
  let field := match e.problem.field? with
    | some f => if f == "" then "" else " (field: " ++ f ++ ")"
    | none => ""
  let source := match e.source with
    | some s => if s == "" then "" else " in " ++ s
    | none => ""
  e.problem.message ++ field ++ source

end ResourceApi
