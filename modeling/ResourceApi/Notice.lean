/-! # Notices

What a run reports besides its result, in order. -/

namespace ResourceApi

inductive Severity where
  | debug
  | info
  | warning
  | error
  deriving DecidableEq

def Severity.label : Severity → String
  | debug => "DEBUG"
  | info => "INFO"
  | warning => "WARNING"
  | error => "ERROR"

inductive Notice where
  /-- A configuration names no methods and gets all of them. -/
  | allMethods (source : Option String)
  | normalized (path : String)
  | compiling (path : String)
  | skipped (path message : String)
  | notSchemaFile (path : String)
  | written (path : String)
  deriving DecidableEq

namespace Notice

def severity : Notice → Severity
  | allMethods _ | notSchemaFile _ => .warning
  | normalized _ => .debug
  | compiling _ | written _ => .info
  | skipped .. => .error

def message : Notice → String
  | allMethods source =>
    "x-documentConfig.methods not found in " ++ source.getD "None" ++ ", using all supported methods"
  | normalized path => "Normalized " ++ path
  | compiling path => "OpenApi : " ++ path
  | skipped path message => "Skipping " ++ path ++ ": " ++ message
  | notSchemaFile path => "Skipping non-JSON file: " ++ path
  | written path => "Writing OpenApi : " ++ path

/-- The part of the program that speaks. -/
def channel : Notice → String
  | allMethods _ => "schema_compiler.parser.schema"
  | normalized _ => "schema_compiler.parser.normalizer"
  | _ => "schema_compiler.generator.compiler"

end Notice
end ResourceApi
