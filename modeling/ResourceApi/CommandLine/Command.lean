import ResourceApi.CommandLine.Words

/-! # Commands

The commands of the program, with what they understand and how they are described. -/

namespace ResourceApi.CommandLine

def programName : String := "schema-compiler"

inductive Command where
  | compile
  | normalize
  deriving DecidableEq

namespace Command

def all : List Command := [compile, normalize]

def name : Command → String
  | compile => "compile"
  | normalize => "normalize"

def ofName? (name : String) : Option Command := all.find? (·.name == name)

end Command

/-! ## Options -/

def helpOption : Spelling := ⟨"--help", .help, .flag true⟩

/-- The options that come before the name of a command. -/
def outerGrammar : Grammar where
  options := [⟨"-v", .verbose, .flag true⟩, ⟨"--verbose", .verbose, .flag true⟩, helpOption]
  mixed := false

def Command.grammar : Command → Grammar
  | compile => ⟨[⟨"-c", .config, .text⟩, ⟨"--config", .config, .text⟩, ⟨"-o", .output, .text⟩,
      ⟨"--output", .output, .text⟩, ⟨"--allow-id", .allowIdentifier, .flag true⟩,
      ⟨"--no-allow-id", .allowIdentifier, .flag false⟩, ⟨"--prefix", .routePrefix, .text⟩,
      ⟨"--no-write", .noWrite, .flag true⟩, helpOption], true⟩
  | normalize => ⟨[⟨"--check", .check, .flag true⟩, helpOption], true⟩

/-! ## Labels -/

def directoryLabel : String := "[SCHEMA_DIR]"

def filesLabel : String := "SCHEMA_FILES..."

def configLabel : String := "'-c' / '--config'"

def outputLabel : String := "'-o' / '--output'"

/-! ## Descriptions -/

/-- The words to call a command by; those of the program itself if there is none. -/
def callOf : Option Command → String
  | none => programName
  | some c => programName ++ " " ++ c.name

def usageOf (c : Option Command) : String :=
  "Usage: " ++ callOf c ++ " [OPTIONS] " ++ match c with
    | none => "COMMAND [ARGS]..."
    | some .compile => directoryLabel
    | some .normalize => filesLabel

def hintOf (c : Option Command) : String := "Try '" ++ callOf c ++ " --help' for help."

def purposeOf : Option Command → String
  | none => "Schema Compiler: build an OpenAPI spec from annotated JSON Schema files."
  | some .compile => "Compile every schema file of SCHEMA_DIR into one OpenAPI document."
  | some .normalize => "Rewrite required flags of SCHEMA_FILES into required lists."

/-- The lines that tell of the options of a command. -/
def optionLinesOf : Option Command → List String
  | none =>
    ["  -v, --verbose  Show debug logging.",
     "  --help         Show this message and exit.",
     "",
     "Commands:",
     "  compile    Compile every schema file of SCHEMA_DIR into one OpenAPI...",
     "  normalize  Rewrite required flags of SCHEMA_FILES into required lists."]
  | some .compile =>
    ["  -c, --config FILE           YAML or JSON options file.",
     "  -o, --output DIRECTORY      Output directory for the OpenAPI file.",
     "  --allow-id / --no-allow-id  Let post/put bodies carry a caller-supplied _id.",
     "  --prefix TEXT               Prefix for every route, e.g. /api.",
     "  --no-write                  Do not rewrite schema files with normalized",
     "                              required lists.",
     "  --help                      Show this message and exit."]
  | some .normalize =>
    ["  --check  Report files that are not normalized instead of rewriting them.",
     "  --help   Show this message and exit."]

def helpLinesOf (c : Option Command) : List String :=
  [usageOf c, "", "  " ++ purposeOf c, "", "Options:"] ++ optionLinesOf c

end ResourceApi.CommandLine
