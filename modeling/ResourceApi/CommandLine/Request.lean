import ResourceApi.CommandLine.Command
import ResourceApi.Disk.Basic
import ResourceApi.Options.Basic

/-! # Requests

What a command line asks for. The words are read first; then the values are checked
against the disk, those of options in the order in which they are given. A path that
no disk takes ends the reading at once. -/

namespace ResourceApi.CommandLine

inductive Request where
  | help (about : Option Command)
  /-- Options to compile with, those of a file among them if there is one. -/
  | compile (config : Option Path) (given : Overrides)
  | normalize (files : List Path) (check : Bool)

/-- Why nothing can be asked for. -/
inductive Refusal where
  | usage (p : UsageProblem)
  /-- A path is given that no disk takes. -/
  | disk (reason : DiskError)
  deriving DecidableEq

/-! ## Checks of values -/

inductive Kind where
  | file
  | directory
  deriving DecidableEq

def Kind.name : Kind → String
  | file => "file"
  | directory => "directory"

def Kind.title : Kind → String
  | file => "File"
  | directory => "Directory"

def kindOf : Entry → Kind
  | .file _ => .file
  | .directory => .directory

/-- A path to an entry of a kind; it may be that nothing is there unless `mustExist`. -/
def checkPath (d : Disk) (kind : Kind) (mustExist : Bool) (label text : String) :
    Except Refusal Path :=
  let fault (reason : String) : Except Refusal Path :=
    .error (.usage (.badValue label (kind.title ++ " " ++ Text.quoted text ++ reason)))
  match d.lookupText text with
  | .error .nullInName => .error (.disk .nullInName)
  | .error _ => if mustExist then fault " does not exist." else .ok (.ofString text)
  | .ok e => if kindOf e = kind then .ok (.ofString text)
    else fault (" is a " ++ (kindOf e).name ++ ".")

/-- A label between single quotes. -/
def labelled (label : String) : String := "'" ++ label ++ "'"

def checkOption (d : Disk) : Given → Except Refusal Unit
  | .text .config s => (checkPath d .file true configLabel s).map fun _ => ()
  | .text .output s => (checkPath d .directory false outputLabel s).map fun _ => ()
  | _ => .ok ()

def checkOptions (d : Disk) : List Given → Except Refusal Unit
  | [] => .ok ()
  | o :: rest => do
    checkOption d o
    checkOptions d rest

def checkFiles (d : Disk) : List String → Except Refusal (List Path)
  | [] => .ok []
  | text :: rest => do
    let p ← checkPath d .file true (labelled filesLabel) text
    let ps ← checkFiles d rest
    pure (p :: ps)

/-! ## Reading a request -/

/-- The options to compile with that a command line gives. -/
def overridesOf (given : List Given) (schemaDir : Option Path) : Overrides where
  schemaDir := schemaDir
  outputDir := (text? given .output).map Path.ofString
  allowIdentifier := flag? given .allowIdentifier
  routePrefix := text? given .routePrefix
  writeNormalized := (flag? given .noWrite).map (!·)

def Command.request (d : Disk) (given : List Given) (words : List String) :
    Command → Except Refusal Request
  | compile => do
    let schemaDir ← match words.head? with
      | none => pure none
      | some text => (checkPath d .directory true (labelled directoryLabel) text).map some
    if words.length > 1 then throw (.usage (.argumentsLeft (words.drop 1)))
    pure (.compile ((text? given .config).map Path.ofString) (overridesOf given schemaDir))
  | normalize => do
    if words.isEmpty then throw (.usage (.argumentMissing filesLabel))
    let files ← checkFiles d words
    pure (.normalize files ((flag? given .check).getD false))

/-- What the words behind the name of a command ask for. -/
def Command.read (d : Disk) (c : Command) (args : List String) : Except Refusal Request := do
  let (given, words) ← (c.grammar.read args).mapError Refusal.usage
  let given := settle given
  if (flag? given .help).isSome then return .help c
  checkOptions d given
  c.request d given words

end ResourceApi.CommandLine
