import ResourceApi.CommandLine.Request
import ResourceApi.Compilation.Directory
import ResourceApi.Json.Likeness
import ResourceApi.Options.File
import ResourceApi.Text.ControlSequence

/-! # Running a command line

What a command line does to the disk, the lines it shows, in order, and how it ends.
A run breaks off where a file's bytes, its syntax or the disk do not let it go on. -/

namespace ResourceApi.CommandLine

inductive Line where
  | out (text : String)
  | err (text : String)
  deriving DecidableEq

/-- A line that tells of results; a control sequence is not passed on. -/
def Line.telling (text : String) : Line := .out (Text.plain text)

/-- A line that tells of a problem; a control sequence is not passed on. -/
def Line.warning (text : String) : Line := .err (Text.plain text)

/-- Why a run breaks off. -/
inductive Break where
  | halt (h : Halt)
  | options (p : OptionsProblem)

structure Report where
  disk : Disk
  lines : List Line
  exitCode : Nat := 0
  broken : Option Break := none

namespace Report

/-- The report with lines that come before it. -/
def after (lines : List Line) (r : Report) : Report := { r with lines := lines ++ r.lines }

def failure (d : Disk) (message : String) : Report :=
  { disk := d, lines := [.warning ("Error: " ++ message)], exitCode := 1 }

def usageFailure (d : Disk) (c : Option Command) (p : UsageProblem) : Report :=
  let usage := if p.showsUsage then [.err (usageOf c), .err (hintOf c), .err ""] else []
  { disk := d, lines := usage ++ [.warning ("Error: " ++ p.message)], exitCode := 2 }

def breaking (d : Disk) (b : Break) : Report :=
  { disk := d, lines := [], exitCode := 1, broken := some b }

def ofRefusal (d : Disk) (c : Command) : Refusal → Report
  | .usage p => usageFailure d c p
  | .disk reason => breaking d (.halt (.disk reason))

def ofHalt (d : Disk) (h : Halt) : Report :=
  match h.message? with
  | some message => failure d message
  | none => breaking d (.halt h)

def ofOptionsProblem (d : Disk) (p : OptionsProblem) : Report :=
  match p.message? with
  | some message => failure d message
  | none => breaking d (.options p)

end Report

/-- The lines of notices; details are left out unless asked for. -/
def noticeLines (verbose : Bool) (notices : List Notice) : List Line :=
  (notices.filter fun n => verbose || n.severity != .debug).map fun n =>
    .err (n.severity.label ++ " " ++ n.channel ++ ": " ++ n.message)

/-! ## Compiling -/

/-- The lines of a compilation whose document is written. -/
def compiledLines (c : Compilation) (p : Path) : List Line :=
  (c.failed.map fun f => .warning ("  Failed " ++ f.1 ++ ": " ++ f.2)) ++
    [.telling (s!"Compiled {c.compiled.length} schemas ({c.document.paths.length} paths, " ++
      s!"{c.document.schemas.length} component schemas)."),
     .telling ("OpenAPI spec saved to " ++ p.toString)]

def compileWith (verbose : Bool) (d : Disk) (options : Options) : Report :=
  match d.isDirectory options.schemaDir with
  | .error reason => .breaking d (.halt (.disk reason))
  | .ok false => .failure d ("Schema directory not found: " ++ options.schemaDir.toString)
  | .ok true =>
    let o := Compilation.ofDirectory options d
    let started : List Line := [.telling ("Compiling schemas in " ++ options.schemaDir.toString ++ "...")]
    let ending : Report := match o.result with
      | .ok (c, p) => { disk := o.disk, lines := compiledLines c p }
      | .error h => .ofHalt o.disk h
    ending.after (started ++ noticeLines verbose o.notices)

def compile (verbose : Bool) (d : Disk) (config : Option Path) (given : Overrides) : Report :=
  match config with
  | none => compileWith verbose d (Options.override {} given)
  | some p =>
    match Options.load d p given with
    | .ok options => compileWith verbose d options
    | .error problem => .ofOptionsProblem d problem

/-! ## Normalizing -/

/-- Normalizes files, or only checks them; `seen` files have been looked at before, of which
`changed` were not normalized. -/
def normalizeFiles (verbose check : Bool) (d : Disk) (seen changed : Nat) : List Path → Report
  | [] =>
    if check && 0 < changed then .failure d s!"{changed} of {seen} files are not normalized"
    else { disk := d, lines := [.telling s!"Checked {seen} files, {changed} changed."] }
  | p :: rest =>
    match SchemaFile.load d p with
    | .error h => .ofHalt d h
    | .ok before =>
      let o := SchemaFile.normalize d p (!check)
      let next : Report := match o.result with
        | .error h => .ofHalt o.disk h
        | .ok normal =>
          if (Json.obj before).alike (.obj normal) then
            normalizeFiles verbose check o.disk (seen + 1) changed rest
          else
            (normalizeFiles verbose check o.disk (seen + 1) (changed + 1) rest).after
              [.telling ((if check then "  Needs normalizing: " else "  Normalized: ") ++ p.toString)]
      next.after (noticeLines verbose o.notices)

/-! ## Everything -/

def Request.run (verbose : Bool) (d : Disk) : Request → Report
  | .help about => { disk := d, lines := (helpLinesOf about).map .out }
  | .compile config given => CommandLine.compile verbose d config given
  | .normalize files check => normalizeFiles verbose check d 0 0 files

/-- Runs the command that words start with. -/
def runCommand (verbose : Bool) (d : Disk) : List String → Report
  | [] => .usageFailure d none .commandMissing
  | name :: rest =>
    match Command.ofName? name with
    | some c =>
      match c.read d rest with
      | .ok request => request.run verbose d
      | .error refusal => .ofRefusal d c refusal
    | none =>
      match outerGrammar.read (name :: rest) with
      | .error p => .usageFailure d none p
      | .ok (given, _) =>
        if (flag? given .help).isSome then Request.run verbose d (.help none)
        else .usageFailure d none (.noSuchCommand name
          (Text.nearest name (Command.all.map Command.name)))

/-- What a command line does. -/
def run (d : Disk) (args : List String) : Report :=
  if args.isEmpty then { disk := d, lines := (helpLinesOf none).map .err, exitCode := 2 }
  else match outerGrammar.read args with
    | .error p => .usageFailure d none p
    | .ok (given, words) =>
      if (flag? given .help).isSome then Request.run false d (.help none)
      else runCommand (flag? given .verbose).isSome d words

end ResourceApi.CommandLine
