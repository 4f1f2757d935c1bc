import ResourceApi.Api.Document
import ResourceApi.Resource.File

/-! # Compiling schema files

Files are compiled one after the other into one document. A file with a problem is
passed over and adds nothing; only when every file has one does the run fail. -/

namespace ResourceApi

/-- What has become of the files so far. -/
structure Compilation where
  document : Document
  compiled : List Path := []
  /-- The message of each path that was passed over. -/
  failed : Fields String := []

namespace Compilation

/-- Normalizes a file and adds its resource to a document. -/
def compileFile (options : Options) (d : Disk) (document : Document) (p : Path) :
    Outcome Document :=
  (SchemaFile.normalize d p options.writeNormalized).andThen fun d schema =>
    ⟨d, [], (document.addResource schema options).mapError (SchemaFile.problem p)⟩

def pass (c : Compilation) (p : Path) (document : Document) : Compilation :=
  { c with document, compiled := c.compiled ++ [p] }

def fail (c : Compilation) (p : Path) (message : String) : Compilation :=
  { c with failed := c.failed.put p.toString message }

/-- Compiles one file; a problem of its schema is noted and nothing is added. -/
def step (options : Options) (d : Disk) (c : Compilation) (p : Path) : Outcome Compilation :=
  let o := compileFile options d c.document p
  let (notices, result) : List Notice × Except Halt Compilation := match o.result with
    | .ok document => ([], .ok (c.pass p document))
    | .error (.schema e) => ([.skipped p.toString e.message], .ok (c.fail p e.message))
    | .error h => ([], .error h)
  ⟨o.disk, .compiling p.toString :: o.notices ++ notices, result⟩

def steps (options : Options) (d : Disk) (c : Compilation) : List Path → Outcome Compilation
  | [] => ⟨d, [], .ok c⟩
  | p :: rest => (step options d c p).andThen fun d c => steps options d c rest

/-- Compiles files, in order, into a document to start from. -/
def ofFiles (options : Options) (start : Document) (d : Disk) (paths : List Path) :
    Outcome Compilation :=
  (steps options d { document := start } paths).andThen fun d c =>
    if !paths.isEmpty && c.compiled.isEmpty then ⟨d, [], .error (.allFailed paths.length)⟩
    else ⟨d, [], .ok c⟩

end Compilation

/-- The empty document that the options describe. -/
def Options.start (o : Options) : Document := { info := o.info }

end ResourceApi
