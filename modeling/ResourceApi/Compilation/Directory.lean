import ResourceApi.Compilation.Files
import ResourceApi.Yaml.Writer

/-! # Compiling a directory

All schema files of a directory are compiled in the order of their names, and the
document is checked and written as YAML. -/

namespace ResourceApi
namespace Compilation

/-- The ending of the names of schema files. -/
def schemaSuffix : String := ".json"

/-- The schema files among the names of a directory; the other files are noticed. -/
def schemaFiles (d : Disk) (dir : Path) : List String → Outcome (List Path)
  | [] => ⟨d, [], .ok []⟩
  | name :: rest =>
    let p := dir.child name
    match d.isDirectory p with
    | .error reason => ⟨d, [], .error (.disk reason)⟩
    | .ok true => schemaFiles d dir rest
    | .ok false =>
      let others := schemaFiles d dir rest
      if Path.suffix name = schemaSuffix then { others with result := others.result.map (p :: ·) }
      else { others with notices := .notSchemaFile p.toString :: others.notices }

/-- The schema files of a directory, in the order of their names. -/
def find (d : Disk) (dir : Path) : Outcome (List Path) :=
  match d.list dir with
  | .error reason => ⟨d, [], .error (.disk reason)⟩
  | .ok names => schemaFiles d dir names

/-- Writes a document that has no faults; its directory is made first. -/
def writeDocument (options : Options) (d : Disk) (document : Document) : Outcome Path :=
  let p := options.outputPath
  match d.makeDirectories p.parent with
  | .error reason => ⟨d, [], .error (.disk reason)⟩
  | .ok d =>
    match document.finish with
    | .error problem => ⟨d, [], .error (.schema ⟨problem, none⟩)⟩
    | .ok v =>
      match d.writeText p (Yaml.document v) with
      | .error reason => ⟨d, [], .error (.disk reason)⟩
      | .ok d => ⟨d, [.written p.toString], .ok p⟩

/-- Compiles the directory of the options and writes the document, whose path is given too. -/
def ofDirectory (options : Options) (d : Disk) : Outcome (Compilation × Path) :=
  (find d options.schemaDir).andThen fun d paths =>
    (ofFiles options options.start d paths).andThen fun d c =>
      (writeDocument options d c.document).andThen fun d p => ⟨d, [], .ok (c, p)⟩

end Compilation
end ResourceApi
