import ResourceApi.Json.Writer
import ResourceApi.Outcome
import ResourceApi.Resource.Normal

/-! # Schema files

A file holds one schema. Normalizing a file gives the normal form of its schema, and
may write it back in place of what the file held. A string of the file may hold one half
of a surrogate pair, by its escape; no bytes stand for that, so the schema can be read
and not be written. -/

namespace ResourceApi.SchemaFile

/-- A problem of the schema at a path. -/
def problem (p : Path) (cause : Problem) : Halt := .schema ⟨cause, some p.toString⟩

/-- The schema that the text of the file at a path holds. -/
def parse (p : Path) (text : String) : Except Halt (Fields Json) :=
  match Json.read text with
  | .error ⟨.longInt digits, _, _⟩ => .error (.longInt digits)
  | .error e => .error (problem p (.notJson e))
  | .ok (.obj schema) => .ok schema
  | .ok _ => .error (problem p .notObject)

/-- The schema that a file holds. A path that no disk takes is no problem of a schema. -/
def load (d : Disk) (p : Path) : Except Halt (Fields Json) :=
  match d.readBytes p with
  | .error .nullInName => .error (.disk .nullInName)
  | .error reason => .error (problem p (.unreadable reason))
  | .ok bytes =>
    match textOfBytes bytes with
    | .error fault => .error (.notUnicode (.decoding fault))
    | .ok text => parse p text

/-- The text of a file that holds the schema. -/
def text (schema : Fields Json) : String := (Json.obj schema).indented ++ "\n"

/-- Writes a normalized schema to its file, unless it holds an integer that is not written. -/
def store (d : Disk) (p : Path) (schema : Fields Json) : Outcome (Fields Json) :=
  match (Json.obj schema).longInt? with
  | some digits => ⟨d, [], .error (.longInt digits)⟩
  | none =>
    match d.writeText p (text schema) with
    | .error reason => ⟨d, [], .error (.disk reason)⟩
    | .ok d => ⟨d, [.normalized p.toString], .ok schema⟩

/-! ## Halves of surrogate pairs -/

/-- The normal form of the schema in a text, with `half` in the place of halves of surrogate
pairs. -/
def normalWith (half : Char) (text : String) : Option (Fields Json) := do
  let v ← (Json.readWith half text).toOption
  let schema ← v.fields?
  (normalForm schema).toOption

/-- Whether the normal form of the schema in a text holds half of a surrogate pair. It does if it is
another one with another character in the place of halves. -/
def holdsHalf (text : String) : Bool :=
  decide (normalWith '\ufffd' text ≠ normalWith '\ufffe' text)

/-- Whether the normal form of the schema at a path holds half of a surrogate pair. -/
def halved (d : Disk) (p : Path) : Bool :=
  match d.readBytes p with
  | .error _ => false
  | .ok bytes =>
    match textOfBytes bytes with
    | .error _ => false
    | .ok text => holdsHalf text

/-- What writing half of a surrogate pair comes to: the file is opened anew, and so empty, before
it turns out that there is nothing to write. -/
def spoil (d : Disk) (p : Path) : Outcome (Fields Json) :=
  match d.writeText p "" with
  | .error reason => ⟨d, [], .error (.disk reason)⟩
  | .ok d => ⟨d, [], .error (.notUnicode .encoding)⟩

/-- Writes the normal form of the schema at a path back to it. -/
def replace (d : Disk) (p : Path) (normal : Fields Json) : Outcome (Fields Json) :=
  if halved d p then spoil d p else store d p normal

/-! ## Normalizing -/

/-- The normal form of the schema at a path, written back to it if asked for. -/
def normalize (d : Disk) (p : Path) (write : Bool) : Outcome (Fields Json) :=
  match load d p with
  | .error h => ⟨d, [], .error h⟩
  | .ok schema =>
    let noticed : Outcome (Fields Json) :=
      ⟨d, DocumentConfig.notices schema (some p.toString), (normalForm schema).mapError (problem p)⟩
    noticed.andThen fun d normal => if write then replace d p normal else ⟨d, [], .ok normal⟩

end ResourceApi.SchemaFile
