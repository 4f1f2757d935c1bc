import ResourceApi.Disk.Basic
import ResourceApi.Options.Setting
import ResourceApi.Yaml.Value

/-! # Options files

A file of options holds a map in YAML. Directories that the file gives are seen
from its own directory, and options given apart from the file go before it. -/

namespace ResourceApi

namespace Setting

mutual
/-- A value of a document; lists, sets and points in time are no setting of any option. -/
def ofYaml : Yaml.Value → Setting
  | .bool b => scalar (.bool b)
  | .int n => scalar (.int n)
  | .float x => scalar (.float x)
  | .text s => scalar (.text s)
  | .bytes bs => scalar (.bytes (String.fromUTF8? bs.toByteArray))
  | .map fields => map (ofYamlFields fields)
  | .null | .moment | .list _ | .set _ | .deeper => scalar .other

def ofYamlFields : List (String × Yaml.Value) → Fields Setting
  | [] => []
  | (name, v) :: rest => (name, ofYaml v) :: ofYamlFields rest
end

end Setting

/-- Why a file gives no options. -/
inductive OptionsProblem where
  | unreadable (reason : DiskError)
  | notUnicode (fault : Utf8Fault)
  | notYaml (fault : Yaml.ReadFault)
  /-- The file holds a value that is no map. -/
  | notMap (path : Path)
  | invalid (path : Path) (findings : List Finding)

namespace OptionsProblem

/-- The message that a run ends with; none for a problem of the disk or of the grammar, which
breaks it off. -/
def message? : OptionsProblem → Option String
  | unreadable .nullInName => some DiskError.nullInName.message
  | unreadable _ => none
  | notUnicode fault => some fault.message
  | notYaml fault => fault.message?
  | notMap path => some ("Options file must contain a mapping: " ++ path.toString)
  | invalid path _ => some ("Invalid options in " ++ path.toString)

end OptionsProblem

namespace Options

/-- The key of the identifier option, which older files have in a section of its own. -/
def identifierKey : String := "allowApiCreateUpdate_id"

def sectionKey : String := "app"

/-- The settings with the section taken out; its identifier option stands in for one that is not
there. -/
def liftSection (settings : Fields Setting) : Fields Setting :=
  let own := settings.erase sectionKey
  match settings.get? sectionKey with
  | some (.map inner) =>
    match Fields.get? inner identifierKey with
    | some s => if own.has identifierKey then own else own.put identifierKey s
    | none => own
  | _ => own

/-- A directory of an option, seen from `base` if the settings give it. -/
def directoryFrom (base : Path) (settings : Fields Setting) (keys : List String) (dir : Path) :
    Path :=
  if keys.any settings.has then base.join dir else dir

/-- The options that the settings of the file at `path` give. -/
def ofSettings (path : Path) (settings : Fields Setting) : Except OptionsProblem Options :=
  let settings := liftSection settings
  match (ofFields settings).toExcept with
  | .error findings => .error (.invalid path findings)
  | .ok o =>
    .ok { o with
      schemaDir := directoryFrom path.parent settings schemaDirKeys o.schemaDir
      outputDir := directoryFrom path.parent settings outputDirKeys o.outputDir }

/-- How deep settings lie: in the map, in its `info` block, and its section. -/
def settingsDepth : Nat := 3

/-- The settings in the text of the file at `path`; a value that is taken for no has none. -/
def settingsOfText (path : Path) (text : String) : Except OptionsProblem (Fields Setting) :=
  match Yaml.read text with
  | .error fault => .error (.notYaml fault)
  | .ok none => .ok []
  | .ok (some document) =>
    let v := document.value settingsDepth
    if v.isFalsy then .ok []
    else match Setting.ofYaml v with
      | .map settings => .ok settings
      | .scalar _ => .error (.notMap path)

/-- The options of the file at `path`, with `given` going before them. -/
def load (d : Disk) (path : Path) (given : Overrides) : Except OptionsProblem Options := do
  let bytes ← (d.readBytes path).mapError OptionsProblem.unreadable
  let text ← (textOfBytes bytes).mapError OptionsProblem.notUnicode
  let settings ← settingsOfText path text
  let o ← ofSettings path settings
  pure (o.override given)

end Options
end ResourceApi
