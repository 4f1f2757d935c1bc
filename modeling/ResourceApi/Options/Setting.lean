import ResourceApi.Json.Basic
import ResourceApi.Options.Basic
import ResourceApi.Validation.Scalar

/-! # Options from settings

Options are read from a map of settings. Most of them have two spellings, of which
the first that is there counts. Every fault is found, in the order of the options. -/

namespace ResourceApi

/-- A value as far as options are read from it: a scalar, or a map from names. -/
inductive Setting where
  | scalar (s : Scalar)
  | map (fields : List (String × Setting))

namespace Setting

mutual
def ofJson : Json → Setting
  | .null => scalar .other
  | .bool b => scalar (.bool b)
  | .int n => scalar (.int n)
  | .float x => scalar (.float x)
  | .str s => scalar (.text s)
  | .arr _ => scalar .other
  | .obj fields => map (ofFields fields)

def ofFields : List (String × Json) → Fields Setting
  | [] => []
  | (name, v) :: rest => (name, ofJson v) :: ofFields rest
end

def asScalar : Setting → Scalar
  | scalar s => s
  | map _ => .other

def readText (s : Setting) : Except Fault String := s.asScalar.readText

def readBool (s : Setting) : Except Fault Bool := s.asScalar.readBool

def readPath (s : Setting) : Except Fault Path :=
  match s.asScalar with
  | .text t => .ok (.ofString t)
  | _ => .error .notPath

end Setting

/-- A value, unless there are findings. -/
structure Checked (α : Type) where
  value : α
  findings : List Finding

namespace Checked

def toExcept {α : Type} (c : Checked α) : Except (List Finding) α :=
  if c.findings.isEmpty then .ok c.value else .error c.findings

/-- An optional field by either of its spellings, with its value if it is left out or has a
fault. -/
def field {α : Type} (fields : Fields Setting) (spellings : List String) (absent : α)
    (read : Setting → Except Fault α) : Checked α :=
  match spellings.findSome? fun name => (fields.get? name).map (name, ·) with
  | none => ⟨absent, []⟩
  | some (name, s) => match read s with
    | .ok a => ⟨a, []⟩
    | .error f => ⟨absent, [⟨[name], f⟩]⟩

end Checked

def ApiInfo.ofFields (fields : Fields Setting) : Checked ApiInfo :=
  let absent : ApiInfo := {}
  let title := Checked.field fields ["title"] absent.title Setting.readText
  let description := Checked.field fields ["description"] absent.description Setting.readText
  let version := Checked.field fields ["version"] absent.version Setting.readText
  ⟨⟨title.value, description.value, version.value⟩,
    title.findings ++ description.findings ++ version.findings⟩

/-- The `info` block at a field of its own. -/
def ApiInfo.ofField (fields : Fields Setting) : Checked ApiInfo :=
  match fields.get? "info" with
  | none => ⟨{}, []⟩
  | some (.scalar _) => ⟨{}, [⟨["info"], .notRecord "ApiInfo"⟩]⟩
  | some (.map inner) =>
    let info := ofFields inner
    { info with findings := info.findings.map (Finding.under "info") }

namespace Options

/-- The spellings of the options that name directories. -/
def schemaDirKeys : List String := ["jsonSchemaDir", "json_schema_dir"]

def outputDirKeys : List String := ["openapiDir", "openapi_dir"]

def ofFields (fields : Fields Setting) : Checked Options :=
  let absent : Options := {}
  let schemaDir := Checked.field fields schemaDirKeys absent.schemaDir Setting.readPath
  let outputDir := Checked.field fields outputDirKeys absent.outputDir Setting.readPath
  let outputFile :=
    Checked.field fields ["openapiFile", "openapi_file"] absent.outputFile Setting.readText
  let allowIdentifier :=
    Checked.field fields ["allowApiCreateUpdate_id", "allow_api_create_update_id"]
      absent.allowIdentifier Setting.readBool
  let routePrefix :=
    Checked.field fields ["routePrefix", "route_prefix"] absent.routePrefix Setting.readText
  let writeNormalized :=
    Checked.field fields ["writeNormalized", "write_normalized"] absent.writeNormalized
      Setting.readBool
  let info := ApiInfo.ofField fields
  ⟨{ schemaDir := schemaDir.value, outputDir := outputDir.value, outputFile := outputFile.value,
     allowIdentifier := allowIdentifier.value, routePrefix := routePrefix.value,
     writeNormalized := writeNormalized.value, info := info.value },
   schemaDir.findings ++ outputDir.findings ++ outputFile.findings ++
     allowIdentifier.findings ++ routePrefix.findings ++ writeNormalized.findings ++
     info.findings⟩

/-- The options that a value gives. -/
def ofSetting : Setting → Except (List Finding) Options
  | .map fields => (ofFields fields).toExcept
  | .scalar _ => .error [⟨[], .notRecord "CompilerOptions"⟩]

end Options
end ResourceApi
