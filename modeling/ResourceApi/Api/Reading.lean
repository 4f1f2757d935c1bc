import ResourceApi.Api.Document
import ResourceApi.Options.Setting

/-! # Documents and patches from JSON

The parts of a document that a run may start with, and patches that are given apart
from the resource they come from. Every fault is found, in the order of the fields. -/

namespace ResourceApi

/-- What the fields of an object lack of shapes that are given by name; a name that is not there
is a fault if it has to be. -/
def lackingFields (fields : Fields Json) (required : Bool) (shapes : List (String × OpenApi.Shape)) :
    List Finding :=
  shapes.flatMap fun s =>
    match fields.get? s.1 with
    | some v => (OpenApi.check v s.2).map (Finding.under s.1)
    | none => if required then [⟨[s.1], .missing⟩] else []

/-- An object of objects. -/
def objectsShape : OpenApi.Shape := .map (.map .anything)

namespace Document

/-- The text of a field, and the fields of an object; both are empty if it is something else. -/
def textAt (fields : Fields Json) (name : String) : String :=
  ((fields.get? name).bind Json.str?).getD ""

def objectAt (fields : Fields Json) (name : String) : Fields Json :=
  ((fields.get? name).bind Json.fields?).getD []

/-- A document from its parts, each of which may be left out. -/
def ofFields (fields : Fields Json) : Except (List Finding) Document :=
  let absent : Document := {}
  let info := ApiInfo.ofField (Setting.ofFields fields)
  let findings := lackingFields fields false [("openapi", .text)] ++ info.findings ++
    lackingFields fields false [("paths", objectsShape), ("schemas", objectsShape)]
  if findings.isEmpty then
    .ok { openapi := if fields.has "openapi" then textAt fields "openapi" else absent.openapi
          info := info.value
          paths := objectAt fields "paths"
          schemas := objectAt fields "schemas" }
  else .error findings

end Document

/-- A patch from its parts, none of which may be left out. -/
def ParameterPatch.ofFields (fields : Fields Json) : Except (List Finding) ParameterPatch :=
  match lackingFields fields true
      [("route", .text), ("verb", .text), ("parameters", .list true (.map .anything))] with
  | [] => .ok ⟨Document.textAt fields "route", Document.textAt fields "verb",
      ((fields.get? "parameters").bind Json.items?).getD []⟩
  | findings => .error findings

end ResourceApi
