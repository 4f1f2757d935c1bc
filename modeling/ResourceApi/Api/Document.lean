import ResourceApi.Api.Components
import ResourceApi.OpenApi.Check
import ResourceApi.Options.Basic
import ResourceApi.Resource.Normal

/-! # API documents

The document that collects the paths and component schemas of resources. Adding a
resource gives a new document in which its entries take the place of earlier ones
of the same key. -/

namespace ResourceApi

def ApiInfo.toJson (i : ApiInfo) : Json :=
  .obj [("title", .str i.title), ("description", .str i.description), ("version", .str i.version)]

structure Document where
  openapi : String := "3.0.0"
  info : ApiInfo := {}
  paths : Fields Json := []
  schemas : Fields Json := []

namespace Document

def merge (d : Document) (paths schemas : Fields Json) : Document :=
  { d with paths := d.paths.merge paths, schemas := d.schemas.merge schemas }

def toJson (d : Document) : Json :=
  .obj [("openapi", .str d.openapi), ("info", d.info.toJson), ("paths", .obj d.paths),
    ("components", .obj [("schemas", .obj d.schemas)])]

/-- Adds the paths of the resource that a schema describes. -/
def addPaths (d : Document) (schema : Fields Json) (routePrefix : String) :
    Except Problem Document := do
  let paths ← buildPaths schema routePrefix
  pure (d.merge paths [])

/-- Adds the component schemas of a resource whose paths are in the document, and sets the
parameters of its operations. -/
def addComponents (d : Document) (schema : Fields Json) (options : Options) :
    Except Problem Document := do
  let components ← buildComponents schema options.allowIdentifier options.routePrefix
  let patched ← applyPatches d.paths [] components.patches
  pure (d.merge patched components.schemas)

/-- Adds the resource that a normalized schema describes. -/
def addResource (d : Document) (schema : Fields Json) (options : Options) :
    Except Problem Document := do
  let paths ← buildPaths schema options.routePrefix
  let components ← buildComponents schema options.allowIdentifier options.routePrefix
  let patched ← applyPatches paths [] components.patches
  pure (d.merge (paths.merge patched) components.schemas)

end Document

/-- A value that is an API description, or the first of its faults. -/
def checkedDescription (document : Json) : Except Problem Json :=
  match OpenApi.faults document with
  | [] => .ok document
  | (place, fault) :: rest => .error (.badDocument (rest.length + 1) place fault)

/-- The finished document. -/
def Document.finish (d : Document) : Except Problem Json := checkedDescription d.toJson

end ResourceApi
