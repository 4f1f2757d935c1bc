import ResourceApi.Api.Parameter
import ResourceApi.Resource.Config

/-! # Operations

One operation for one method of a resource: which component schemas its request
and its response refer to, and which errors it may answer with. -/

namespace ResourceApi

/-- A reference to a component schema. -/
def componentRef (name : String) : Json := .obj [("$ref", .str ("#/components/schemas/" ++ name))]

/-- JSON content of the shape of a component schema. -/
def jsonContent (name : String) : Json :=
  .obj [("application/json", .obj [("schema", componentRef name)])]

/-- The component schema of a method's answer. -/
def responseName (verb interfaceName : String) : String := verb ++ interfaceName ++ "Response"

/-- The component schema of a method's request. -/
def bodyName (verb interfaceName : String) : String := verb ++ interfaceName ++ "Body"

/-- The component schema of a list of a method's answers. -/
def listName (verb interfaceName : String) : String := responseName verb interfaceName ++ "List"

structure Response where
  status : Nat
  description : String
  /-- The component schema of the content, if there is content. -/
  component : Option String

def Response.toJson (r : Response) : Json :=
  .obj (("description", .str r.description) ::
    (r.component.map fun c => ("content", jsonContent c)).toList)

/-- The answers to a request that fails, by rising status. -/
def failures : List Response := [
  ⟨400, "Bad Request", none⟩, ⟨401, "Unauthorized", none⟩, ⟨403, "Forbidden", none⟩,
  ⟨404, "Not Found", none⟩, ⟨405, "Method Not Allowed", none⟩, ⟨413, "Payload Too Large", none⟩,
  ⟨429, "Too Many Requests", none⟩, ⟨500, "Internal Server Error", none⟩,
  ⟨502, "Bad Gateway", none⟩, ⟨503, "Service Unavailable", none⟩]

structure RequestBody where
  description : String
  component : String

def RequestBody.toJson (b : RequestBody) : Json :=
  .obj [("description", .str b.description), ("required", .bool false),
    ("content", jsonContent b.component)]

structure Operation where
  id : String
  tag : String
  parameters : List Parameter
  body : Option RequestBody
  /-- By rising status. -/
  responses : List Response

namespace Operation

def toJson (o : Operation) : Json :=
  .obj ([("operationId", .str o.id), ("tags", .arr [.str o.tag]),
    ("parameters", .arr (o.parameters.map Parameter.toJson))] ++
    (o.body.map fun b => ("requestBody", b.toJson)).toList ++
    [("responses", .obj (o.responses.map fun r => (toString r.status, r.toJson)))])

/-- The answer to a request that succeeds. -/
def success (method : Method) (interfaceName : String) : Response :=
  let component := responseName method.verb interfaceName
  match method with
  | .post => ⟨201, "Created", some component⟩
  | .delete => ⟨200, "OK", none⟩
  | _ => ⟨200, "OK", some component⟩

/-- The operation of a method on a resource with the given properties. -/
def ofMethod (method : Method) (config : DocumentConfig) (properties : Fields Json) : Operation where
  id := method.name ++ config.interfaceName
  tag := config.lowerName
  parameters :=
    if method.onItem then
      (((properties.get? "_id").bind Json.fields?).map Parameter.identifier).toList
    else []
  body :=
    if method.hasBody then
      some ⟨method.verb ++ " " ++ config.documentName, bodyName method.verb config.interfaceName⟩
    else none
  responses := success method config.interfaceName :: failures

end Operation
end ResourceApi
