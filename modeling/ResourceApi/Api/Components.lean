import ResourceApi.Api.Cleaning
import ResourceApi.Api.Routes
import ResourceApi.Resource.Required

/-! # Component schemas of a resource

The shapes in which a resource is sent and received, and which of them its methods
register. Listing a collection also sets the query parameters of its operation;
they are given as patches, to be applied to the paths. -/

namespace ResourceApi

/-- The keys by which a property is marked. -/
def markers : List String := ["index", "unique", "required"]

/-- What a resource looks like in an answer. -/
def responseShape (properties : Fields Json) : Fields Json :=
  [("type", .str "object"), ("properties", .obj (Removal.cleanEach ⟨markers, []⟩ properties))]

/-- An object schema; an empty list of required names is left out. -/
def objectShape (properties : Fields Json) (required : List Json) : Fields Json :=
  [("type", .str "object"), ("properties", .obj properties)] ++
    if required.isEmpty then [] else [("required", .arr required)]

/-- What a resource looks like in a request, its identifier included. -/
def bodyShape (properties : Fields Json) (required : List Json) : Fields Json :=
  objectShape (Removal.cleanEach ⟨[], markers⟩ properties) required

/-- The properties that an object schema lists. -/
def shapeProperties (shape : Fields Json) : Fields Json :=
  ((shape.get? "properties").bind Json.fields?).getD []

def shapeRequired (shape : Fields Json) : List Json :=
  ((shape.get? "required").bind Json.items?).getD []

/-- The name of the identifier among the properties. -/
def identifierName : String := "_id"

/-- A request without the identifier. -/
def withoutIdentifier (body : Fields Json) : Fields Json :=
  objectShape ((shapeProperties body).filter fun p => p.1 != identifierName)
    ((shapeRequired body).filter fun name => name != .str identifierName)

/-- A request of which any part may be missing. -/
def partialShape (body : Fields Json) : Fields Json :=
  [("type", .str "object"),
    ("properties", .obj (Removal.cleanEach ⟨["required"], []⟩ (shapeProperties body)))]

/-- Parameters that replace those of the operation `verb` on `route`. -/
structure ParameterPatch where
  route : String
  verb : String
  parameters : List Json

/-- What a resource adds to a document besides its paths. -/
structure Components where
  schemas : Fields Json
  patches : List ParameterPatch

/-- The shapes of one resource. -/
structure Shapes where
  response : Fields Json
  /-- The body of a request that creates or replaces. -/
  write : Fields Json
  /-- The body of a request that changes parts. -/
  change : Fields Json

def Shapes.of (properties : Fields Json) (required : List String) (allowIdentifier : Bool) :
    Shapes :=
  let body := bodyShape properties (required.map .str)
  ⟨responseShape properties, if allowIdentifier then body else withoutIdentifier body,
    partialShape (withoutIdentifier body)⟩

/-- The component schemas that a method registers. -/
def Shapes.registered (s : Shapes) (interfaceName : String) (m : Method) : List (String × Json) :=
  let response := (responseName m.verb interfaceName, Json.obj s.response)
  let body (shape : Fields Json) := (bodyName m.verb interfaceName, Json.obj shape)
  match m with
  | .get => [response]
  | .getList => [response, (listName m.verb interfaceName,
      .obj [("type", .str "array"), ("items", .obj s.response)])]
  | .patch => [body s.change, response]
  | .post | .put => [body s.write, response]
  | _ => []

/-- The components of the resource that a schema describes. -/
def buildComponents (schema : Fields Json) (allowIdentifier : Bool) (routePrefix : String) :
    Except Problem Components := do
  let config ← DocumentConfig.ofSchema schema
  let properties ← properties schema
  let methods ← knownMethods config.methods
  let required := Required.names ((schema.get? "required").getD .null)
  let shapes := Shapes.of properties required allowIdentifier
  let patches := methods.filter (· = .getList) |>.map fun m =>
    ⟨collectionRoute config routePrefix, m.verb,
      (Parameter.ofProperties properties).map Parameter.toJson⟩
  pure ⟨.ofPairs (methods.flatMap (shapes.registered config.interfaceName)), patches⟩

/-- Whether the characters stand somewhere in a text in a row. -/
def standsIn (part : List Char) : List Char → Bool
  | [] => part.isEmpty
  | c :: rest => part.isPrefixOf (c :: rest) || standsIn part rest

/-- A path item with the parameters of a patch set, for which it has to hold an operation of the
verb. A text or a list that holds the verb has no operation there, and a number holds nothing. -/
def ParameterPatch.set (p : ParameterPatch) (item : Json) : Except Problem (Fields Json) :=
  let absent := .error (.noOperation p.verb p.route)
  let unfit := .error (.notOperation p.verb p.route)
  if item.isFalsy then absent
  else match item with
    | .obj fields => match Fields.get? fields p.verb with
      | none => absent
      | some (.obj operation) =>
        .ok (Fields.put fields p.verb (.obj (Fields.put operation "parameters" (.arr p.parameters))))
      | some _ => unfit
    | .arr items => if items.contains (.str p.verb) then unfit else absent
    | .str s => if standsIn p.verb.toList s.toList then unfit else absent
    | _ => unfit

/-- The path item that a patch on a route goes on from: what an earlier patch left, unless that is
taken for no, and else the item of the paths. -/
def itemBefore? (paths patched : Fields Json) (route : String) : Option Json :=
  ((patched.get? route).filter (!·.isFalsy)).orElse fun _ => paths.get? route

/-- The path items with the patches applied, of those that are patched. Patches follow one
another, so the last one to an operation counts. -/
def applyPatches (paths : Fields Json) (patched : Fields Json) :
    List ParameterPatch → Except Problem (Fields Json)
  | [] => .ok patched
  | p :: rest => do
    let item ← p.set ((itemBefore? paths patched p.route).getD .null)
    applyPatches paths (patched.put p.route (.obj item)) rest

end ResourceApi
