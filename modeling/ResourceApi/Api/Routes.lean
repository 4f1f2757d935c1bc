import ResourceApi.Api.Operation

/-! # Routes of a resource

A resource has two routes, one for the collection and one for an item of it, and
each of its methods is an operation on one of them. -/

namespace ResourceApi

/-- What a route prefix puts before a route: the prefix without the slashes it ends in. -/
def routeStem (routePrefix : String) : String :=
  String.ofList (routePrefix.toList.reverse.dropWhile (· == '/')).reverse

def collectionRoute (config : DocumentConfig) (routePrefix : String) : String :=
  routeStem routePrefix ++ "/" ++ config.lowerName

def itemRoute (config : DocumentConfig) (routePrefix : String) : String :=
  collectionRoute config routePrefix ++ "/\x7bid\x7d"

/-- The methods that a configuration names, if all of them are known. -/
def knownMethods : List String → Except Problem (List Method)
  | [] => .ok []
  | name :: rest => do
    let m ← Method.ofToken (.str name)
    let ms ← knownMethods rest
    pure (m :: ms)

/-- The operations of one route by their verbs, behind the names of the resource. A later
operation takes the place of an earlier one on its verb. -/
def pathItem (config : DocumentConfig) (properties : Fields Json) (methods : List Method) :
    Fields Json :=
  let names : Fields Json := [("x-documentName", .str config.documentName),
    ("x-interfaceName", .str config.interfaceName)]
  methods.foldl (fun item m => item.put m.verb (Operation.ofMethod m config properties).toJson) names

/-- The two path items of a resource, the collection's first. -/
def pathItems (config : DocumentConfig) (properties : Fields Json) (methods : List Method)
    (routePrefix : String) : Fields Json :=
  [(collectionRoute config routePrefix,
      .obj (pathItem config properties (methods.filter (!·.onItem)))),
   (itemRoute config routePrefix,
      .obj (pathItem config properties (methods.filter (·.onItem))))]

/-- The path items of the resource that a schema describes. -/
def buildPaths (schema : Fields Json) (routePrefix : String) : Except Problem (Fields Json) := do
  let config ← DocumentConfig.ofSchema schema
  let properties ← properties schema
  let methods ← knownMethods config.methods
  pure (pathItems config properties methods routePrefix)

end ResourceApi
