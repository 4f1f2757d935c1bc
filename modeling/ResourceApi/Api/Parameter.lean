import ResourceApi.Json.Basic

/-! # Parameters of operations

A parameter carries the scalar constraints of the property it stands for: the item
route has the identifier in its path, and the collection is filtered by query
parameters. Objects cannot be flat query values and are skipped, arrays are given
as texts, and a range-filtered property also has a lower and an upper bound. -/

namespace ResourceApi

/-- Where a parameter is given. -/
inductive Placement where
  | path
  | query
  deriving DecidableEq

def Placement.name : Placement → String
  | path => "path"
  | query => "query"

structure Parameter where
  name : String
  placement : Placement
  required : Bool
  schema : Fields Json
  description : Option Json

namespace Parameter

def toJson (p : Parameter) : Json :=
  .obj ([("name", .str p.name), ("in", .str p.placement.name), ("required", .bool p.required),
    ("schema", .obj p.schema)] ++ (p.description.map fun d => ("description", d)).toList)

/-- The keywords that a parameter's schema takes over from its property. -/
def scalarKeywords : List String :=
  ["type", "format", "x-format", "minLength", "maxLength", "minimum", "maximum", "enum"]

/-- The scalar constraints of a property; null counts as absent. -/
def scalarSchema (property : Fields Json) : Fields Json :=
  scalarKeywords.filterMap fun key => (property.nonNull? key).map (key, ·)

/-- A description that says something. -/
def description? (property : Fields Json) : Option Json :=
  (property.get? "description").filter (!·.isFalsy)

/-- The identifier of an item, as a part of its path. -/
def identifier (property : Fields Json) : Parameter :=
  ⟨"id", .path, true, scalarSchema property, description? property⟩

/-- The value of `x-format` that asks for range filters. -/
def rangeFormat : String := "minMax"

def hasType (property : Fields Json) (type : String) : Bool :=
  property.get? "type" = some (.str type)

/-- The constraints of a property as a query value. -/
def querySchema (property : Fields Json) : Fields Json :=
  if hasType property "array" then (scalarSchema property).put "type" (.str "string")
  else scalarSchema property

/-- The query parameters of one property. -/
def queries (name : String) (property : Fields Json) : List Parameter :=
  if hasType property "object" then []
  else
    let query (name : String) (description : Option Json) : Parameter :=
      ⟨name, .query, false, querySchema property, description⟩
    let bounds := if property.get? "x-format" = some (.str rangeFormat) then
      [query ("min_" ++ name) none, query ("max_" ++ name) none] else []
    query name (description? property) :: bounds

/-- The query parameters of all properties, in their order. -/
def ofProperties (properties : Fields Json) : List Parameter :=
  properties.flatMap fun p => match p.2 with
    | .obj property => queries p.1 property
    | _ => []

end Parameter
end ResourceApi
