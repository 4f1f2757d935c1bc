/-! # Shapes of an API description

What a place in an OpenAPI 3.0 document may hold. The objects of the format are
records with fields of their own shapes; fields that a record does not know are
allowed anywhere. -/

namespace ResourceApi.OpenApi

/-- The kinds of object in an OpenAPI 3.0 document. -/
inductive Record where
  | openApi
  | info
  | contact
  | license
  | tag
  | externalDocumentation
  | server
  | serverVariable
  | components
  | pathItem
  | operation
  | parameter
  | header
  | requestBody
  | mediaType
  | encoding
  | response
  | exampleObject
  | link
  | reference
  | schema
  | discriminator
  | xml
  | securityScheme
  | oauthFlows
  | oauthFlow
  deriving DecidableEq

namespace Record

/-- The name of a kind of object, as the format has it. -/
def name : Record → String
  | openApi => "OpenAPI"
  | info => "Info"
  | contact => "Contact"
  | license => "License"
  | tag => "Tag"
  | externalDocumentation => "ExternalDocumentation"
  | server => "Server"
  | serverVariable => "ServerVariable"
  | components => "Components"
  | pathItem => "PathItem"
  | operation => "Operation"
  | parameter => "Parameter"
  | header => "Header"
  | requestBody => "RequestBody"
  | mediaType => "MediaType"
  | encoding => "Encoding"
  | response => "Response"
  | exampleObject => "Example"
  | link => "Link"
  | reference => "Reference"
  | schema => "Schema"
  | discriminator => "Discriminator"
  | xml => "XML"
  | securityScheme => "SecurityScheme"
  | oauthFlows => "OAuthFlows"
  | oauthFlow => "OAuthFlow"

end Record

inductive Shape where
  | anything
  | text
  | truth
  /-- An integer that is not negative. -/
  | count
  | number
  /-- A number above zero. -/
  | positive
  | oneOf (names : List String)
  /-- A list, and whether it may be empty. -/
  | list (mayBeEmpty : Bool) (item : Shape)
  /-- An object with any names and values of one shape. -/
  | map (value : Shape)
  | record (r : Record)
  /-- Null is allowed as well. -/
  | nullable (s : Shape)
  /-- Any one of the shapes; a fault is placed under the label of its shape. -/
  | union (members : List (String × Shape))

/-- How a record reads one of its fields. -/
structure FieldRule where
  key : String
  /-- A second spelling, which is read if the key is not there. -/
  alternative : Option String
  required : Bool
  shape : Shape

end ResourceApi.OpenApi
