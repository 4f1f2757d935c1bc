import ResourceApi.OpenApi.Shape

/-! # Records of an API description

The fields of every object of OpenAPI 3.0, in their order. An optional field may
also be null unless it has a value of its own when it is left out. -/

namespace ResourceApi.OpenApi

namespace FieldRule

/-- A field that must be there. -/
def needed (key : String) (shape : Shape) : FieldRule := ⟨key, none, true, shape⟩

/-- A field that may be left out or be null. -/
def optional (key : String) (shape : Shape) : FieldRule := ⟨key, none, false, .nullable shape⟩

/-- A field that may be left out but not be null. -/
def defaulted (key : String) (shape : Shape) : FieldRule := ⟨key, none, false, shape⟩

/-- The field with a second spelling. -/
def orElse (rule : FieldRule) (other : String) : FieldRule := { rule with alternative := some other }

def texts (keys : List String) : List FieldRule := keys.map fun key => optional key .text

end FieldRule

open FieldRule

/-- A record, or a reference to one. -/
def orReference (r : Record) : Shape :=
  .union [(r.name, .record r), (Record.reference.name, .record .reference)]

/-- A reference to a schema, or a schema. -/
def schemaShape : Shape :=
  .union [(Record.reference.name, .record .reference), (Record.schema.name, .record .schema)]

def list (item : Shape) : Shape := .list true item

def callback : Shape := .map (.record .pathItem)

def callbackOrReference : Shape :=
  .union [("dict[str,PathItem]", callback), (Record.reference.name, .record .reference)]

def securityRequirements : Shape := list (.map (list .text))

def externalDocs : FieldRule := optional "externalDocs" (.record .externalDocumentation)

/-- The fields that parameters and headers share. -/
def parameterFields : List FieldRule := [
  optional "description" .text, defaulted "required" .truth, defaulted "deprecated" .truth,
  optional "style" .text, optional "explode" .truth,
  (optional "schema" schemaShape).orElse "param_schema", defaulted "example" .anything,
  optional "examples" (.map (orReference .exampleObject)),
  optional "content" (.map (.record .mediaType))]

def schemaFields : List FieldRule := [
  optional "title" .text, optional "multipleOf" .positive, optional "maximum" .number,
  optional "exclusiveMaximum" .truth, optional "minimum" .number,
  optional "exclusiveMinimum" .truth, optional "maxLength" .count, optional "minLength" .count,
  optional "pattern" .text, optional "maxItems" .count, optional "minItems" .count,
  optional "uniqueItems" .truth, optional "maxProperties" .count,
  optional "minProperties" .count, optional "required" (.list false .text),
  optional "enum" (.list false .anything),
  optional "type" (.oneOf ["string", "number", "integer", "boolean", "array", "object"]),
  optional "allOf" (list schemaShape), optional "oneOf" (list schemaShape),
  optional "anyOf" (list schemaShape), (optional "not" schemaShape).orElse "schema_not",
  optional "items" schemaShape, optional "properties" (.map schemaShape),
  optional "additionalProperties" (.union [("bool", .truth),
    (Record.reference.name, .record .reference), (Record.schema.name, .record .schema)]),
  optional "description" .text, (optional "format" .text).orElse "schema_format",
  defaulted "default" .anything, optional "nullable" .truth,
  optional "discriminator" (.record .discriminator), optional "readOnly" .truth,
  optional "writeOnly" .truth, optional "xml" (.record .xml), externalDocs,
  defaulted "example" .anything, optional "deprecated" .truth]

/-- The fields of a record, in the order in which their faults are reported. -/
def Record.fields : Record → List FieldRule
  | openApi => [
    defaulted "openapi" (.oneOf ["3.0.4", "3.0.3", "3.0.2", "3.0.1", "3.0.0"]),
    needed "info" (.record .info), defaulted "servers" (list (.record .server)),
    needed "paths" (.map (.record .pathItem)), optional "components" (.record .components),
    optional "security" securityRequirements, optional "tags" (list (.record .tag)),
    externalDocs]
  | info => [
    needed "title" .text, optional "description" .text, optional "termsOfService" .text,
    optional "contact" (.record .contact), optional "license" (.record .license),
    needed "version" .text]
  | contact => texts ["name", "url", "email"]
  | license => [needed "name" .text, optional "url" .text]
  | tag => [needed "name" .text, optional "description" .text, externalDocs]
  | externalDocumentation => [optional "description" .text, needed "url" .text]
  | server => [
    needed "url" .text, optional "description" .text,
    optional "variables" (.map (.record .serverVariable))]
  | serverVariable => [
    optional "enum" (list .text), needed "default" .text, optional "description" .text]
  | components => [
    optional "schemas" (.map schemaShape), optional "responses" (.map (orReference .response)),
    optional "parameters" (.map (orReference .parameter)),
    optional "examples" (.map (orReference .exampleObject)),
    optional "requestBodies" (.map (orReference .requestBody)),
    optional "headers" (.map (orReference .header)),
    optional "securitySchemes" (.map (orReference .securityScheme)),
    optional "links" (.map (orReference .link)),
    optional "callbacks" (.map callbackOrReference)]
  | pathItem => [
    (optional "$ref" .text).orElse "ref", optional "summary" .text,
    optional "description" .text] ++
    ["get", "put", "post", "delete", "options", "head", "patch", "trace"].map
      (optional · (.record .operation)) ++ [
    optional "servers" (list (.record .server)),
    optional "parameters" (list (orReference .parameter))]
  | operation => [
    optional "tags" (list .text), optional "summary" .text, optional "description" .text,
    externalDocs, optional "operationId" .text,
    optional "parameters" (list (orReference .parameter)),
    optional "requestBody" (orReference .requestBody),
    needed "responses" (.map (orReference .response)), optional "callbacks" (.map callback),
    defaulted "deprecated" .truth, optional "security" securityRequirements,
    optional "servers" (list (.record .server))]
  | parameter => parameterFields ++ [
    needed "name" .text,
    (needed "in" (.oneOf ["query", "header", "path", "cookie"])).orElse "param_in",
    defaulted "allowEmptyValue" .truth, defaulted "allowReserved" .truth]
  | header => parameterFields
  | requestBody => [
    optional "description" .text, needed "content" (.map (.record .mediaType)),
    defaulted "required" .truth]
  | mediaType => [
    (optional "schema" schemaShape).orElse "media_type_schema", defaulted "example" .anything,
    optional "examples" (.map (orReference .exampleObject)),
    optional "encoding" (.map (.record .encoding))]
  | encoding => [
    optional "contentType" .text, optional "headers" (.map (orReference .header)),
    optional "style" .text, optional "explode" .truth, defaulted "allowReserved" .truth]
  | response => [
    needed "description" .text, optional "headers" (.map (orReference .header)),
    optional "content" (.map (.record .mediaType)),
    optional "links" (.map (orReference .link))]
  | exampleObject => [
    optional "summary" .text, optional "description" .text, defaulted "value" .anything,
    optional "externalValue" .text]
  | link => [
    optional "operationRef" .text, optional "operationId" .text,
    optional "parameters" (.map .anything), defaulted "requestBody" .anything,
    optional "description" .text, optional "server" (.record .server)]
  | reference => [(needed "$ref" .text).orElse "ref"]
  | schema => schemaFields
  | discriminator => [needed "propertyName" .text, optional "mapping" (.map .text)]
  | xml => texts ["name", "namespace", "prefix"] ++ [
    defaulted "attribute" .truth, defaulted "wrapped" .truth]
  | securityScheme => [
    needed "type" .text, optional "description" .text, optional "name" .text,
    (optional "in" .text).orElse "security_scheme_in", optional "scheme" .text,
    optional "bearerFormat" .text, optional "flows" (.record .oauthFlows),
    optional "openIdConnectUrl" .text]
  | oauthFlows =>
    ["implicit", "password", "clientCredentials", "authorizationCode"].map
      (optional · (.record .oauthFlow))
  | oauthFlow => texts ["authorizationUrl", "tokenUrl", "refreshUrl"] ++ [
    needed "scopes" (.map .text)]

end ResourceApi.OpenApi
