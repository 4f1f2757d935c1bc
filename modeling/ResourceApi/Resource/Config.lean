import ResourceApi.Notice
import ResourceApi.Resource.Method
import ResourceApi.Text.LowerCase

/-! # Document configuration

The block of a schema that names the resource and the methods it offers. A block
without methods is first completed with all of them; the block is then read field
by field, and the first fault decides. -/

namespace ResourceApi

inductive DocumentType where
  | primary
  | secondary
  deriving DecidableEq

def DocumentType.name : DocumentType → String
  | primary => "primary"
  | secondary => "secondary"

structure DocumentConfig where
  documentName : String
  interfaceName : String
  methods : List String
  documentType : Option DocumentType
  keyPrefix : Option String
  /-- The fields of the block that have no meaning here. -/
  extra : Fields Json

namespace DocumentConfig

def lowerName (c : DocumentConfig) : String := Text.lower c.documentName

/-- The texts that a block must hold. -/
def nameKeys : List String := ["documentName", "interfaceName"]

/-- The block of a schema, with its two names present. -/
def block (schema : Fields Json) : Except Problem (Fields Json) :=
  match (schema.get? configKey).bind Json.fields? with
  | none => .error .noConfig
  | some block =>
    match nameKeys.find? fun key => ((block.get? key).getD .null).isFalsy with
    | some key => .error (.noConfigName key)
    | none => .ok block

def allMethods : Json := .arr (Method.all.map fun m => .str m.name)

/-- Whether a block leaves its methods open. -/
def lacksMethods (block : Fields Json) : Bool := (block.nonNull? "methods").isNone

def completeBlock (block : Fields Json) : Fields Json :=
  if lacksMethods block then block.put "methods" allMethods else block

/-- The schema with the methods of its block filled in, if the block can be read at all. -/
def complete (schema : Fields Json) : Fields Json :=
  match block schema with
  | .error _ => schema
  | .ok b => if lacksMethods b then schema.put configKey (.obj (completeBlock b)) else schema

/-- What completing a schema reports. -/
def notices (schema : Fields Json) (source : Option String) : List Notice :=
  match block schema with
  | .error _ => []
  | .ok b => if lacksMethods b then [.allMethods source] else []

/-- The key under which a block gives a field that has two spellings: the first, if it is there. -/
def spelling (block : Fields Json) (camel snake : String) : String :=
  if block.has camel || !block.has snake then camel else snake

def fault {α : Type} (path : List String) (f : Fault) : Except Problem α :=
  .error (.badConfig ⟨path, f⟩)

def text (path : List String) : Json → Except Problem String
  | .str s => .ok s
  | _ => fault path .notText

/-- The texts of a list; a fault is placed at its position. -/
def texts (key : String) (position : Nat) : List Json → Except Problem (List String)
  | [] => .ok []
  | v :: rest => do
    let s ← text [key, toString position] v
    let ss ← texts key (position + 1) rest
    pure (s :: ss)

def readMethods : Json → Except Problem (List String)
  | .arr items => texts "methods" 0 items
  | _ => fault ["methods"] .notList

def readType (key : String) : Json → Except Problem (Option DocumentType)
  | .null => .ok none
  | .str "primary" => .ok (some .primary)
  | .str "secondary" => .ok (some .secondary)
  | _ => fault [key] (.notOneOf ["primary", "secondary"])

def readKeyPrefix (key : String) : Json → Except Problem (Option String)
  | .null => .ok none
  | v => (text [key] v).map some

/-- The configuration that a complete block gives. -/
def ofBlock (block : Fields Json) : Except Problem DocumentConfig := do
  let documentKey := spelling block "documentName" "document_name"
  let interfaceKey := spelling block "interfaceName" "interface_name"
  let typeKey := spelling block "documentType" "document_type"
  let prefixKey := spelling block "keyPrefix" "key_prefix"
  let value (key : String) := (block.get? key).getD .null
  let documentName ← text [documentKey] (value documentKey)
  let interfaceName ← text [interfaceKey] (value interfaceKey)
  let methods ← readMethods (value "methods")
  let documentType ← readType typeKey (value typeKey)
  let keyPrefix ← readKeyPrefix prefixKey (value prefixKey)
  let known := [documentKey, interfaceKey, "methods", typeKey, prefixKey]
  pure { documentName, interfaceName, methods, documentType, keyPrefix,
         extra := block.filter fun f => !known.contains f.1 }

/-- The configuration of a schema, its methods filled in. -/
def ofSchema (schema : Fields Json) : Except Problem DocumentConfig := do
  let b ← block schema
  ofBlock (completeBlock b)

end DocumentConfig

/-- The properties of a resource, which every schema must have. -/
def properties (schema : Fields Json) : Except Problem (Fields Json) :=
  match (schema.get? "properties").bind Json.fields? with
  | some ps => .ok ps
  | none => .error (.noProperties "properties")

end ResourceApi
