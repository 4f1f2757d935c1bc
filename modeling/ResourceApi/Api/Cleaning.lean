import ResourceApi.Json.Basic

/-! # Cleaned schema nodes

A schema node in the published document lacks the keys that only this program
reads. Cleaning follows the properties and the items of a node, so that a property
that happens to be named like a keyword is kept. -/

namespace ResourceApi

/-- What cleaning takes away besides the extension keys and empty required lists. -/
structure Removal where
  /-- Removed whatever their value is. -/
  keys : List String
  /-- Removed only if they hold a truth value. -/
  flags : List String

namespace Removal

def isBool : Json → Bool
  | .bool _ => true
  | _ => false

def isExtension (key : String) : Bool := "x-".toList.isPrefixOf key.toList

/-- Whether a field of a node is taken away. -/
def drops (r : Removal) (key : String) (value : Json) : Bool :=
  isExtension key || r.keys.contains key || (r.flags.contains key && isBool value) ||
    (key == "required" && value.isFalsy)

mutual
/-- The fields of a node without those that are taken away. -/
def cleanFields (r : Removal) : List (String × Json) → Fields Json
  | [] => []
  | (key, value) :: rest =>
    if r.drops key value then cleanFields r rest
    else (key, cleanValue r key value) :: cleanFields r rest

/-- The value of a field, cleaned where it holds nodes. -/
def cleanValue (r : Removal) (key : String) : Json → Json
  | .obj fields =>
    if key = "properties" then .obj (cleanEach r fields)
    else if key = "items" then .obj (cleanFields r fields)
    else .obj fields
  | v => v

/-- Cleans each property that is an object. -/
def cleanEach (r : Removal) : List (String × Json) → Fields Json
  | [] => []
  | (name, value) :: rest => (name, cleanProperty r value) :: cleanEach r rest

def cleanProperty (r : Removal) : Json → Json
  | .obj fields => .obj (cleanFields r fields)
  | v => v
end

end Removal
end ResourceApi
