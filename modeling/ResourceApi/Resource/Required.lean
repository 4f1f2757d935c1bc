import ResourceApi.Resource.Problem

/-! # Required names

A property says that it is required by a flag of its own; an object lists the
names of its required children. Normalizing gives every object node that is
reached from the root its list: the names it already listed that are still
children and not switched off, then the children that demand to be listed. A child
demands it by its own flag, or, if it is an object, by a list of its own that is
not empty. Arrays of objects get the list on their items, and pass nothing up. -/

namespace ResourceApi.Required

def isObject (node : Json) : Bool := node.field? "type" = some (.str "object")

def isArrayOfObjects (node : Json) : Bool :=
  node.field? "type" = some (.str "array") && ((node.field? "items").map isObject).getD false

/-- The form in which a property asks to be required: the value true and no other. -/
def isFlag (value : Json) : Bool := value = .bool true

/-- The names in a list; anything that is not a text is passed over. -/
def names : Json → List String
  | .arr items => items.filterMap Json.str?
  | _ => []

def hasFlag (node : Json) : Bool := ((node.field? "required").map isFlag).getD false

def isSwitchedOff (node : Json) : Bool := node.field? "required" = some (.bool false)

/-- Whether a listed name stays: its property is an object and not switched off. -/
def stays (properties : Fields Json) (name : String) : Bool :=
  match properties.get? name with
  | some p => p.isObj && !isSwitchedOff p
  | none => false

/-- The names of an existing list that stay, each once, in the order they came first. -/
def kept (node properties : Fields Json) : List String :=
  (names ((node.get? "required").getD .null)).eraseDups.filter (stays properties)

/-- A list that names the kept children and then every other child that demands it. -/
def combine (kept demanding : List String) : List String :=
  kept ++ demanding.filter fun n => !kept.contains n

def listJson (list : List String) : Json := .arr (list.map .str)

/-- The node with its list; nodes that are no objects stay as they are. -/
def attach (list : List String) : Json → Json
  | .obj fields => .obj (Fields.put fields "required" (listJson list))
  | v => v

/-- The place reached by a step; leading points are dropped. -/
def place (location step : String) : String :=
  String.ofList ((location ++ step).toList.dropWhile (· == '.'))

/-- What normalizing a node gives: the list of an object node, and the node with
everything below it normalized. The list is not yet attached to the node. -/
structure Flattened where
  list : Option (List String)
  node : Json

/-- The node with its list attached, if it has one. -/
def Flattened.attached (f : Flattened) : Json :=
  match f.list with
  | some list => attach list f.node
  | none => f.node

/-- Whether the node asks to be in its parent's list, given whether it has the flag. -/
def Flattened.demands (f : Flattened) (flag : Bool) : Bool :=
  flag || !(f.list.getD []).isEmpty

mutual
/-- Normalizes a node at `location`. -/
def flatten (location : String) : Json → Except Problem Flattened
  | .obj fields =>
    if isArrayOfObjects (.obj fields) then do
      let fields' ← flattenItems location fields
      pure ⟨none, .obj fields'⟩
    else if isObject (.obj fields) then do
      let (demanding, fields') ← flattenProperties location fields
      let properties := ((Fields.get? fields "properties").bind Json.fields?).getD []
      pure ⟨some (combine (kept fields properties) demanding), .obj fields'⟩
    else pure ⟨none, .obj fields⟩
  | v => pure ⟨none, v⟩

/-- Normalizes the items among the fields of an array of objects. -/
def flattenItems (location : String) : List (String × Json) → Except Problem (Fields Json)
  | [] => pure []
  | (name, v) :: rest =>
    if name = "items" then do
      let items ← flatten (location ++ ".items") v
      pure ((name, items.attached) :: rest)
    else do
      let rest' ← flattenItems location rest
      pure ((name, v) :: rest')

/-- Normalizes the properties among the fields of an object node, and names those that demand
to be listed. -/
def flattenProperties (location : String) :
    List (String × Json) → Except Problem (List String × Fields Json)
  | [] => throw (.noProperties (place location ".properties"))
  | (name, v) :: rest =>
    if name = "properties" then
      match v with
      | .obj properties => do
        let (demanding, properties') ← flattenEach location properties
        pure (demanding, (name, .obj properties') :: rest)
      | _ => throw (.noProperties (place location ".properties"))
    else do
      let (demanding, rest') ← flattenProperties location rest
      pure (demanding, (name, v) :: rest')

/-- Normalizes each property, and names those that demand to be listed. -/
def flattenEach (location : String) :
    List (String × Json) → Except Problem (List String × Fields Json)
  | [] => pure ([], [])
  | (name, v) :: rest =>
    let here := place location (".properties." ++ name)
    if v.isObj then do
      let p ← flatten here v
      let (demanding, rest') ← flattenEach location rest
      let demanding := if p.demands (hasFlag v) then name :: demanding else demanding
      pure (demanding, (name, p.attached) :: rest')
    else throw (.propertyNotObject here)
end

end ResourceApi.Required
