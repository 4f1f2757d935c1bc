import ResourceApi.Json.Fields
import ResourceApi.Text.Lines
import ResourceApi.Yaml.Graph
import ResourceApi.Yaml.ScalarValue

/-! # Values of a YAML document

What the nodes of a document stand for. The values are built level by level, as each
collection is filled after all collections that were met before it; so of several
faults the outermost counts, and the first of those. A map keeps the fields whose keys
are texts; a key may be any value but a collection. -/

namespace ResourceApi.Yaml

/-- A value, seen to some depth. -/
inductive Value where
  | null
  | bool (b : Bool)
  | int (n : Int)
  | float (x : Binary64)
  | text (s : String)
  | bytes (bs : List UInt8)
  /-- A point in time. -/
  | moment
  | list (items : List Value)
  | map (fields : List (String × Value))
  | set (members : List Value)
  /-- A value that lies deeper than was looked. -/
  | deeper

namespace Value

/-- What a condition takes for no. -/
def isFalsy : Value → Bool
  | null => true
  | bool b => !b
  | int n => n == 0
  | float x => x.isZero
  | text s => s == ""
  | bytes bs => bs.isEmpty
  | moment => false
  | list items => items.isEmpty
  | map fields => fields.isEmpty
  | set members => members.isEmpty
  | deeper => false

end Value

/-- What is built of a node: a value without parts, or a collection whose parts are given by
their numbers. -/
inductive Built where
  | scalar (v : Value)
  | list (items : List Nat)
  | pairs (items : List (Nat × Nat))
  | map (fields : List (String × Nat))
  | set (members : List Nat)

namespace Built

/-- The collection of a tag, still empty. -/
def collection? : Tag → Option Built
  | .list => some (list [])
  | .orderedMap | .pairs => some (pairs [])
  | .map => some (map [])
  | .set => some (set [])
  | _ => none

/-- Collections cannot be keys. -/
def isCollection : Built → Bool
  | scalar _ => false
  | _ => true

end Built

/-- A document as far as it is built, and the collections that are still to be filled. -/
structure Building where
  graph : Graph
  built : Array (Option Built)
  waiting : List Nat

namespace Building

def start (g : Graph) : Building := ⟨g, Array.replicate g.entries.size none, []⟩

def get? (b : Building) (i : Nat) : Option Built := (b.built[i]?).join

def put (b : Building) (i : Nat) (v : Built) : Building :=
  { b with built := b.built.setIfInBounds i (some v) }

/-! ## Scalars -/

/-- The characters of a scalar. A map stands for the scalar at its value sign, if it has one. -/
def characters (g : Graph) : Nat → Nat → Lex String
  | 0, _ => .error .endless
  | fuel + 1, i =>
    match g.entry i with
    | .scalar _ text => .ok text
    | .sequence .. => .error .malformed
    | .mapping _ fields =>
      match fields.find? fun f => g.tag f.1 == .value with
      | some f => characters g fuel f.2
      | none => .error .malformed

/-- A point in time has to be a scalar itself. -/
def checkMomentAt (g : Graph) (i : Nat) (text : String) : Lex Unit :=
  match g.entry i with
  | .scalar .. => checkMoment text
  | _ => .error .notText

/-- The value of a node whose tag is that of a scalar. -/
def scalarValue (g : Graph) (i : Nat) : Lex Value := do
  let tag := g.tag i
  if tag == .merge || tag == .value || tag == .unknown then throw .malformed
  let text ← characters g (g.entries.size + 1) i
  match tag with
  | .null => pure .null
  | .bool => .bool <$> readBool text
  | .int => .int <$> readInt text
  | .float => .float <$> readFloat text
  | .timestamp => do
    checkMomentAt g i text
    pure .moment
  | .binary => .bytes <$> readBytes text
  | _ => pure (.text text)

/-! ## Collections -/

/-- Builds a node, unless it is built: a scalar at once, a collection to be filled later. -/
def build (b : Building) (i : Nat) : Lex Building :=
  if (b.get? i).isSome then .ok b
  else match Built.collection? (b.graph.tag i) with
    | some empty => .ok { b.put i empty with waiting := b.waiting ++ [i] }
    | none => do
      let v ← scalarValue b.graph i
      pure (b.put i (.scalar v))

def buildAll (b : Building) : List Nat → Lex Building
  | [] => .ok b
  | i :: rest => do
    let b ← b.build i
    b.buildAll rest

/-- Builds a key, which must not be a collection; gives its text if it is one. -/
def buildKey (b : Building) (i : Nat) : Lex (Option String × Building) := do
  let b ← b.build i
  match b.get? i with
  | some (.scalar (.text name)) => pure (some name, b)
  | some v => if v.isCollection then throw .malformed else pure (none, b)
  | none => pure (none, b)

/-- Builds the fields of a map; of those with the same text for a key, the last counts. -/
def buildFields (b : Building) : List (Nat × Nat) → Lex (List (String × Nat) × Building)
  | [] => .ok ([], b)
  | (key, i) :: rest => do
    let (name?, b) ← b.buildKey key
    let b ← b.build i
    let (fields, b) ← b.buildFields rest
    match name? with
    | some name => pure ((name, i) :: fields, b)
    | none => pure (fields, b)

/-- The one field of a map. -/
def onlyField (g : Graph) (i : Nat) : Lex (Nat × Nat) :=
  match g.entry i with
  | .mapping _ [f] => .ok f
  | _ => .error .malformed

/-- Builds a list of maps of one field each; their keys may be of any kind. -/
def buildPairs (b : Building) : List Nat → Lex (List (Nat × Nat) × Building)
  | [] => .ok ([], b)
  | i :: rest => do
    let f ← onlyField b.graph i
    let b ← b.build f.1
    let b ← b.build f.2
    let (fs, b) ← b.buildPairs rest
    pure (f :: fs, b)

/-- The fields of a map, with what is merged into it. -/
def mergedFields (levels : Nat) (b : Building) (i : Nat) : Lex (List (Nat × Nat) × Building) :=
  match b.graph.entry i with
  | .mapping .. => do
    let g ← b.graph.merge levels i
    pure (g.fields i, { b with graph := g })
  | _ => .error .malformed

def itemsOf (g : Graph) (i : Nat) : Lex (List Nat) :=
  match g.entry i with
  | .sequence _ items => .ok items
  | _ => .error .malformed

/-- Fills a collection. Only now it counts whether its node has parts of the right kind. -/
def fill (levels : Nat) (b : Building) (i : Nat) : Lex Building :=
  match b.get? i with
  | some (.list _) => do
    let items ← itemsOf b.graph i
    let b ← b.buildAll items
    pure (b.put i (.list items))
  | some (.pairs _) => do
    let items ← itemsOf b.graph i
    let (fields, b) ← b.buildPairs items
    pure (b.put i (.pairs fields))
  | some (.map _) => do
    let (parts, b) ← b.mergedFields levels i
    let (fields, b) ← b.buildFields parts
    pure (b.put i (.map (Fields.ofPairs fields)))
  | some (.set _) => do
    let (parts, b) ← b.mergedFields levels i
    let (_, b) ← b.buildFields parts
    pure (b.put i (.set (parts.map Prod.fst)))
  | some (.scalar _) | none => .ok b

/-- Fills the collections in the order in which they were met. Each node is met once. -/
def fillAll (levels : Nat) : Nat → Building → Lex Building
  | 0, b => .ok b
  | fuel + 1, b =>
    match b.waiting with
    | [] => .ok b
    | i :: rest => do
      let b ← { b with waiting := rest }.fill levels i
      fillAll levels fuel b

end Building

/-- A document that is built; the first of its nodes is the whole. -/
structure Document where
  built : Array (Option Built)

namespace Document

def ofGraph (g : Graph) : Lex Document := do
  let b ← (Building.start g).build 0
  let b ← Building.fillAll g.mergeLevels (g.entries.size + 1) b
  pure ⟨b.built⟩

/-- The value of a node, seen to a depth. -/
def valueAt (d : Document) : Nat → Nat → Value
  | 0, _ => .deeper
  | depth + 1, i =>
    match (d.built[i]?).join with
    | some (.scalar v) => v
    | some (.list items) => .list (items.map (valueAt d depth))
    | some (.pairs items) =>
      .list (items.map fun f => .list [valueAt d depth f.1, valueAt d depth f.2])
    | some (.map fields) => .map (fields.map fun f => (f.1, valueAt d depth f.2))
    | some (.set members) => .set (members.map (valueAt d depth))
    | none => .deeper

/-- The value of the document, seen to a depth. -/
def value (d : Document) (depth : Nat) : Value := d.valueAt depth 0

end Document

/-- The document that a text holds; none if it holds none. -/
def read (s : String) : Lex (Option Document) := do
  match ← Node.ofTokens (tokens (Text.unifyLineEnds s.toList)) with
  | none => pure none
  | some node => some <$> Document.ofGraph (.ofNode node)

end ResourceApi.Yaml
