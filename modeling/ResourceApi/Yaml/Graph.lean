import ResourceApi.Yaml.Node

/-! # Nodes with shared parts

A node that has a name may be a part of several nodes, and even of itself. So the nodes
of a document are numbered, and parts are given by their numbers. The fields that a
merge key brings in are put in front of the other fields of its map; what is changed
in one node shows wherever the node is a part. -/

namespace ResourceApi.Yaml

/-- A node whose parts are given by their numbers. -/
inductive Entry where
  | scalar (tag : Tag) (text : String)
  | sequence (tag : Tag) (items : List Nat)
  | mapping (tag : Tag) (fields : List (Nat × Nat))

def Entry.tag : Entry → Tag
  | scalar tag _ => tag
  | sequence tag _ => tag
  | mapping tag _ => tag

def Entry.retag (tag : Tag) : Entry → Entry
  | scalar _ text => scalar tag text
  | sequence _ items => sequence tag items
  | mapping _ fields => mapping tag fields

structure Graph where
  entries : Array Entry

namespace Graph

/-- The entry of a number; a number that is not given stands for an empty node. -/
def entry (g : Graph) (i : Nat) : Entry := (g.entries[i]?).getD (.scalar .null "")

def tag (g : Graph) (i : Nat) : Tag := (g.entry i).tag

def fields (g : Graph) (i : Nat) : List (Nat × Nat) :=
  match g.entry i with
  | .mapping _ fields => fields
  | _ => []

def set (g : Graph) (i : Nat) (e : Entry) : Graph := ⟨g.entries.setIfInBounds i e⟩

def setFields (g : Graph) (i : Nat) (fields : List (Nat × Nat)) : Graph :=
  g.set i (.mapping (g.tag i) fields)

/-! ## Numbering -/

/-- The entries so far, and the numbers of the nodes that have names. -/
structure Numbering where
  graph : Graph
  names : List (String × Nat)

namespace Numbering

def start : Numbering := ⟨⟨#[]⟩, []⟩

/-- The number that the next node gets. -/
def next (n : Numbering) : Nat := n.graph.entries.size

def push (n : Numbering) (e : Entry) : Numbering := { n with graph := ⟨n.graph.entries.push e⟩ }

def fill (n : Numbering) (i : Nat) (e : Entry) : Numbering := { n with graph := n.graph.set i e }

mutual
/-- Numbers a node before its parts, and gives its number. -/
def add (n : Numbering) : Node → Nat × Numbering
  | .scalar tag text => (n.next, n.push (.scalar tag text))
  | .sequence tag items =>
    let (parts, m) := addItems (n.push (.sequence tag [])) items
    (n.next, m.fill n.next (.sequence tag parts))
  | .mapping tag fields =>
    let (parts, m) := addFields (n.push (.mapping tag [])) fields
    (n.next, m.fill n.next (.mapping tag parts))
  | .anchored name node => add { n with names := (name, n.next) :: n.names } node
  | .reference name => ((n.names.lookup name).getD n.next, n)

def addItems (n : Numbering) : List Node → List Nat × Numbering
  | [] => ([], n)
  | node :: rest =>
    let (i, n) := add n node
    let (is, n) := addItems n rest
    (i :: is, n)

def addFields (n : Numbering) : List (Node × Node) → List (Nat × Nat) × Numbering
  | [] => ([], n)
  | (key, node) :: rest =>
    let (k, n) := add n key
    let (i, n) := add n node
    let (fields, n) := addFields n rest
    ((k, i) :: fields, n)
end

end Numbering

/-- The nodes of a document, of which the first is the whole. -/
def ofNode (node : Node) : Graph := (Numbering.start.add node).2.graph

/-! ## Merging -/

/-- A graph with the fields that a merge key brings in. -/
abbrev Merging := Except ReadFault (Graph × List (Nat × Nat))

/-- The fields of each map of a list, those of a later map first. `resolve` does the merging in
a map. -/
def mergeEach (resolve : Nat → Graph → Lex Graph) (g : Graph) : List Nat → Merging
  | [] => .ok (g, [])
  | i :: rest =>
    match g.entry i with
    | .mapping .. => do
      let g ← resolve i g
      let own := g.fields i
      let (g, later) ← mergeEach resolve g rest
      pure (g, later ++ own)
    | _ => .error .malformed

/-- The fields that the value of a merge key brings in: those of a map, or of several. -/
def mergeValue (resolve : Nat → Graph → Lex Graph) (g : Graph) (i : Nat) : Merging :=
  match g.entry i with
  | .mapping .. => do
    let g ← resolve i g
    pure (g, g.fields i)
  | .sequence _ items => mergeEach resolve g items
  | .scalar .. => .error .malformed

/-- Merges in the map `i` from the field at `position` on, of which there are `count` at most.
The fields brought in so far are `merged`. A value sign that is a key becomes a text. -/
def mergeFrom (resolve : Nat → Graph → Lex Graph) (i : Nat) :
    Nat → Nat → List (Nat × Nat) → Graph → Lex Graph
  | 0, _, merged, g => .ok (g.setFields i (merged ++ g.fields i))
  | count + 1, position, merged, g =>
    match (g.fields i)[position]? with
    | none => .ok (g.setFields i (merged ++ g.fields i))
    | some (key, value) =>
      match g.tag key with
      | .merge => do
        let g := g.setFields i ((g.fields i).eraseIdx position)
        let (g, more) ← mergeValue resolve g value
        mergeFrom resolve i count position (merged ++ more) g
      | .value =>
        mergeFrom resolve i count (position + 1) merged (g.set key ((g.entry key).retag .text))
      | _ => mergeFrom resolve i count (position + 1) merged g

/-- Merges in the map `i`. With each level, a merge key is taken out of the graph, so that there
are no more levels than fields. -/
def merge : Nat → Nat → Graph → Lex Graph
  | 0, _, g => .ok g
  | level + 1, i, g => mergeFrom (merge level) i ((g.fields i).length + 1) 0 [] g

/-- How many levels of merging there are at most. -/
def mergeLevels (g : Graph) : Nat :=
  g.entries.foldl (fun n e => match e with
    | .mapping _ fields => n + fields.length
    | _ => n) 1

end Graph
end ResourceApi.Yaml
