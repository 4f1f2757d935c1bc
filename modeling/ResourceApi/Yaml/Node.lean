import ResourceApi.Yaml.Lexer

/-! # Nodes of a YAML document

The tree that the tokens of a text describe. A node that is referred to elsewhere
carries a name, and what refers to it is an alias; no name is given twice, and an
alias stands behind the start of the node it names.

Where a text has a fault, what is told of the text depends on how far it is read. So
the reading of a node asks for one token at a time, and judges what it has before it
asks for the next. -/

namespace ResourceApi.Yaml

/-- What a node is tagged as. -/
inductive Tag where
  | null
  | bool
  | int
  | float
  | text
  | timestamp
  | binary
  | list
  | map
  | set
  | orderedMap
  | pairs
  | merge
  | value
  | unknown
  deriving DecidableEq

namespace Tag

/-- The tag that a plain scalar gets from what it stands for. -/
def ofKind : Kind → Tag
  | .null => null
  | .bool => bool
  | .int => int
  | .float => float
  | .text => text
  | .timestamp => timestamp
  | .merge => merge
  | .value => value

/-- What the names of the standard tags start with. -/
def standard : String := "tag:yaml.org,2002:"

def names : List (String × Tag) := [
  ("null", null), ("bool", bool), ("int", int), ("float", float), ("str", text),
  ("timestamp", timestamp), ("binary", binary), ("seq", list), ("map", map), ("set", set),
  ("omap", orderedMap), ("pairs", pairs), ("merge", merge), ("value", value)]

def ofName (name : String) : Tag :=
  match names.find? fun t => standard ++ t.1 == name with
  | some t => t.2
  | none => unknown

end Tag

inductive Node where
  | scalar (tag : Tag) (text : String)
  | sequence (tag : Tag) (items : List Node)
  | mapping (tag : Tag) (fields : List (Node × Node))
  | anchored (name : String) (node : Node)
  | reference (name : String)

/-- Handles of tags with what they stand for. -/
abbrev Handles := List (String × String)

/-- What is left to be read, and the names given so far. -/
structure Source where
  tokens : List Token
  anchors : List String

/-- The name and the tag in front of a node. -/
structure Properties where
  anchor : Option String
  tag : Option String

namespace Node

def empty : Node := scalar .null ""

/-- A tag by its full name. -/
def fullTag (handles : Handles) (handle : Option String) (suffix : String) : Lex String :=
  match handle with
  | none => .ok suffix
  | some h => match handles.lookup h with
    | some p => .ok (p ++ suffix)
    | none => .error .malformed

/-- Asks for the next token, which may show a fault of the text. -/
def demand : List Token → Lex Unit
  | .broken fault :: _ => .error fault
  | _ => .ok ()

/-- The properties in front of a node, in either order. -/
def properties (handles : Handles) : List Token → Lex (Properties × List Token)
  | .anchor a :: rest => do
    demand rest
    match rest with
    | .tag h s :: rest => pure (⟨some a, some (← fullTag handles h s)⟩, rest)
    | rest => pure (⟨some a, none⟩, rest)
  | .tag h s :: rest => do
    demand rest
    match rest with
    | .anchor a :: rest => pure (⟨some a, some (← fullTag handles h s)⟩, rest)
    | rest => pure (⟨none, some (← fullTag handles h s)⟩, rest)
  | rest => .ok (⟨none, none⟩, rest)

/-- The tag of a scalar. A lone exclamation mark asks for what the text looks like. -/
def scalarTag (tag : Option String) (plain : Bool) (text : String) : Tag :=
  match tag with
  | none => if plain then .ofKind (resolve text.toList) else .text
  | some "!" => .ofKind (resolve text.toList)
  | some name => .ofName name

/-- The tag of a collection that has none of its own is `absent`. -/
def collectionTag (absent : Tag) : Option String → Tag
  | none => absent
  | some "!" => absent
  | some name => .ofName name

def named (anchor : Option String) (n : Node) : Node :=
  match anchor with
  | some name => anchored name n
  | none => n

/-- Where a node stands: which collections may start there without brackets. -/
inductive Context where
  | flow
  | block
  /-- In a block mapping, whose lists may stand in its own column. -/
  | field
  deriving DecidableEq

/-- Whether nothing stands before the next item of a block sequence. -/
def endsItem : List Token → Bool
  | .blockEntry :: _ => true
  | .blockEnd :: _ => true
  | _ => false

def endsField : List Token → Bool
  | .key :: _ => true
  | .value :: _ => true
  | .blockEnd :: _ => true
  | _ => false

def endsFlow : List Token → Bool
  | .flowEntry :: _ => true
  | .flowSequenceEnd :: _ => true
  | .flowMappingEnd :: _ => true
  | _ => false

def endsFlowKey : List Token → Bool
  | .value :: _ => true
  | rest => endsFlow rest

/-- The tokens behind the comma that every entry but the first needs before it; the end of the
collection needs none. -/
def afterComma (isFirst : Bool) (tokens : List Token) : Lex (List Token) := do
  demand tokens
  match tokens with
  | .flowEntry :: rest =>
    if isFirst then pure tokens
    else do
      demand rest
      pure rest
  | .flowSequenceEnd :: _ | .flowMappingEnd :: _ => pure tokens
  | _ => if isFirst then pure tokens else throw .malformed

mutual
/-- A node with its properties. -/
def parse (handles : Handles) : Nat → Context → Source → Lex (Node × Source)
  | 0, _, _ => .error .malformed
  | fuel + 1, context, s => do
    demand s.tokens
    match s.tokens with
    | .reference name :: rest => do
      require (s.anchors.contains name)
      pure (reference name, { s with tokens := rest })
    | tokens => do
      let (p, rest) ← properties handles tokens
      demand rest
      require (p.anchor.all (!s.anchors.contains ·))
      let (n, s) ← parseContent handles fuel context p ⟨rest, p.anchor.toList ++ s.anchors⟩
      pure (named p.anchor n, s)

/-- A node behind its properties. -/
def parseContent (handles : Handles) :
    Nat → Context → Properties → Source → Lex (Node × Source)
  | 0, _, _, _ => .error .malformed
  | fuel + 1, context, p, s =>
    let sequenceOf (r : List Node × Source) := (sequence (collectionTag .list p.tag) r.1, r.2)
    let mappingOf (r : List (Node × Node) × Source) :=
      (mapping (collectionTag .map p.tag) r.1, r.2)
    match s.tokens with
    | .scalar text plain :: rest =>
      .ok (scalar (scalarTag p.tag plain text) text, { s with tokens := rest })
    | .flowSequenceStart :: rest =>
      sequenceOf <$> parseFlowItems handles fuel true { s with tokens := rest }
    | .flowMappingStart :: rest =>
      mappingOf <$> parseFlowFields handles fuel true { s with tokens := rest }
    | tokens =>
      match context, tokens with
      | .field, .blockEntry :: _ => sequenceOf <$> parseColumnItems handles fuel s
      | .block, .blockSequenceStart :: rest | .field, .blockSequenceStart :: rest =>
        sequenceOf <$> parseBlockItems handles fuel { s with tokens := rest }
      | .block, .blockMappingStart :: rest | .field, .blockMappingStart :: rest =>
        mappingOf <$> parseBlockFields handles fuel { s with tokens := rest }
      | _, _ =>
        if p.anchor.isSome || p.tag.isSome then
          .ok (scalar (scalarTag p.tag true "") "", s)
        else .error .malformed

/-- A node, or an empty one where something stands that `ends` it. -/
def parseUnless (ends : List Token → Bool) (handles : Handles) :
    Nat → Context → Source → Lex (Node × Source)
  | 0, _, _ => .error .malformed
  | fuel + 1, context, s => do
    demand s.tokens
    if ends s.tokens then pure (empty, s) else parse handles fuel context s

/-- The items of a block sequence up to its end. -/
def parseBlockItems (handles : Handles) : Nat → Source → Lex (List Node × Source)
  | 0, _ => .error .malformed
  | fuel + 1, s => do
    demand s.tokens
    match s.tokens with
    | .blockEntry :: rest => do
      let (n, s) ← parseUnless endsItem handles fuel .block { s with tokens := rest }
      let (ns, s) ← parseBlockItems handles fuel s
      pure (n :: ns, s)
    | .blockEnd :: rest => pure ([], { s with tokens := rest })
    | _ => throw .malformed

/-- The items of a sequence in the column of the mapping around it. -/
def parseColumnItems (handles : Handles) : Nat → Source → Lex (List Node × Source)
  | 0, _ => .error .malformed
  | fuel + 1, s => do
    demand s.tokens
    match s.tokens with
    | .blockEntry :: rest => do
      let (n, s) ← parseUnless (fun ts => endsItem ts || endsField ts) handles fuel .block
        { s with tokens := rest }
      let (ns, s) ← parseColumnItems handles fuel s
      pure (n :: ns, s)
    | _ => pure ([], s)

/-- The value of a field, if a colon stands here; without one it is empty. -/
def parseFieldValue (ends : List Token → Bool) (handles : Handles) :
    Nat → Context → Source → Lex (Node × Source)
  | 0, _, _ => .error .malformed
  | fuel + 1, context, s => do
    demand s.tokens
    match s.tokens with
    | .value :: rest => parseUnless ends handles fuel context { s with tokens := rest }
    | _ => pure (empty, s)

/-- The fields of a block mapping up to its end. -/
def parseBlockFields (handles : Handles) : Nat → Source → Lex (List (Node × Node) × Source)
  | 0, _ => .error .malformed
  | fuel + 1, s => do
    demand s.tokens
    match s.tokens with
    | .key :: rest => do
      let (k, s) ← parseUnless endsField handles fuel .field { s with tokens := rest }
      let (v, s) ← parseFieldValue endsField handles fuel .field s
      let (fields, s) ← parseBlockFields handles fuel s
      pure ((k, v) :: fields, s)
    | .blockEnd :: rest => pure ([], { s with tokens := rest })
    | _ => throw .malformed

/-- A key announced by its token in a flow collection, and its value. -/
def parseFlowField (handles : Handles) : Nat → Source → Lex ((Node × Node) × Source)
  | 0, _ => .error .malformed
  | fuel + 1, s => do
    let (k, s) ← parseUnless endsFlowKey handles fuel .flow s
    let (v, s) ← parseFieldValue endsFlow handles fuel .flow s
    pure ((k, v), s)

/-- The items of a flow sequence up to its end; a field among them is a mapping of its own. -/
def parseFlowItems (handles : Handles) : Nat → Bool → Source → Lex (List Node × Source)
  | 0, _, _ => .error .malformed
  | fuel + 1, isFirst, s => do
    let tokens ← afterComma isFirst s.tokens
    match tokens with
    | .flowSequenceEnd :: rest => pure ([], { s with tokens := rest })
    | .key :: rest => do
      let (field, s) ← parseFlowField handles fuel { s with tokens := rest }
      let (ns, s) ← parseFlowItems handles fuel false s
      pure (mapping .map [field] :: ns, s)
    | tokens => do
      let (n, s) ← parse handles fuel .flow { s with tokens }
      let (ns, s) ← parseFlowItems handles fuel false s
      pure (n :: ns, s)

/-- The fields of a flow mapping up to its end; a lone node is a key without a value. -/
def parseFlowFields (handles : Handles) :
    Nat → Bool → Source → Lex (List (Node × Node) × Source)
  | 0, _, _ => .error .malformed
  | fuel + 1, isFirst, s => do
    let tokens ← afterComma isFirst s.tokens
    match tokens with
    | .flowMappingEnd :: rest => pure ([], { s with tokens := rest })
    | .key :: rest => do
      let (field, s) ← parseFlowField handles fuel { s with tokens := rest }
      let (fields, s) ← parseFlowFields handles fuel false s
      pure (field :: fields, s)
    | tokens => do
      let (k, s) ← parse handles fuel .flow { s with tokens }
      demand s.tokens
      let (fields, s) ← parseFlowFields handles fuel false s
      pure ((k, empty) :: fields, s)
end

/-! ## Documents -/

def defaultHandles : Handles := [("!", "!"), ("!!", Tag.standard)]

/-- The handles that the directives in front of a document give, behind those that always are. At
most one directive may give a version, and it must be 1. -/
def directives (hasVersion : Bool) (given : Handles) : List Token → Lex (Handles × List Token)
  | .directive (.version major _) :: rest =>
    if hasVersion || major != 1 then .error .malformed else directives true given rest
  | .directive (.tag handle p) :: rest =>
    if (given.lookup handle).isSome then .error .malformed
    else directives hasVersion ((handle, p) :: given) rest
  | .directive .other :: rest => directives hasVersion given rest
  | .broken fault :: _ => .error fault
  | rest => .ok (given ++ defaultHandles, rest)

def isDocumentMark : List Token → Bool
  | .directive _ :: _ => true
  | .documentStart :: _ => true
  | .documentEnd :: _ => true
  | .streamEnd :: _ => true
  | _ => false

/-- Nothing may follow the document but marks that it has ended; the directives of another
document are read before it is refused. -/
def finishStream : List Token → Lex Unit
  | .documentEnd :: rest => finishStream rest
  | .streamEnd :: _ => .ok ()
  | tokens => do
    let _ ← directives false [] tokens
    throw .malformed

/-- The document that the tokens start with. -/
def parseDocument (handles : Handles) (tokens : List Token) : Lex Node := do
  let (n, s) ← parse handles (6 * tokens.length + 12) .block ⟨tokens, []⟩
  finishStream s.tokens
  pure n

/-- The only document of a stream; none if the stream is empty. -/
def ofTokens (tokens : List Token) : Lex (Option Node) := do
  demand tokens
  match tokens with
  | .directive _ :: _ | .documentStart :: _ => do
    let (handles, rest) ← directives false [] tokens
    match rest with
    | .documentStart :: rest => do
      demand rest
      if isDocumentMark rest then do
        finishStream rest
        pure (some empty)
      else some <$> parseDocument handles rest
    | _ => throw .malformed
  | [.streamEnd] => pure none
  | tokens => some <$> parseDocument defaultHandles tokens

end Node
end ResourceApi.Yaml
