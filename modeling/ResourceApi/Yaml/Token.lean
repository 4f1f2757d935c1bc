import ResourceApi.Yaml.ReadFault

/-! # Tokens of a YAML text

The marks and scalars a text is made of. Blocks that only the indentation shows
have tokens for where they start and end. The last token ends the text, or tells why
no more can be read of it. -/

namespace ResourceApi.Yaml

inductive Directive where
  | version (major minor : Nat)
  | tag (handle tagPrefix : String)
  | other

inductive Token where
  | directive (d : Directive)
  | documentStart
  | documentEnd
  | streamEnd
  /-- The text has a fault that shows as soon as what comes next is asked for. -/
  | broken (fault : ReadFault)
  | blockSequenceStart
  | blockMappingStart
  | blockEnd
  | flowSequenceStart
  | flowSequenceEnd
  | flowMappingStart
  | flowMappingEnd
  | blockEntry
  | flowEntry
  | key
  | value
  | reference (name : String)
  | anchor (name : String)
  /-- A tag by its handle, if it has one, and the rest of its name. -/
  | tag (handle : Option String) (suffix : String)
  /-- A scalar, and whether it stands without quotes. -/
  | scalar (text : String) (plain : Bool)

end ResourceApi.Yaml
