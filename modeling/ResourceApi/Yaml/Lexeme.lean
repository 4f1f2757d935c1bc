import ResourceApi.Yaml.Cursor
import ResourceApi.Yaml.Token

/-! # Names, tags and directives of a YAML text

How the words behind an indicator are read, each from the place of the indicator. -/

namespace ResourceApi.Yaml

open Numeral (isDigit digitsValue hexDigit?)

/-- The number of hexadecimal digits. -/
def hexValue? (ds : List Char) : Option Nat :=
  ds.foldlM (fun n c => (hexDigit? c).map (16 * n + ·)) 0

/-- Characters of names. -/
def isWordChar (c : Char) : Bool :=
  isDigit c || ('A' ≤ c && c ≤ 'Z') || ('a' ≤ c && c ≤ 'z') || c == '-' || c == '_'

/-- The end of the text, a blank or a break. -/
def endsToken (c : Char) : Bool := c == '\x00' || c == ' ' || isBreak c

def require (condition : Bool) : Lex Unit :=
  if condition then .ok () else .error .malformed

/-- The name behind `*` or `&`. -/
def lexName (c : Cursor) : Lex (String × Cursor) := do
  let (name, c) := c.next.takeWhile isWordChar
  require (!name.isEmpty)
  require (isSeparator c.peek || "?:,]\x7d%@`".toList.contains c.peek)
  pure (String.ofList name, c)

/-! ## Tags -/

def isTagChar (c : Char) : Bool :=
  isWordChar c || ";/?:@&=+$,.!~*'()[]%".toList.contains c

/-- The bytes of escapes `%XX` that stand here in a row; `fuel` bounds their number. -/
def lexEscapedBytes : Nat → Cursor → Lex (List UInt8 × Cursor)
  | 0, c => .ok ([], c)
  | fuel + 1, c =>
    if c.peek == '%' then do
      match hexValue? [c.peekAt 1, c.peekAt 2] with
      | none => .error .malformed
      | some n =>
        let (bytes, c) ← lexEscapedBytes fuel (c.skip 3)
        pure (n.toUInt8 :: bytes, c)
    else .ok ([], c)

/-- The characters of a tag's name, escapes resolved. -/
def lexTagChars : Nat → Cursor → Lex (List Char × Cursor)
  | 0, c => .ok ([], c)
  | fuel + 1, c =>
    if c.peek == '%' then do
      let (bytes, c) ← lexEscapedBytes (c.rest.length + 1) c
      match String.fromUTF8? bytes.toByteArray with
      | none => .error .malformed
      | some s =>
        let (more, c) ← lexTagChars fuel c
        pure (s.toList ++ more, c)
    else if isTagChar c.peek then do
      let (more, d) ← lexTagChars fuel c.next
      pure (c.peek :: more, d)
    else .ok ([], c)

def lexTagName (c : Cursor) : Lex (String × Cursor) := do
  require (isTagChar c.peek)
  let (cs, c) ← lexTagChars (c.rest.length + 1) c
  pure (String.ofList cs, c)

/-- The handle of a tag: one exclamation mark, or two around a word. -/
def lexTagHandle (c : Cursor) : Lex (String × Cursor) := do
  require (c.peek == '!')
  let (word, d) := c.next.takeWhile isWordChar
  if c.peekAt 1 == ' ' then pure ("!", c.next)
  else do
    require (d.peek == '!')
    pure ("!" ++ String.ofList word ++ "!", d.next)

/-- A tag: `!<name>`, a lone `!`, or a name behind a handle. -/
def lexTag (c : Cursor) : Lex (Token × Cursor) := do
  let (token, d) ←
    if c.peekAt 1 == '<' then do
      let (name, d) ← lexTagName (c.skip 2)
      require (d.peek == '>')
      pure (Token.tag none name, d.next)
    else if isSeparator (c.peekAt 1) then pure (Token.tag none "!", c.next)
    else do
      let usesHandle := (c.next.rest.takeWhile (!endsToken ·)).contains '!'
      let (handle, d) ← if usesHandle then lexTagHandle c else pure ("!", c.next)
      let (name, d) ← lexTagName d
      pure (Token.tag (some handle) name, d)
  require (endsToken d.peek)
  pure (token, d)

/-! ## Directives -/

def lexNumber (c : Cursor) : Lex (Nat × Cursor) := do
  let (ds, c) := c.takeWhile isDigit
  require (!ds.isEmpty)
  if Numeral.mostDigits < ds.length then throw (.longInt ds.length)
  pure (digitsValue ds, c)

/-- A directive with the rest of its line. -/
def lexDirective (c : Cursor) : Lex (Token × Cursor) := do
  let (name, c) := c.next.takeWhile isWordChar
  require (!name.isEmpty && endsToken c.peek)
  let (directive, c) ←
    if String.ofList name == "YAML" then do
      let (major, c) ← lexNumber c.skipBlanks
      require (c.peek == '.')
      let (minor, c) ← lexNumber c.next
      require (endsToken c.peek)
      pure (Directive.version major minor, c)
    else if String.ofList name == "TAG" then do
      let (handle, c) ← lexTagHandle c.skipBlanks
      require (c.peek == ' ')
      let (name, c) ← lexTagName c.skipBlanks
      require (endsToken c.peek)
      pure (Directive.tag handle name, c)
    else pure (Directive.other, c.skipWhile (!isBreak ·))
  let c ← c.finishLine
  pure (.directive directive, c)

end ResourceApi.Yaml
