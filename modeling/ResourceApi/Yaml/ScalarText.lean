import ResourceApi.Text.Quoted
import ResourceApi.Yaml.Resolve

/-! # Texts as YAML scalars

A text is written plain where that reads back as the same text, else between single
quotes, and between double quotes where single ones cannot hold it. Lines that have
grown past their width are broken at blanks. -/

namespace ResourceApi.Yaml

/-- The width past which a line is broken at the next occasion. -/
def lineWidth : Nat := 80

def isBreak (c : Char) : Bool := c == '\n' || c == '\u0085' || c == '\u2028' || c == '\u2029'

/-- Characters that end a word: breaks, blanks and NUL. -/
def isSeparator (c : Char) : Bool := isBreak c || c == '\x00' || c == ' ' || c == '\t' || c == '\r'

/-- Characters that only double quotes can hold. -/
def isSpecial (c : Char) : Bool :=
  let n := c.toNat
  !(c == '\n' || (0x20 ≤ n && n ≤ 0x7e) || n == 0x85 || (0xa0 ≤ n && n ≤ 0xd7ff) ||
    (0xe000 ≤ n && n ≤ 0xfffd && n != 0xfeff) || (0x10000 ≤ n && n < 0x10ffff))

/-- Whether a word ends before the rest of a text. -/
def endsWord (rest : List Char) : Bool :=
  match rest with
  | [] => true
  | c :: _ => isSeparator c

/-! ## What a text allows -/

/-- A colon that ends a word, or a number sign that starts one, behind the first character. -/
def hasInnerIndicator (startsWord : Bool) : List Char → Bool
  | [] => false
  | c :: rest =>
    (c == ':' && endsWord rest) || (c == '#' && startsWord) ||
      hasInnerIndicator (isSeparator c) rest

/-- Whether a text would be taken for more than a scalar. -/
def hasIndicator (cs : List Char) : Bool :=
  match cs with
  | [] => false
  | c :: rest =>
    ['-', '-', '-'].isPrefixOf cs || ['.', '.', '.'].isPrefixOf cs ||
      "#,[]\x7b\x7d&*!|>'\"%@`".toList.contains c ||
      ("?:-".toList.contains c && endsWord rest) || hasInnerIndicator (isSeparator c) rest

/-- A blank beside a break, in the given order. -/
def hasPair (first second : Char → Bool) : List Char → Bool
  | a :: b :: rest => (first a && second b) || hasPair first second (b :: rest)
  | _ => false

def isBlank (c : Char) : Bool := c == ' '

def hasBreak (cs : List Char) : Bool := cs.any isBreak

/-- Whether single quotes can hold a text. -/
def fitsSingle (cs : List Char) : Bool :=
  !hasPair isBreak isBlank cs && !hasPair isBlank isBreak cs && !cs.any isSpecial

def isEdge (c : Option Char) : Bool := (c.map fun c => isBlank c || isBreak c).getD true

/-- Whether a text written plain reads back as itself. -/
def fitsPlain (cs : List Char) : Bool :=
  !isEdge cs.head? && !isEdge cs.getLast? && !cs.any isSpecial && !hasBreak cs &&
    !hasIndicator cs && resolve cs = .text

inductive Quoting where
  | plain
  | single
  | double
  deriving DecidableEq

/-- How a text is written; a key stays on one line. -/
def quoting (isKey : Bool) (cs : List Char) : Quoting :=
  if fitsPlain cs then .plain
  else if fitsSingle cs && !(isKey && hasBreak cs) then .single
  else .double

/-! ## Writing -/

def newLine (indent : Nat) : List Char := '\n' :: List.replicate indent ' '

/-- Where a scalar stands: whether its lines may be broken, and the indentation of the lines
after the first. -/
structure Setting where
  mayBreak : Bool
  indent : Nat

/-- A single blank that ends a line past its width. -/
def breaksHere (s : Setting) (column : Nat) (previous : Char) (rest : List Char) : Bool :=
  s.mayBreak && lineWidth < column && previous != ' ' &&
    (match rest with
     | [] => false
     | c :: _ => c != ' ')

/-- A plain text whose part before this one ends in `previous` at `column`. -/
def writePlain (s : Setting) (column : Nat) (previous : Char) : List Char → List Char
  | [] => []
  | c :: rest =>
    if c == ' ' && breaksHere s column previous rest then
      newLine s.indent ++ writePlain s s.indent c rest
    else c :: writePlain s (column + 1) c rest

/-- The inside of single quotes; `previous` is the character before, if there is one. -/
def writeSingle (s : Setting) (column : Nat) (previous : Option Char) : List Char → List Char
  | [] => []
  | c :: rest =>
    if isBreak c then
      let starts := !(previous.map isBreak).getD false
      let ends := !((rest.head?).map isBreak).getD false
      (if starts && c == '\n' then ['\n'] else []) ++ [c] ++
        (if ends then List.replicate s.indent ' ' else []) ++
        writeSingle s (if ends then s.indent else 0) (some c) rest
    else if c == ' ' && previous.isSome && breaksHere s column (previous.getD ' ') rest then
      newLine s.indent ++ writeSingle s s.indent (some c) rest
    else if c == '\'' then '\'' :: '\'' :: writeSingle s (column + 2) (some c) rest
    else c :: writeSingle s (column + 1) (some c) rest

/-- The letter that stands for a character behind a backslash. -/
def escapeLetter? : Char → Option Char
  | '\x00' => some '0'
  | '\x07' => some 'a'
  | '\x08' => some 'b'
  | '\t' => some 't'
  | '\n' => some 'n'
  | '\x0b' => some 'v'
  | '\x0c' => some 'f'
  | '\r' => some 'r'
  | '\x1b' => some 'e'
  | '"' => some '"'
  | '\\' => some '\\'
  | '\u0085' => some 'N'
  | '\u00a0' => some '_'
  | '\u2028' => some 'L'
  | '\u2029' => some 'P'
  | _ => none

/-- Characters that stand for themselves between double quotes. -/
def isRaw (c : Char) : Bool :=
  let n := c.toNat
  !(c == '"' || c == '\\' || isBreak c || n == 0xfeff) &&
    ((0x20 ≤ n && n ≤ 0x7e) || (0xa0 ≤ n && n ≤ 0xd7ff) || (0xe000 ≤ n && n ≤ 0xfffd))

def upperHex (width n : Nat) : List Char := (Text.hexDigits width n).map Char.toUpper

def escape (c : Char) : List Char :=
  match escapeLetter? c with
  | some letter => ['\\', letter]
  | none =>
    if c.toNat ≤ 0xff then '\\' :: 'x' :: upperHex 2 c.toNat
    else if c.toNat ≤ 0xffff then '\\' :: 'u' :: upperHex 4 c.toNat
    else '\\' :: 'U' :: upperHex 8 c.toNat

/-- A broken line, and a backslash before a blank that would otherwise be lost. -/
def brokenLine (s : Setting) (next : Option Char) : List Char :=
  '\\' :: newLine s.indent ++ (if next = some ' ' then ['\\'] else [])

def brokenColumn (s : Setting) (next : Option Char) : Nat :=
  if next = some ' ' then s.indent + 1 else s.indent

/-- The inside of double quotes. Lines may be broken before a blank or an unescaped character
that follows an escaped one (`afterEscape`), and behind an escaped one, but neither at the first
nor at the last character. -/
def writeDouble (s : Setting) (column : Nat) (isFirst afterEscape : Bool) : List Char → List Char
  | [] => []
  | c :: rest =>
    let inside := s.mayBreak && !isFirst && !rest.isEmpty
    if isRaw c then
      if inside && (c == ' ' || afterEscape) && lineWidth < column then
        brokenLine s (some c) ++
          c :: writeDouble s (brokenColumn s (some c) + 1) false false rest
      else c :: writeDouble s (column + 1) false false rest
    else
      let escaped := escape c
      let column := column + escaped.length
      if inside && lineWidth + 1 < column then
        escaped ++ brokenLine s rest.head? ++
          writeDouble s (brokenColumn s rest.head?) false true rest
      else escaped ++ writeDouble s column false true rest

/-- A text as a scalar that starts at `column`. -/
def writeText (s : Setting) (isKey : Bool) (column : Nat) (text : String) : List Char :=
  let cs := text.toList
  match quoting isKey cs with
  | .plain => writePlain s column '"' cs
  | .single => '\'' :: writeSingle s (column + 1) none cs ++ ['\'']
  | .double => '"' :: writeDouble s (column + 1) true true cs ++ ['"']

end ResourceApi.Yaml
