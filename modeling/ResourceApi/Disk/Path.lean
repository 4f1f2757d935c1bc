/-! # Paths

A path is a list of names, from the working directory or from a root. Reading a
text drops empty names and single points; two leading slashes are a root of their
own. -/

namespace ResourceApi

/-- Where a path starts. -/
inductive Anchor where
  | here
  | root
  /-- The root that exactly two slashes name. -/
  | doubleRoot
  deriving DecidableEq

def Anchor.text : Anchor → String
  | here => ""
  | root => "/"
  | doubleRoot => "//"

structure Path where
  anchor : Anchor
  names : List String
  deriving DecidableEq

namespace Path

/-- The pieces of a text between slashes. -/
def pieces : List Char → List (List Char)
  | [] => [[]]
  | c :: rest =>
    if c == '/' then [] :: pieces rest
    else match pieces rest with
      | [] => [[c]]
      | p :: ps => (c :: p) :: ps

def ofString (s : String) : Path :=
  let cs := s.toList
  let anchor := match (cs.takeWhile (· == '/')).length with
    | 0 => Anchor.here
    | 2 => .doubleRoot
    | _ => .root
  let named := (pieces cs).filter fun p => !p.isEmpty && p != ['.']
  ⟨anchor, named.map String.ofList⟩

def toString (p : Path) : String :=
  if p.anchor = .here && p.names.isEmpty then "." else p.anchor.text ++ "/".intercalate p.names

def isAbsolute (p : Path) : Bool := p.anchor != .here

/-- `q` seen from `p`; an absolute `q` stands for itself. -/
def join (p q : Path) : Path := if q.isAbsolute then q else ⟨p.anchor, p.names ++ q.names⟩

def child (p : Path) (name : String) : Path := ⟨p.anchor, p.names ++ [name]⟩

/-- The path without its last name. -/
def parent (p : Path) : Path := { p with names := p.names.dropLast }

/-- The ending of a name, from its last point on. A point that starts or ends the name does not
count. -/
def suffix (name : String) : String :=
  let reversed := name.toList.reverse
  let ending := reversed.takeWhile (· != '.')
  let stem := reversed.drop (ending.length + 1)
  if ending.isEmpty || stem.isEmpty then "" else "." ++ String.ofList ending.reverse

end Path
end ResourceApi
