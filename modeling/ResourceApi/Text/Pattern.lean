/-! # Regular patterns

Regular patterns over characters, matched by what is left of a pattern after each
character. -/

namespace ResourceApi.Text

inductive Pattern where
  /-- Matches nothing. -/
  | never
  /-- Matches the empty text. -/
  | nothing
  /-- Matches one character of the closed ranges. -/
  | one (ranges : List (Char × Char))
  | seq (a b : Pattern)
  | alt (a b : Pattern)
  | many (a : Pattern)
  deriving DecidableEq

namespace Pattern

def inClass (ranges : List (Char × Char)) (c : Char) : Bool :=
  ranges.any fun r => r.1 ≤ c && c ≤ r.2

def acceptsEmpty : Pattern → Bool
  | never => false
  | nothing => true
  | one _ => false
  | seq a b => a.acceptsEmpty && b.acceptsEmpty
  | alt a b => a.acceptsEmpty || b.acceptsEmpty
  | many _ => true

/-- Sequence, simplified where one side decides. -/
def seqOf (a b : Pattern) : Pattern :=
  if a = never ∨ b = never then never else if a = nothing then b else seq a b

/-- Alternative, simplified where one side adds nothing. -/
def altOf (a b : Pattern) : Pattern :=
  if a = never ∨ a = b then b else if b = never then a else alt a b

/-- What must follow the character `c` for a text to match. -/
def after (c : Char) : Pattern → Pattern
  | never => never
  | nothing => never
  | one ranges => if inClass ranges c then nothing else never
  | seq a b =>
    if a.acceptsEmpty then altOf (seqOf (after c a) b) (after c b) else seqOf (after c a) b
  | alt a b => altOf (after c a) (after c b)
  | many a => seqOf (after c a) (many a)

/-- Whether the whole text matches. -/
def accepts (p : Pattern) : List Char → Bool
  | [] => p.acceptsEmpty
  | c :: rest => let q := p.after c; if q = never then false else accepts q rest

/-! ## Building patterns -/

def char (c : Char) : Pattern := one [(c, c)]

/-- One of the characters of a text. -/
def oneOf (s : String) : Pattern := one (s.toList.map fun c => (c, c))

def text (s : String) : Pattern := s.toList.foldr (fun c p => seqOf (char c) p) nothing

def anyOf (ps : List Pattern) : Pattern := ps.foldr altOf never

def inTurn (ps : List Pattern) : Pattern := ps.foldr seqOf nothing

def optional (p : Pattern) : Pattern := alt nothing p

/-- One or more. -/
def atLeastOne (p : Pattern) : Pattern := seq p (many p)

end Pattern
end ResourceApi.Text
