/-! # Similar texts

How much of two texts is the same, and which of several names a misspelled word is
near to. The longest run of characters that two texts share counts first, then what
they share in front of it and behind it. -/

namespace ResourceApi.Text

/-- A run of characters that two texts share, by where it starts in each of them. -/
structure SharedRun where
  left : Nat
  right : Nat
  length : Nat

/-- The number of characters with which both texts start. -/
def commonStart : List Char → List Char → Nat
  | a :: as, b :: bs => if a == b then commonStart as bs + 1 else 0
  | _, _ => 0

/-- The runs from the start of `as`, which is at `i` of its text, to each place of the other
text from `j` on. -/
def runsFrom (i : Nat) (as : List Char) : Nat → List Char → List SharedRun
  | _, [] => []
  | j, b :: bs => ⟨i, j, commonStart as (b :: bs)⟩ :: runsFrom i as (j + 1) bs

/-- The runs from each place of a text to each place of the other. -/
def sharedRuns (bs : List Char) : Nat → List Char → List SharedRun
  | _, [] => []
  | i, a :: as => runsFrom i (a :: as) 0 bs ++ sharedRuns bs (i + 1) as

/-- The longest run that two texts share, and the first of several. -/
def longestRun (as bs : List Char) : SharedRun :=
  (sharedRuns bs 0 as).foldl (fun best r => if best.length < r.length then r else best) ⟨0, 0, 0⟩

/-- The number of characters that two texts share; `fuel` is more than the length of the
first. -/
def sharedCount : Nat → List Char → List Char → Nat
  | 0, _, _ => 0
  | fuel + 1, as, bs =>
    let r := longestRun as bs
    if r.length == 0 then 0
    else r.length + sharedCount fuel (as.take r.left) (bs.take r.right) +
      sharedCount fuel (as.drop (r.left + r.length)) (bs.drop (r.right + r.length))

/-- A name with what it shares with a word, and what there is of both. -/
structure Likeness where
  name : String
  shared : Nat
  total : Nat

namespace Likeness

def of (word name : String) : Likeness :=
  ⟨name, sharedCount (name.length + 1) name.toList word.toList, name.length + word.length⟩

/-- At least three of ten characters are shared, each shared one standing in both texts. -/
def isClose (l : Likeness) : Bool := 3 * l.total ≤ 10 * l.shared

/-- The larger share goes first; of equal ones, the later name. -/
def goesBefore (l m : Likeness) : Bool :=
  m.shared * l.total < l.shared * m.total ||
    (m.shared * l.total == l.shared * m.total && !(l.name < m.name))

end Likeness

/-- How many names are suggested for a word at most. -/
def mostNames : Nat := 3

/-- The names that a word is nearest to, in alphabetical order. -/
def nearest (word : String) (names : List String) : List String :=
  let close := (names.map (Likeness.of word)).filter Likeness.isClose
  let best := (close.mergeSort Likeness.goesBefore).take mostNames
  (best.map (·.name)).mergeSort fun a b => !(b < a)

end ResourceApi.Text
