/-! # Control sequences of a terminal

A control sequence sets the colours of a terminal or moves its cursor. It starts with
an escape character and an opening bracket; parameters and intermediate characters
may follow, and a final character ends it. What looks like the start of one and does
not end so is text. -/

namespace ResourceApi.Text

/-- How much of a control sequence is there. -/
inductive SequencePart where
  | nothing
  | escape
  | parameters
  | intermediates
  deriving DecidableEq

namespace SequencePart

/-- The part with one more character, if that carries the sequence on. -/
def after (part : SequencePart) (c : Char) : Option SequencePart :=
  match part with
  | nothing => if c = '\x1b' then some escape else none
  | escape => if c = '[' then some parameters else none
  | parameters =>
    if '0' ≤ c && c ≤ '?' then some parameters
    else if ' ' ≤ c && c ≤ '/' then some intermediates
    else none
  | intermediates => if ' ' ≤ c && c ≤ '/' then some intermediates else none

/-- Whether a character ends the sequence. -/
def endsWith (part : SequencePart) (c : Char) : Bool :=
  (part == parameters || part == intermediates) && '@' ≤ c && c ≤ '~'

end SequencePart

/-- The text behind a part of a sequence, without control sequences. `held` is the text of that
part, the last character first; it is text after all if the sequence does not end. -/
def dropSequencesFrom (part : SequencePart) (held : List Char) : List Char → List Char
  | [] => held.reverse
  | c :: rest =>
    match part.after c with
    | some next => dropSequencesFrom next (c :: held) rest
    | none =>
      if part.endsWith c then dropSequencesFrom .nothing [] rest
      else held.reverse ++ match SequencePart.nothing.after c with
        | some next => dropSequencesFrom next [c] rest
        | none => c :: dropSequencesFrom .nothing [] rest

/-- A text without its control sequences. -/
def plain (s : String) : String := String.ofList (dropSequencesFrom .nothing [] s.toList)

end ResourceApi.Text
