import ResourceApi.Disk.Basic
import ResourceApi.Notice
import ResourceApi.Resource.Problem

/-! # Outcomes

What an operation on files leaves behind: the disk, what it reported on the way, and
its result or why it stopped. What was written before a stop stays written. -/

namespace ResourceApi

/-- Why an operation on files stops. -/
inductive Halt where
  /-- A schema has a problem, or the finished document has. -/
  | schema (error : SchemaError)
  /-- The bytes of a file are no text, or the text for a file has no bytes. -/
  | notUnicode (fault : UnicodeFault)
  /-- A schema has an integer of more digits than are read and written. -/
  | longInt (digits : Nat)
  | disk (reason : DiskError)
  /-- None of the files, of which there are some, was compiled. -/
  | allFailed (count : Nat)

/-- The message that a run ends with; none for a halt that breaks it off. -/
def Halt.message? : Halt → Option String
  | schema error => some error.message
  | allFailed count => some s!"All {count} schema files failed to compile"
  | notUnicode _ | longInt _ | disk _ => none

structure Outcome (α : Type) where
  disk : Disk
  notices : List Notice
  result : Except Halt α

namespace Outcome

variable {α β : Type}

/-- Goes on with the result, if there is one. -/
def andThen (o : Outcome α) (next : Disk → α → Outcome β) : Outcome β :=
  match o.result with
  | .error h => ⟨o.disk, o.notices, .error h⟩
  | .ok a =>
    let r := next o.disk a
    { r with notices := o.notices ++ r.notices }

theorem andThen_error {o : Outcome α} {h : Halt} (next : Disk → α → Outcome β)
    (stopped : o.result = .error h) : o.andThen next = ⟨o.disk, o.notices, .error h⟩ := by
  rw [andThen, stopped]

theorem andThen_ok {o : Outcome α} {a : α} (next : Disk → α → Outcome β)
    (reached : o.result = .ok a) :
    o.andThen next =
      ⟨(next o.disk a).disk, o.notices ++ (next o.disk a).notices, (next o.disk a).result⟩ := by
  rw [andThen, reached]

end Outcome
end ResourceApi
