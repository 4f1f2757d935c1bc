import ResourceApi.Proofs.Json.AtomTexts

/-! # Line ends in written text

A written text ends its lines with line feeds alone: a carriage return in a string is
escaped, and nothing else holds one. So nothing is lost when the lines of a file are
unified on reading. -/

namespace ResourceApi.Json

/-- No carriage return is written. -/
def NoReturn (cs : List Char) : Prop := '\r' ∉ cs

instance (cs : List Char) : Decidable (NoReturn cs) := inferInstanceAs (Decidable ('\r' ∉ cs))

theorem noReturn_append {cs ds : List Char} : NoReturn (cs ++ ds) ↔ NoReturn cs ∧ NoReturn ds := by
  rw [NoReturn, List.mem_append, not_or]
  exact Iff.rfl

theorem noReturn_cons {c : Char} {cs : List Char} : NoReturn (c :: cs) ↔ c ≠ '\r' ∧ NoReturn cs := by
  rw [NoReturn, List.mem_cons, not_or, ne_comm]
  exact Iff.rfl

theorem Atomic.noReturn {cs : List Char} (atomic : Atomic cs) : NoReturn cs :=
  fun mem => absurd (atomic _ mem) (by decide)

theorem noReturn_writeChar (c : Char) : NoReturn (writeChar c) := by
  rw [writeChar]
  split
  · next quoted =>
    rw [Bool.or_eq_true, beq_iff_eq, beq_iff_eq] at quoted
    rcases quoted with rfl | rfl <;> decide
  · split_ifs with newline ret tab back feed control
    iterate 5 decide
    · rw [(hexDigits_control c.toNat control).1]
      have digits : ∀ n < 0x20, (n / 16).digitChar ≠ '\r' ∧ (n % 16).digitChar ≠ '\r' := by decide
      obtain ⟨high, low⟩ := digits c.toNat control
      simp only [noReturn_cons]
      exact ⟨by decide, by decide, by decide, by decide, high, low, List.not_mem_nil⟩
    · exact noReturn_cons.2 ⟨fun same => ret (by rw [same]; rfl), List.not_mem_nil⟩

theorem noReturn_writeString (s : String) : NoReturn (writeString s) := by
  rw [writeString]
  refine noReturn_append.2 ⟨noReturn_cons.2 ⟨by decide, ?_⟩, by decide⟩
  intro mem
  obtain ⟨c, -, mem⟩ := List.mem_flatMap.1 mem
  exact noReturn_writeChar c mem

theorem noReturn_writeAtom (v : Json) : NoReturn (writeAtom v) := by
  cases v with
  | null => decide
  | arr items => exact (by decide : NoReturn ['[', ']'])
  | obj fields => exact (by decide : NoReturn ['\x7b', '\x7d'])
  | bool b => cases b <;> decide
  | int n => exact (atomic_int n).noReturn
  | float x => exact (atomic_float x).noReturn
  | str s => exact noReturn_writeString s

theorem noReturn_newLine (level : Nat) : NoReturn (newLine level) := by
  refine noReturn_cons.2 ⟨by decide, fun mem => ?_⟩
  exact absurd (List.eq_of_mem_replicate mem) (by decide)

mutual
theorem noReturn_writeIndented : ∀ (v : Json) (level : Nat), NoReturn (writeIndented level v)
  | arr (v :: items), level => by
    simp only [writeIndented, noReturn_append, noReturn_cons]
    exact ⟨⟨⟨⟨⟨by decide, noReturn_newLine _⟩, noReturn_writeIndented v _⟩,
      noReturn_writeIndentedItems items _⟩, noReturn_newLine _⟩, by decide, List.not_mem_nil⟩
  | obj ((n, v) :: fields), level => by
    simp only [writeIndented, noReturn_append, noReturn_cons]
    exact ⟨⟨⟨⟨⟨⟨by decide, noReturn_newLine _⟩, noReturn_writeString n⟩, by decide, by decide,
      noReturn_writeIndented v _⟩, noReturn_writeIndentedFields fields _⟩, noReturn_newLine _⟩,
      by decide, List.not_mem_nil⟩
  | null, _ => noReturn_writeAtom null
  | bool b, _ => noReturn_writeAtom (bool b)
  | int n, _ => noReturn_writeAtom (int n)
  | float x, _ => noReturn_writeAtom (float x)
  | str s, _ => noReturn_writeAtom (str s)
  | arr [], _ => noReturn_writeAtom (arr [])
  | obj [], _ => noReturn_writeAtom (obj [])

theorem noReturn_writeIndentedItems :
    ∀ (items : List Json) (level : Nat), NoReturn (writeIndentedItems level items)
  | [], _ => List.not_mem_nil
  | v :: items, level => by
    simp only [writeIndentedItems, noReturn_append, noReturn_cons]
    exact ⟨⟨⟨by decide, noReturn_newLine _⟩, noReturn_writeIndented v _⟩,
      noReturn_writeIndentedItems items _⟩

theorem noReturn_writeIndentedFields :
    ∀ (fields : List (String × Json)) (level : Nat), NoReturn (writeIndentedFields level fields)
  | [], _ => List.not_mem_nil
  | (n, v) :: fields, level => by
    simp only [writeIndentedFields, noReturn_append, noReturn_cons]
    exact ⟨⟨⟨⟨by decide, noReturn_newLine _⟩, noReturn_writeString n⟩, by decide, by decide,
      noReturn_writeIndented v _⟩, noReturn_writeIndentedFields fields _⟩
end

end ResourceApi.Json
