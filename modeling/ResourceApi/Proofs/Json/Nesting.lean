import ResourceApi.Proofs.Json.AtomTexts

/-! # Nesting

How deep the brackets of a text nest is told by one scan, which passes after strings. The
text that is written for a value nests as deep as the value does. -/

namespace ResourceApi.Json

/-! ## Texts -/

/-- Where a scan for brackets stands: outside of strings, in one, or behind a backslash in one. -/
inductive Place where
  | outside
  | quoted
  | escaped

/-- How many brackets are open, and how many were at most. -/
structure Nesting where
  place : Place := .outside
  depth : Nat := 0
  deepest : Nat := 0

namespace Nesting

def next (n : Nesting) (c : Char) : Nesting :=
  match n.place with
  | .escaped => { n with place := .quoted }
  | .quoted =>
    if c = '\\' then { n with place := .escaped }
    else if c = '"' then { n with place := .outside }
    else n
  | .outside =>
    if c = '"' then { n with place := .quoted }
    else if c = '[' ∨ c = '\x7b' then
      { n with depth := n.depth + 1, deepest := max n.deepest (n.depth + 1) }
    else if c = ']' ∨ c = '\x7d' then { n with depth := n.depth - 1 }
    else n

def after (n : Nesting) (cs : List Char) : Nesting := cs.foldl next n

@[simp] theorem after_nil (n : Nesting) : n.after [] = n := rfl

@[simp] theorem after_cons (n : Nesting) (c : Char) (cs : List Char) :
    n.after (c :: cs) = (n.next c).after cs := rfl

@[simp] theorem after_append (n : Nesting) (cs ds : List Char) :
    n.after (cs ++ ds) = (n.after cs).after ds := List.foldl_append

end Nesting

/-- How deep the brackets of a text nest, those in strings apart. -/
def nesting (text : String) : Nat := (Nesting.after {} text.toList).deepest

/-! ## Values -/

mutual
/-- How deep the arrays and objects of a value nest. -/
def depth : Json → Nat
  | null | bool _ | int _ | float _ | str _ => 0
  | arr items => depthOfItems items + 1
  | obj fields => depthOfFields fields + 1

def depthOfItems : List Json → Nat
  | [] => 0
  | v :: rest => max (depth v) (depthOfItems rest)

def depthOfFields : List (String × Json) → Nat
  | [] => 0
  | (_, v) :: rest => max (depth v) (depthOfFields rest)
end

/-! ## Written texts -/

namespace Nesting

variable {k m : Nat}

/-- Outside of strings, what is no quote and no bracket changes nothing. -/
theorem after_apart {cs : List Char} (apart : ∀ c ∈ cs, c ∉ ['"', '[', '\x7b', ']', '\x7d']) :
    after ⟨.outside, k, m⟩ cs = ⟨.outside, k, m⟩ := by
  induction cs with
  | nil => rfl
  | cons c rest ih =>
    obtain ⟨here, later⟩ := List.forall_mem_cons.1 apart
    simp only [List.mem_cons, List.not_mem_nil, or_false, not_or] at here
    obtain ⟨quote, array, object, array', object'⟩ := here
    have still : next ⟨.outside, k, m⟩ c = ⟨.outside, k, m⟩ := by
      simp [next, quote, array, object, array', object']
    rw [after_cons, still, ih later]

theorem after_atomic {cs : List Char} (atomic : Atomic cs) :
    after ⟨.outside, k, m⟩ cs = ⟨.outside, k, m⟩ := by
  have each : atomChars.all (· ∉ ['"', '[', '\x7b', ']', '\x7d']) := by decide
  exact after_apart fun c mem => of_decide_eq_true (List.all_eq_true.1 each c (atomic c mem))

@[simp] theorem after_newLine (level : Nat) :
    after ⟨.outside, k, m⟩ (newLine level) = ⟨.outside, k, m⟩ := by
  refine after_apart (List.forall_mem_cons.2 ⟨by decide, fun c mem => ?_⟩)
  rw [List.eq_of_mem_replicate mem]
  decide

theorem after_quoted {c : Char} (quote : c ≠ '"') (backslash : c ≠ '\\') :
    next ⟨.quoted, k, m⟩ c = ⟨.quoted, k, m⟩ := by
  simp [next, quote, backslash]

/-- The scan is still in the string behind a character that is written there. -/
theorem after_writeChar (c : Char) : after ⟨.quoted, k, m⟩ (writeChar c) = ⟨.quoted, k, m⟩ := by
  have escape (x : Char) : after ⟨.quoted, k, m⟩ ['\\', x] = ⟨.quoted, k, m⟩ := rfl
  rw [writeChar]
  split
  · exact escape c
  · next plain =>
    rw [Bool.or_eq_true, beq_iff_eq, beq_iff_eq, not_or] at plain
    split_ifs with newline ret tab back feed control
    iterate 5 exact escape _
    · rw [(hexDigits_control c.toNat control).1]
      have digits : ∀ n < 0x20, ((n / 16).digitChar ≠ '"' ∧ (n / 16).digitChar ≠ '\\') ∧
          (n % 16).digitChar ≠ '"' ∧ (n % 16).digitChar ≠ '\\' := by decide
      obtain ⟨high, low⟩ := digits c.toNat control
      have start : after ⟨.quoted, k, m⟩ ['\\', 'u', '0', '0'] = ⟨.quoted, k, m⟩ := rfl
      change after (after ⟨.quoted, k, m⟩ ['\\', 'u', '0', '0']) [_, _] = _
      rw [start, after_cons, after_quoted high.1 high.2, after_cons, after_quoted low.1 low.2,
        after_nil]
    · exact after_quoted plain.1 plain.2

@[simp] theorem after_writeString (s : String) :
    after ⟨.outside, k, m⟩ (writeString s) = ⟨.outside, k, m⟩ := by
  have within (cs : List Char) :
      after ⟨.quoted, k, m⟩ (cs.flatMap writeChar) = ⟨.quoted, k, m⟩ := by
    induction cs with
    | nil => rfl
    | cons c rest ih => rw [List.flatMap_cons, after_append, after_writeChar, ih]
  rw [writeString, after_append]
  exact congrArg (after · ['"']) (within s.toList)

section

variable (k m : Nat)

@[simp] theorem next_array :
    next ⟨.outside, k, m⟩ '[' = ⟨.outside, k + 1, max m (k + 1)⟩ := rfl

@[simp] theorem next_object :
    next ⟨.outside, k, m⟩ '\x7b' = ⟨.outside, k + 1, max m (k + 1)⟩ := rfl

@[simp] theorem next_arrayEnd : next ⟨.outside, k + 1, m⟩ ']' = ⟨.outside, k, m⟩ := rfl

@[simp] theorem next_objectEnd : next ⟨.outside, k + 1, m⟩ '\x7d' = ⟨.outside, k, m⟩ := rfl

@[simp] theorem next_comma : next ⟨.outside, k, m⟩ ',' = ⟨.outside, k, m⟩ := rfl

@[simp] theorem next_colon : next ⟨.outside, k, m⟩ ':' = ⟨.outside, k, m⟩ := rfl

@[simp] theorem next_blank : next ⟨.outside, k, m⟩ ' ' = ⟨.outside, k, m⟩ := rfl

end

mutual
/-- Behind a written value, as many brackets are open as before it. -/
theorem after_writeIndented : ∀ (v : Json) (level : Nat) {k m : Nat}, k ≤ m →
    after ⟨.outside, k, m⟩ (writeIndented level v) = ⟨.outside, k, max m (k + v.depth)⟩
  | arr (v :: items), level, k, m, below => by
    simp only [writeIndented, List.cons_append, after_cons, after_append, next_array, after_newLine]
    rw [after_writeIndented v _ (by omega), after_writeIndentedItems items _ (by omega)]
    simp only [after_newLine, next_arrayEnd, after_nil, Json.depth, depthOfItems]
    congr 1
    omega
  | obj ((n, v) :: fields), level, k, m, below => by
    simp only [writeIndented, List.cons_append, after_cons, after_append, next_object,
      after_newLine, after_writeString, next_colon, next_blank]
    rw [after_writeIndented v _ (by omega), after_writeIndentedFields fields _ (by omega)]
    simp only [after_newLine, next_objectEnd, after_nil, Json.depth, depthOfFields]
    congr 1
    omega
  | null, _, k, m, below => by rw [Json.depth, Nat.add_zero, Nat.max_eq_left below]; rfl
  | bool b, _, k, m, below => by
    rw [Json.depth, Nat.add_zero, Nat.max_eq_left below]
    cases b <;> rfl
  | int n, _, k, m, below => by
    rw [Json.depth, Nat.add_zero, Nat.max_eq_left below]
    exact after_atomic (atomic_int n)
  | float x, _, k, m, below => by
    rw [Json.depth, Nat.add_zero, Nat.max_eq_left below]
    exact after_atomic (atomic_float x)
  | str s, _, k, m, below => by
    rw [Json.depth, Nat.add_zero, Nat.max_eq_left below]
    exact after_writeString s
  | arr [], _, k, m, below => rfl
  | obj [], _, k, m, below => rfl

theorem after_writeIndentedItems : ∀ (items : List Json) (level : Nat) {k m : Nat}, k ≤ m →
    after ⟨.outside, k, m⟩ (writeIndentedItems level items) =
      ⟨.outside, k, max m (k + depthOfItems items)⟩
  | [], _, k, m, below => by rw [depthOfItems, Nat.add_zero, Nat.max_eq_left below]; rfl
  | v :: items, level, k, m, below => by
    simp only [writeIndentedItems, List.cons_append, after_cons, after_append, next_comma,
      after_newLine]
    rw [after_writeIndented v _ below, after_writeIndentedItems items _ (by omega), depthOfItems]
    congr 1
    omega

theorem after_writeIndentedFields : ∀ (fields : List (String × Json)) (level : Nat) {k m : Nat},
    k ≤ m → after ⟨.outside, k, m⟩ (writeIndentedFields level fields) =
      ⟨.outside, k, max m (k + depthOfFields fields)⟩
  | [], _, k, m, below => by rw [depthOfFields, Nat.add_zero, Nat.max_eq_left below]; rfl
  | (n, v) :: fields, level, k, m, below => by
    simp only [writeIndentedFields, List.cons_append, after_cons, after_append, next_comma,
      after_newLine, after_writeString, next_colon, next_blank]
    rw [after_writeIndented v _ below, after_writeIndentedFields fields _ (by omega), depthOfFields]
    congr 1
    omega
end

end Nesting

/-- **The text of a value nests as deep as the value.** -/
theorem nesting_indented (v : Json) : nesting (v.indented ++ "\n") = v.depth := by
  rw [nesting, String.toList_append, indented, String.toList_ofList, Nesting.after_append,
    Nesting.after_writeIndented v 0 (Nat.le_refl 0), Nat.zero_add, Nat.max_eq_right (Nat.zero_le _)]
  rfl

end ResourceApi.Json
