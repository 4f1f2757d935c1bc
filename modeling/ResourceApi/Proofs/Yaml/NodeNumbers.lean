import ResourceApi.Proofs.Yaml.TokenNodes
import ResourceApi.Yaml.Graph

/-! # The numbers of a value's nodes

In the graph of a written value each node is held at a number of its own, and its parts
at greater ones. So a collection may be filled behind its parts, as none of them lies
in its place. -/

namespace ResourceApi.Yaml.Graph

variable {g g' : Graph} {i j low : Nat}

/-! ## Values in a graph -/

mutual
/-- A number holds a value: its node, and its parts behind it. -/
def Holds (g : Graph) (i : Nat) : Json → Prop
  | .str t => g.entries[i]? = some (.scalar .text t)
  | .arr items =>
    ∃ parts, g.entries[i]? = some (.sequence .list parts) ∧ HoldsItems g i parts items
  | .obj fields =>
    ∃ parts, g.entries[i]? = some (.mapping .map parts) ∧ HoldsFields g i parts fields
  | v => g.entries[i]? = some (.scalar (wordTag v) ((wordOf? v).getD ""))

/-- Numbers behind `i` hold the items of a list. -/
def HoldsItems (g : Graph) (i : Nat) : List Nat → List Json → Prop
  | [], [] => True
  | j :: parts, v :: items => i < j ∧ Holds g j v ∧ HoldsItems g i parts items
  | _, _ => False

/-- Numbers behind `i` hold the keys and the values of a map. -/
def HoldsFields (g : Graph) (i : Nat) : List (Nat × Nat) → List (String × Json) → Prop
  | [], [] => True
  | (k, j) :: parts, (key, v) :: fields =>
    i < k ∧ g.entries[k]? = some (.scalar .text key) ∧ i < j ∧ Holds g j v ∧
      HoldsFields g i parts fields
  | _, _ => False
end

/-- The second graph has all entries of the first from a number on. -/
def Keeps (low : Nat) (g g' : Graph) : Prop :=
  ∀ j e, low ≤ j → g.entries[j]? = some e → g'.entries[j]? = some e

theorem Keeps.trans {h : Graph} (first : Keeps low g g') (second : Keeps low g' h) :
    Keeps low g h :=
  fun j e le entry => second j e le (first j e le entry)

theorem Keeps.from_ (keeps : Keeps low g g') (le : low ≤ i) : Keeps i g g' :=
  fun j e le' entry => keeps j e (le.trans le') entry

mutual
/-- What a number holds stands at it and behind it. -/
theorem Holds.keep : ∀ {v : Json} {i : Nat}, Holds g i v → Keeps i g g' → Holds g' i v
  | .null, _, h, keeps | .bool _, _, h, keeps | .int _, _, h, keeps | .float _, _, h, keeps
  | .str _, _, h, keeps => keeps _ _ le_rfl h
  | .arr _, i, ⟨parts, entry, items⟩, keeps =>
    ⟨parts, keeps _ _ le_rfl entry, HoldsItems.keep items (keeps.from_ (Nat.le_succ i))⟩
  | .obj _, i, ⟨parts, entry, fields⟩, keeps =>
    ⟨parts, keeps _ _ le_rfl entry, HoldsFields.keep fields (keeps.from_ (Nat.le_succ i))⟩

theorem HoldsItems.keep : ∀ {items : List Json} {i : Nat} {parts : List Nat},
    HoldsItems g i parts items → Keeps (i + 1) g g' → HoldsItems g' i parts items
  | [], _, [], _, _ => trivial
  | _ :: _, _, _ :: _, ⟨lt, held, rest⟩, keeps =>
    ⟨lt, held.keep (keeps.from_ lt), HoldsItems.keep rest keeps⟩

theorem HoldsFields.keep : ∀ {fields : List (String × Json)} {i : Nat} {parts : List (Nat × Nat)},
    HoldsFields g i parts fields → Keeps (i + 1) g g' → HoldsFields g' i parts fields
  | [], _, [], _, _ => trivial
  | _ :: _, _, _ :: _, ⟨ltKey, key, lt, held, rest⟩, keeps =>
    ⟨ltKey, keeps _ _ ltKey key, lt, held.keep (keeps.from_ lt), HoldsFields.keep rest keeps⟩
end

/-! ## Numbering -/

namespace Numbering

variable {n : Numbering} {e : Entry}

theorem push_next (n : Numbering) (e : Entry) : (n.push e).next = n.next + 1 :=
  Array.size_push e

theorem keeps_push (n : Numbering) (e : Entry) : Keeps 0 n.graph (n.push e).graph := by
  intro j e' _ entry
  obtain ⟨lt, _⟩ := Array.getElem?_eq_some_iff.1 entry
  have same : some n.graph.entries[j] = some e' := by rw [← entry, Array.getElem?_eq_getElem lt]
  exact (Array.getElem?_push_lt lt).trans same

theorem entry_push (n : Numbering) (e : Entry) :
    (n.push e).graph.entries[n.next]? = some e :=
  Array.getElem?_push_size

theorem fill_next (n : Numbering) (i : Nat) (e : Entry) : (n.fill i e).next = n.next :=
  Array.size_setIfInBounds

theorem entry_fill (lt : i < n.next) : (n.fill i e).graph.entries[i]? = some e :=
  Array.getElem?_setIfInBounds_self_of_lt lt

theorem keeps_fill (lt : i < low) : Keeps low n.graph (n.fill i e).graph := by
  intro j e' le entry
  exact (Array.getElem?_setIfInBounds_ne (lt.trans_le le).ne).trans entry

/-- More nodes have numbers, and those numbered before have what they had. -/
structure Extends (n m : Numbering) : Prop where
  next_le : n.next ≤ m.next
  keeps : Keeps 0 n.graph m.graph

theorem Extends.refl (n : Numbering) : Extends n n := ⟨le_rfl, fun _ _ _ h => h⟩

theorem Extends.trans {n m l : Numbering} (first : Extends n m) (second : Extends m l) :
    Extends n l :=
  ⟨first.next_le.trans second.next_le, first.keeps.trans second.keeps⟩

theorem extends_push (n : Numbering) (e : Entry) : Extends n (n.push e) :=
  ⟨by rw [push_next]; exact Nat.le_succ _, keeps_push n e⟩

/-- A collection gets its number before its parts, and is filled behind them. -/
theorem Extends.filled {m : Numbering} {first last : Entry} (parts : Extends (n.push first) m) :
    Extends n (m.fill n.next last) where
  next_le := by
    rw [fill_next]
    exact (extends_push n first).next_le.trans parts.next_le
  keeps j e _ entry := by
    obtain ⟨lt, _⟩ := Array.getElem?_eq_some_iff.1 entry
    exact (Array.getElem?_setIfInBounds_ne (Nat.ne_of_gt lt)).trans
      (((extends_push n first).trans parts).keeps j e (Nat.zero_le j) entry)

theorem Extends.next_lt {m : Numbering} (parts : Extends (n.push e) m) : n.next < m.next := by
  have le := parts.next_le
  rwa [push_next] at le

mutual
/-- **The node of a value gets the next number**, which then holds the value. -/
theorem holds_add : ∀ (v : Json) (n : Numbering),
    (n.add (nodeOf v)).1 = n.next ∧ n.next < (n.add (nodeOf v)).2.next ∧
      Extends n (n.add (nodeOf v)).2 ∧ Holds (n.add (nodeOf v)).2.graph n.next v
  | .null, n | .bool _, n | .int _, n | .float _, n | .str _, n =>
    ⟨rfl, (Extends.refl _).next_lt, extends_push n _, entry_push n _⟩
  | .arr items, n => by
    obtain ⟨extended, held⟩ := holdsItems_add items (n.push (.sequence .list []))
    have lt := extended.next_lt
    have items' := held n.next (push_next n _ ▸ Nat.lt_succ_self _)
    exact ⟨rfl, (fill_next ..).symm ▸ lt, extended.filled, _, entry_fill lt,
      items'.keep (keeps_fill (Nat.lt_succ_self _))⟩
  | .obj fields, n => by
    obtain ⟨extended, held⟩ := holdsFields_add fields (n.push (.mapping .map []))
    have lt := extended.next_lt
    have fields' := held n.next (push_next n _ ▸ Nat.lt_succ_self _)
    exact ⟨rfl, (fill_next ..).symm ▸ lt, extended.filled, _, entry_fill lt,
      fields'.keep (keeps_fill (Nat.lt_succ_self _))⟩

/-- The nodes of a list's items get numbers behind all given so far. -/
theorem holdsItems_add : ∀ (items : List Json) (n : Numbering),
    Extends n (n.addItems (itemNodes items)).2 ∧
      ∀ i < n.next, HoldsItems (n.addItems (itemNodes items)).2.graph i
        (n.addItems (itemNodes items)).1 items
  | [], n => ⟨.refl n, fun _ _ => trivial⟩
  | v :: items, n => by
    obtain ⟨number, lt, extended, held⟩ := holds_add v n
    obtain ⟨extended', rest⟩ := holdsItems_add items (n.add (nodeOf v)).2
    refine ⟨extended.trans extended', fun i lt' => ⟨number ▸ lt', ?_, rest i (lt'.trans lt)⟩⟩
    exact (number ▸ held).keep (extended'.keeps.from_ (Nat.zero_le _))

/-- The nodes of a map's keys and values get numbers behind all given so far. -/
theorem holdsFields_add : ∀ (fields : List (String × Json)) (n : Numbering),
    Extends n (n.addFields (fieldNodes fields)).2 ∧
      ∀ i < n.next, HoldsFields (n.addFields (fieldNodes fields)).2.graph i
        (n.addFields (fieldNodes fields)).1 fields
  | [], n => ⟨.refl n, fun _ _ => trivial⟩
  | (key, v) :: fields, n => by
    let named := n.push (.scalar .text key)
    have lt₁ : n.next < named.next := (Extends.refl _).next_lt
    obtain ⟨number, lt₂, extended, held⟩ := holds_add v named
    obtain ⟨extended', rest⟩ := holdsFields_add fields (named.add (nodeOf v)).2
    refine ⟨((extends_push n _).trans extended).trans extended', fun i lt' =>
      ⟨lt', ?_, number ▸ lt'.trans lt₁, ?_, rest i (lt'.trans (lt₁.trans lt₂))⟩⟩
    · exact (extended.trans extended').keeps _ _ (Nat.zero_le _) (entry_push n _)
    · exact (number ▸ held).keep (extended'.keeps.from_ (Nat.zero_le _))
end

end Numbering

/-- **The whole of a document** is held at its first number. -/
theorem holds_ofNode (v : Json) : Holds (ofNode (nodeOf v)) 0 v :=
  (Numbering.holds_add v .start).2.2.2

end ResourceApi.Yaml.Graph
