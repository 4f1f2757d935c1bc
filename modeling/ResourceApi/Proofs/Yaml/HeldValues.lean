import ResourceApi.Proofs.Json.FieldLaws
import ResourceApi.Proofs.Yaml.NodeNumbers
import ResourceApi.Yaml.Value

/-! # What a number that holds a value gives

The entry of a number that holds a value is a scalar that has this value, or a collection
whose parts hold the value's parts. The keys of a map are texts, none given twice, so that
nothing is merged into it. -/

namespace ResourceApi.Yaml

open Yaml.Graph
open Results (ok_bind)

/-! ## Values -/

mutual
/-- A stored value as a value of a document. -/
def Value.ofJson : Json → Value
  | .null => .null
  | .bool b => .bool b
  | .int n => .int n
  | .float x => .float x
  | .str t => .text t
  | .arr items => .list (Value.ofItems items)
  | .obj fields => .map (Value.ofFields fields)

def Value.ofItems : List Json → List Value
  | [] => []
  | v :: rest => .ofJson v :: Value.ofItems rest

def Value.ofFields : List (String × Json) → List (String × Value)
  | [] => []
  | (key, v) :: rest => (key, .ofJson v) :: Value.ofFields rest
end

namespace Building

variable {g : Graph} {i : Nat}

/-! ## Numbers that hold a value -/

/-- A value that can be stored is held at a number. -/
def Held (g : Graph) (i : Nat) : Prop := ∃ v : Json, v.Storable ∧ Holds g i v

theorem entry_of_getElem? {e : Entry} (h : g.entries[i]? = some e) : g.entry i = e := by
  rw [entry, h]
  rfl

/-- The text of a key. -/
def textAt (g : Graph) (i : Nat) : String :=
  match g.entry i with
  | .scalar _ text => text
  | _ => ""

/-- A key that is a text. -/
def IsName (g : Graph) (i : Nat) : Prop := g.entries[i]? = some (.scalar .text (textAt g i))

theorem isName_of_entry {key : String} (h : g.entries[i]? = some (.scalar .text key)) :
    IsName g i ∧ textAt g i = key := by
  have text : textAt g i = key := by rw [textAt, entry_of_getElem? h]
  exact ⟨by rw [IsName, h, text], text⟩

theorem IsName.held (name : IsName g i) : Held g i := ⟨.str (textAt g i), rfl, name⟩

theorem characters_scalar {tag : Tag} {text : String} {fuel : Nat}
    (h : g.entries[i]? = some (.scalar tag text)) : characters g (fuel + 1) i = .ok text := by
  rw [characters, entry_of_getElem? h]

theorem tag_of_getElem? {e : Entry} (h : g.entries[i]? = some e) : g.tag i = e.tag := by
  rw [Graph.tag, entry_of_getElem? h]

/-- What the text of a word is read as. -/
def readWord (text : String) : Tag → Lex Value
  | .null => .ok .null
  | .bool => .bool <$> readBool text
  | .int => .int <$> readInt text
  | .float => .float <$> readFloat text
  | _ => .ok (.text text)

theorem scalarValue_scalar {tag : Tag} {text : String}
    (common : tag ∈ [Tag.null, .bool, .int, .float, .text])
    (h : g.entries[i]? = some (.scalar tag text)) : scalarValue g i = readWord text tag := by
  have tag' : g.tag i = tag := tag_of_getElem? h
  rw [scalarValue, tag', characters_scalar h]
  simp only [ok_bind]
  simp only [List.mem_cons, List.not_mem_nil, or_false] at common
  obtain rfl | rfl | rfl | rfl | rfl := common <;>
    · rw [if_neg (by decide)]
      rfl

/-- **The scalar of a value that is a word** has this value. -/
theorem scalarValue_word {v : Json} {w : String} (word : wordOf? v = some w)
    (storable : v.Storable) (entry : g.entries[i]? = some (.scalar (wordTag v) w)) :
    scalarValue g i = .ok (.ofJson v) := by
  cases v with
  | null => exact scalarValue_scalar (by decide) entry
  | bool b =>
    rw [scalarValue_scalar (by simp [wordTag]) entry]
    cases b <;> (cases word; rfl)
  | int n =>
    cases word
    rw [scalarValue_scalar (by simp [wordTag]) entry, wordTag, readWord,
      readInt_toString (of_decide_eq_true storable)]
    rfl
  | float x =>
    cases word
    rw [scalarValue_scalar (by simp [wordTag]) entry, wordTag, readWord,
      (word_float storable).2.2.2]
    rfl
  | str | arr | obj => cases word

/-! ## Parts of a value -/

theorem held_of_holdsItems {items : List Json} {parts : List Nat}
    (storable : ∀ w ∈ items, w.Storable) (held : HoldsItems g i parts items) :
    ∀ j ∈ parts, Held g j := by
  induction items generalizing parts with
  | nil =>
    cases parts with
    | nil => exact fun j mem => absurd mem List.not_mem_nil
    | cons => cases held
  | cons v items ih =>
    cases parts with
    | nil => cases held
    | cons k parts =>
      obtain ⟨-, here, rest⟩ := held
      exact List.forall_mem_cons.2 ⟨⟨v, storable v List.mem_cons_self, here⟩,
        ih (fun w mem => storable w (List.mem_cons_of_mem _ mem)) rest⟩

theorem held_of_holdsFields {fields : List (String × Json)} {parts : List (Nat × Nat)}
    (storable : ∀ f ∈ fields, f.2.Storable) (held : HoldsFields g i parts fields) :
    (∀ f ∈ parts, IsName g f.1 ∧ Held g f.2) ∧
      parts.map (textAt g ·.1) = fields.map Prod.fst := by
  induction fields generalizing parts with
  | nil =>
    cases parts with
    | nil => exact ⟨fun f mem => absurd mem List.not_mem_nil, rfl⟩
    | cons => cases held
  | cons f fields ih =>
    cases parts with
    | nil => cases held
    | cons k parts =>
      obtain ⟨-, key, -, here, rest⟩ := held
      obtain ⟨each, names⟩ := ih (fun w mem => storable w (List.mem_cons_of_mem _ mem)) rest
      obtain ⟨name, text⟩ := isName_of_entry key
      refine ⟨List.forall_mem_cons.2 ⟨⟨name, f.2, storable f List.mem_cons_self, here⟩, each⟩, ?_⟩
      rw [List.map_cons, List.map_cons, names, text]

/-- **What stands at a number that holds a value**: a scalar that has a value, a list of numbers
that hold values, or a map of such, whose keys are different texts. -/
theorem held_cases (held : Held g i) :
    (∃ tag text v, g.entries[i]? = some (.scalar tag text) ∧ Built.collection? tag = none ∧
      scalarValue g i = .ok v) ∨
    (∃ parts, g.entries[i]? = some (.sequence .list parts) ∧ ∀ j ∈ parts, Held g j) ∨
    (∃ parts, g.entries[i]? = some (.mapping .map parts) ∧
      (∀ f ∈ parts, IsName g f.1 ∧ Held g f.2) ∧ (parts.map (textAt g ·.1)).Nodup) := by
  obtain ⟨v, storable, holds⟩ := held
  cases v with
  | null | int | float =>
    exact .inl ⟨_, _, _, holds, rfl, scalarValue_word rfl storable holds⟩
  | bool b => cases b <;> exact .inl ⟨_, _, _, holds, rfl, scalarValue_word rfl storable holds⟩
  | str t => exact .inl ⟨_, _, _, holds, rfl, scalarValue_scalar (by decide) holds⟩
  | arr items =>
    obtain ⟨parts, entry, rest⟩ := holds
    exact .inr (.inl ⟨parts, entry,
      held_of_holdsItems (Json.throughout_arr.1 storable).2 rest⟩)
  | obj fields =>
    obtain ⟨parts, entry, rest⟩ := holds
    obtain ⟨nodup, storable'⟩ := Json.throughout_obj.1 storable
    obtain ⟨each, names⟩ := held_of_holdsFields storable' rest
    exact .inr (.inr ⟨parts, entry, each, names ▸ of_decide_eq_true nodup⟩)

/-! ## Merging leaves a value alone -/

theorem setIfInBounds_self {α : Type} {xs : Array α} {x : α} (h : xs[i]? = some x) :
    xs.setIfInBounds i x = xs := by
  refine Array.ext_getElem? fun j => ?_
  rw [Array.getElem?_setIfInBounds]
  split_ifs with same lt
  · rw [← same, h]
  · rw [← same, Array.getElem?_eq_none (Nat.le_of_not_lt lt)]
  · rfl

theorem setFields_self {tag : Tag} {parts : List (Nat × Nat)}
    (entry : g.entries[i]? = some (.mapping tag parts)) : g.setFields i (g.fields i) = g := by
  have tag' : g.tag i = tag := tag_of_getElem? entry
  have fields : g.fields i = parts := by rw [Graph.fields, entry_of_getElem? entry]
  rw [Graph.setFields, Graph.set, tag', fields, setIfInBounds_self entry]

/-- Nothing is merged into a map all of whose keys are texts. -/
theorem merge_texts {parts : List (Nat × Nat)} {levels : Nat}
    (entry : g.entries[i]? = some (.mapping .map parts)) (names : ∀ f ∈ parts, IsName g f.1) :
    g.merge levels i = .ok g := by
  have from_ (resolve : Nat → Graph → Lex Graph) (count position : Nat) :
      mergeFrom resolve i count position [] g = .ok g := by
    induction count generalizing position with
    | zero => rw [mergeFrom, List.nil_append, setFields_self entry]
    | succ count ih =>
      rw [mergeFrom]
      cases at_ : (g.fields i)[position]? with
      | none =>
        dsimp only
        rw [List.nil_append, setFields_self entry]
      | some f =>
        have mem : f ∈ parts := by
          rw [Graph.fields, entry_of_getElem? entry] at at_
          exact List.mem_of_getElem? at_
        have tag : g.tag f.1 = .text := tag_of_getElem? (names f mem)
        dsimp only
        rw [tag]
        exact ih (position + 1)
  cases levels with
  | zero => rfl
  | succ levels => exact from_ _ _ _

end Building
end ResourceApi.Yaml
