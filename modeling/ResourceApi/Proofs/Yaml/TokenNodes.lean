import ResourceApi.Proofs.Results
import ResourceApi.Proofs.Yaml.DocumentTokens
import ResourceApi.Yaml.Node

/-! # Tokens as nodes

The tokens of a value are parsed as the tree of its parts, in which every scalar has the
tag of its value. A value takes its tokens and no more, so that what follows them does
not matter, but for a list without a block of its own: it ends where no item follows. Each
level of the tree takes a few units of fuel, and at least one token. -/

namespace ResourceApi.Yaml

open Node
open Results (ok_bind)

/-! ## The node of a value -/

/-- The tag of a value that is a word. -/
def wordTag : Json → Tag
  | .bool _ => .bool
  | .int _ => .int
  | .float _ => .float
  | _ => .null

mutual
/-- The node of a value. -/
def nodeOf : Json → Node
  | .str t => .scalar .text t
  | .arr items => .sequence .list (itemNodes items)
  | .obj fields => .mapping .map (fieldNodes fields)
  | v => .scalar (wordTag v) ((wordOf? v).getD "")

def itemNodes : List Json → List Node
  | [] => []
  | v :: rest => nodeOf v :: itemNodes rest

def fieldNodes : List (String × Json) → List (Node × Node)
  | [] => []
  | (key, v) :: rest => (.scalar .text key, nodeOf v) :: fieldNodes rest
end

variable {v : Json} {isBelow : Bool} {rest : List Token} {handles : Handles} {context : Context}
  {names : List String} {fuel : Nat} {key : String}

theorem scalarTag_text (t : String) : scalarTag none (fitsPlain t.toList) t = .text := by
  unfold scalarTag
  dsimp only
  split_ifs with plain
  · rw [(FitsPlain.of_fitsPlain plain).2.2]
    rfl
  · rfl

/-- A word has the tag of its value. -/
theorem scalarTag_word {w : String} (storable : v.Storable) (word : wordOf? v = some w) :
    scalarTag none true w = wordTag v := by
  change Tag.ofKind (resolve w.toList) = _
  cases v with
  | null =>
    cases word
    decide
  | bool b => cases b <;> (cases word; decide)
  | int n =>
    cases word
    rw [resolve_int]
    rfl
  | float x =>
    cases word
    rw [(word_float storable).2.2.1]
    rfl
  | str | arr | obj => cases word

/-! ## How values start -/

/-- Whether the content of a node starts here. -/
def startsContent : List Token → Bool
  | .scalar .. :: _ => true
  | .flowSequenceStart :: _ => true
  | .flowMappingStart :: _ => true
  | .blockSequenceStart :: _ => true
  | .blockMappingStart :: _ => true
  | .blockEntry :: _ => true
  | _ => false

theorem startsContent_tokensOf (isBelow : Bool) (v : Json) (rest : List Token) :
    startsContent (tokensOf isBelow v ++ rest) = true ∧
      endsField (tokensOf isBelow v ++ rest) = false ∧
      (isBelow = false → endsItem (tokensOf isBelow v ++ rest) = false) := by
  cases v with
  | null | int | float | str => exact ⟨rfl, rfl, fun _ => rfl⟩
  | bool b => cases b <;> exact ⟨rfl, rfl, fun _ => rfl⟩
  | arr items =>
    cases items with
    | nil => exact ⟨rfl, rfl, fun _ => rfl⟩
    | cons v items =>
      cases isBelow
      · exact ⟨rfl, rfl, fun _ => rfl⟩
      · exact ⟨rfl, rfl, by rintro ⟨⟩⟩
  | obj fields =>
    cases fields with
    | nil => exact ⟨rfl, rfl, fun _ => rfl⟩
    | cons f fields => exact ⟨rfl, rfl, fun _ => rfl⟩

/-- A node without properties is its content. -/
theorem parse_content {tokens : List Token} (starts : startsContent tokens = true) :
    parse handles (fuel + 1) context ⟨tokens, names⟩ =
      parseContent handles fuel context ⟨none, none⟩ ⟨tokens, names⟩ := by
  have same (r : Lex (Node × Source)) : (r >>= fun x => pure (named none x.1, x.2)) = r := by
    cases r <;> rfl
  cases tokens with
  | nil => cases starts
  | cons t tokens =>
    rw [parse]
    cases t <;> first
      | exact absurd starts Bool.false_ne_true
      | exact same _

/-- Where a node starts, no empty one is taken. -/
theorem parseUnless_content {ends : List Token → Bool} {tokens : List Token}
    (starts : startsContent tokens = true) (goes : ends tokens = false) :
    parseUnless ends handles (fuel + 1) context ⟨tokens, names⟩ =
      parse handles fuel context ⟨tokens, names⟩ := by
  rw [parseUnless]
  cases tokens with
  | nil => cases starts
  | cons t tokens =>
    simp only [goes]
    cases t <;> first
      | exact absurd starts Bool.false_ne_true
      | rfl

theorem parse_scalar {text : String} {plain : Bool} :
    parse handles (fuel + 2) context ⟨.scalar text plain :: rest, names⟩ =
      .ok (.scalar (scalarTag none plain text) text, ⟨rest, names⟩) := by
  rw [parse_content rfl, parseContent]

/-! ## Values as nodes -/

/-- A value's tokens are parsed as its node, whatever follows them; but a list without a block of
its own has to be followed by what ends the field. -/
def ParsesBack (v : Json) : Prop :=
  ∀ (handles : Handles) (context : Context) (names : List String) (fuel : Nat) (isBelow : Bool)
    (rest : List Token),
    context ≠ .flow → (isBelow = true → context = .field ∧ endsField rest = true) →
    6 * (tokensOf isBelow v).length ≤ fuel →
    parse handles fuel context ⟨tokensOf isBelow v ++ rest, names⟩ =
      .ok (nodeOf v, ⟨rest, names⟩)

theorem of_word {w : String} (isBelow : Bool) (word : wordOf? v = some w) :
    tokensOf isBelow v = [.scalar w true] ∧ nodeOf v = .scalar (wordTag v) w := by
  cases v with
  | null | int | float => cases word; exact ⟨rfl, rfl⟩
  | bool b => cases b <;> (cases word; exact ⟨rfl, rfl⟩)
  | str | arr | obj => cases word

theorem parsesBack_word {w : String} (storable : v.Storable) (word : wordOf? v = some w) :
    ParsesBack v := by
  intro handles context names fuel isBelow rest _ _ enough
  obtain ⟨tokens, node⟩ := of_word isBelow word
  rw [tokens] at enough ⊢
  have enough' : 2 ≤ fuel := by
    simp only [List.length_singleton] at enough
    omega
  obtain ⟨more, rfl⟩ := Nat.exists_eq_add_of_le' enough'
  rw [node, List.singleton_append, parse_scalar, scalarTag_word storable word]

theorem parsesBack_str (t : String) : ParsesBack (.str t) := by
  intro handles context names fuel isBelow rest _ _ enough
  have enough' : 2 ≤ fuel := by
    simp only [tokensOf, List.length_singleton] at enough
    omega
  obtain ⟨more, rfl⟩ := Nat.exists_eq_add_of_le' enough'
  rw [tokensOf, nodeOf, List.singleton_append, parse_scalar, scalarTag_text]

/-- A node where its value's tokens stand. -/
theorem parseUnless_value {ends : List Token → Bool} (back : ParsesBack v)
    (flow : context ≠ .flow)
    (below : isBelow = true → context = .field ∧ endsField rest = true)
    (enough : 6 * (tokensOf isBelow v).length ≤ fuel)
    (goes : ends (tokensOf isBelow v ++ rest) = false) :
    parseUnless ends handles (fuel + 1) context ⟨tokensOf isBelow v ++ rest, names⟩ =
      .ok (nodeOf v, ⟨rest, names⟩) := by
  rw [parseUnless_content (startsContent_tokensOf isBelow v rest).1 goes,
    back _ _ _ _ _ _ flow below enough]

/-! ## Lists -/

/-- **The items of a block** are parsed up to its end. -/
theorem parseBlockItems_itemTokens {items : List Json} (each : ∀ w ∈ items, ParsesBack w)
    (enough : 6 * (itemTokens items).length ≤ fuel + 4) (filled : 0 < fuel) :
    parseBlockItems handles fuel ⟨itemTokens items ++ .blockEnd :: rest, names⟩ =
      .ok (itemNodes items, ⟨rest, names⟩) := by
  induction items generalizing fuel with
  | nil =>
    obtain ⟨fuel, rfl⟩ := Nat.exists_eq_add_of_le' (show 1 ≤ fuel from filled)
    rw [itemTokens, List.nil_append, parseBlockItems]
    rfl
  | cons v items ih =>
    obtain ⟨fuel, rfl⟩ := Nat.exists_eq_add_of_le' (show 1 ≤ fuel from filled)
    simp only [itemTokens, List.cons_append, List.append_assoc, List.length_cons,
      List.length_append] at enough ⊢
    obtain ⟨less, rfl⟩ := Nat.exists_eq_add_of_le' (show 1 ≤ fuel by omega)
    have item : parseUnless endsItem handles (less + 1) .block
        ⟨tokensOf false v ++ (itemTokens items ++ .blockEnd :: rest), names⟩ =
          .ok (nodeOf v, ⟨itemTokens items ++ .blockEnd :: rest, names⟩) :=
      parseUnless_value (each v List.mem_cons_self) (by decide)
        (fun h => absurd h Bool.false_ne_true) (by omega)
        ((startsContent_tokensOf false v _).2.2 rfl)
    have items' : parseBlockItems handles (less + 1)
        ⟨itemTokens items ++ .blockEnd :: rest, names⟩ = .ok (itemNodes items, ⟨rest, names⟩) :=
      ih (fun w mem => each w (List.mem_cons_of_mem _ mem)) (by omega) (by omega)
    rw [parseBlockItems]
    simp only [demand, item, items', ok_bind]
    rfl

/-- **The items in the column of the mapping around them** are parsed up to the next field. -/
theorem parseColumnItems_itemTokens {items : List Json} (each : ∀ w ∈ items, ParsesBack w)
    (ends : endsField rest = true)
    (enough : 6 * (itemTokens items).length ≤ fuel + 4) (filled : 0 < fuel) :
    parseColumnItems handles fuel ⟨itemTokens items ++ rest, names⟩ =
      .ok (itemNodes items, ⟨rest, names⟩) := by
  induction items generalizing fuel with
  | nil =>
    obtain ⟨fuel, rfl⟩ := Nat.exists_eq_add_of_le' (show 1 ≤ fuel from filled)
    rw [itemTokens, List.nil_append, parseColumnItems]
    cases rest with
    | nil => cases ends
    | cons t rest =>
      cases t <;> first
        | exact absurd ends Bool.false_ne_true
        | rfl
  | cons v items ih =>
    obtain ⟨fuel, rfl⟩ := Nat.exists_eq_add_of_le' (show 1 ≤ fuel from filled)
    simp only [itemTokens, List.cons_append, List.append_assoc, List.length_cons,
      List.length_append] at enough ⊢
    obtain ⟨less, rfl⟩ := Nat.exists_eq_add_of_le' (show 1 ≤ fuel by omega)
    have starts := startsContent_tokensOf false v (itemTokens items ++ rest)
    have item : parseUnless (fun ts => endsItem ts || endsField ts) handles (less + 1) .block
        ⟨tokensOf false v ++ (itemTokens items ++ rest), names⟩ =
          .ok (nodeOf v, ⟨itemTokens items ++ rest, names⟩) :=
      parseUnless_value (each v List.mem_cons_self) (by decide)
        (fun h => absurd h Bool.false_ne_true) (by omega)
        (by rw [starts.2.1, starts.2.2 rfl]; rfl)
    have items' : parseColumnItems handles (less + 1) ⟨itemTokens items ++ rest, names⟩ =
        .ok (itemNodes items, ⟨rest, names⟩) :=
      ih (fun w mem => each w (List.mem_cons_of_mem _ mem)) (by omega) (by omega)
    rw [parseColumnItems]
    simp only [demand, item, items', ok_bind]
    rfl

theorem parsesBack_arr {items : List Json} (each : ∀ w ∈ items, ParsesBack w) :
    ParsesBack (.arr items) := by
  intro handles context names fuel isBelow rest flow below enough
  cases items with
  | nil =>
    rw [show tokensOf isBelow (.arr []) = [.flowSequenceStart, .flowSequenceEnd] from rfl]
      at enough ⊢
    simp only [List.length_cons, List.length_nil] at enough
    obtain ⟨less, rfl⟩ := Nat.exists_eq_add_of_le' (show 3 ≤ fuel by omega)
    rw [List.cons_append, parse_content rfl, parseContent]
    dsimp only
    rw [parseFlowItems]
    rfl
  | cons v items =>
    have filled : 0 < (itemTokens (v :: items)).length := Nat.succ_pos _
    have tokens : tokensOf isBelow (.arr (v :: items)) =
        if isBelow then itemTokens (v :: items)
        else .blockSequenceStart :: itemTokens (v :: items) ++ [.blockEnd] := rfl
    cases isBelow with
    | false =>
      rw [tokens, if_neg Bool.false_ne_true] at enough ⊢
      simp only [List.length_cons, List.length_append, List.length_nil] at enough
      obtain ⟨less, rfl⟩ := Nat.exists_eq_add_of_le' (show 2 ≤ fuel by omega)
      have inner : parseBlockItems handles less
          ⟨itemTokens (v :: items) ++ .blockEnd :: rest, names⟩ =
            .ok (itemNodes (v :: items), ⟨rest, names⟩) :=
        parseBlockItems_itemTokens each (by omega) (by omega)
      rw [List.cons_append, List.cons_append, List.append_assoc, List.singleton_append,
        parse_content rfl, parseContent]
      cases context with
      | flow => exact absurd rfl flow
      | block | field =>
        dsimp only
        rw [inner]
        rfl
    | true =>
      obtain ⟨rfl, ends⟩ := below rfl
      rw [tokens, if_pos rfl] at enough ⊢
      obtain ⟨less, rfl⟩ := Nat.exists_eq_add_of_le' (show 2 ≤ fuel by omega)
      have inner : parseColumnItems handles less ⟨itemTokens (v :: items) ++ rest, names⟩ =
          .ok (itemNodes (v :: items), ⟨rest, names⟩) :=
        parseColumnItems_itemTokens each ends (by omega) (by omega)
      have starts : startsContent (itemTokens (v :: items) ++ rest) = true := rfl
      rw [parse_content starts, parseContent]
      change _ <$> parseColumnItems handles less ⟨itemTokens (v :: items) ++ rest, names⟩ = _
      rw [inner]
      rfl

/-! ## Maps -/

theorem endsField_fieldTokens (fields : List (String × Json)) (rest : List Token) :
    endsField (fieldTokens fields ++ .blockEnd :: rest) = true := by
  cases fields <;> rfl

/-- **The fields of a block** are parsed up to its end. -/
theorem parseBlockFields_fieldTokens {fields : List (String × Json)}
    (each : ∀ f ∈ fields, ParsesBack f.2)
    (enough : 6 * (fieldTokens fields).length ≤ fuel + 4) (filled : 0 < fuel) :
    parseBlockFields handles fuel ⟨fieldTokens fields ++ .blockEnd :: rest, names⟩ =
      .ok (fieldNodes fields, ⟨rest, names⟩) := by
  induction fields generalizing fuel with
  | nil =>
    obtain ⟨fuel, rfl⟩ := Nat.exists_eq_add_of_le' (show 1 ≤ fuel from filled)
    rw [fieldTokens, List.nil_append, parseBlockFields]
    rfl
  | cons f fields ih =>
    obtain ⟨key, v⟩ := f
    simp only [fieldTokens, List.cons_append, List.append_assoc, List.length_cons,
      List.length_append] at enough ⊢
    obtain ⟨less, rfl⟩ := Nat.exists_eq_add_of_le' (show 4 ≤ fuel by omega)
    let behind := fieldTokens fields ++ .blockEnd :: rest
    generalize isSimpleKey key.toList = simple at enough ⊢
    have key' : parseUnless endsField handles (less + 3) .field
        ⟨.scalar key (fitsPlain key.toList) :: .value :: (tokensOf simple v ++ behind), names⟩ =
          .ok (.scalar .text key, ⟨.value :: (tokensOf simple v ++ behind), names⟩) := by
      rw [parseUnless_content rfl rfl, parse_scalar, scalarTag_text]
    have value : parseFieldValue endsField handles (less + 3) .field
        ⟨.value :: (tokensOf simple v ++ behind), names⟩ = .ok (nodeOf v, ⟨behind, names⟩) := by
      rw [parseFieldValue]
      exact parseUnless_value (each _ List.mem_cons_self) (by decide)
        (fun _ => ⟨rfl, endsField_fieldTokens fields rest⟩) (by omega)
        (startsContent_tokensOf simple v behind).2.1
    have fields' : parseBlockFields handles (less + 3) ⟨behind, names⟩ =
        .ok (fieldNodes fields, ⟨rest, names⟩) :=
      ih (fun g mem => each g (List.mem_cons_of_mem _ mem)) (by omega) (by omega)
    rw [parseBlockFields]
    simp only [demand, ok_bind]
    rw [key', ok_bind, value, ok_bind, fields']
    rfl

theorem parsesBack_obj {fields : List (String × Json)} (each : ∀ f ∈ fields, ParsesBack f.2) :
    ParsesBack (.obj fields) := by
  intro handles context names fuel isBelow rest flow _ enough
  cases fields with
  | nil =>
    rw [show tokensOf isBelow (.obj []) = [.flowMappingStart, .flowMappingEnd] from rfl]
      at enough ⊢
    simp only [List.length_cons, List.length_nil] at enough
    obtain ⟨less, rfl⟩ := Nat.exists_eq_add_of_le' (show 3 ≤ fuel by omega)
    rw [List.cons_append, parse_content rfl, parseContent]
    dsimp only
    rw [parseFlowFields]
    rfl
  | cons f fields =>
    have filled : 0 < (fieldTokens (f :: fields)).length := Nat.succ_pos _
    rw [show tokensOf isBelow (.obj (f :: fields)) =
      .blockMappingStart :: fieldTokens (f :: fields) ++ [.blockEnd] from rfl] at enough ⊢
    simp only [List.length_cons, List.length_append, List.length_nil] at enough
    obtain ⟨less, rfl⟩ := Nat.exists_eq_add_of_le' (show 2 ≤ fuel by omega)
    have inner : parseBlockFields handles less
        ⟨fieldTokens (f :: fields) ++ .blockEnd :: rest, names⟩ =
          .ok (fieldNodes (f :: fields), ⟨rest, names⟩) :=
      parseBlockFields_fieldTokens each (by omega) (by omega)
    rw [List.cons_append, List.cons_append, List.append_assoc, List.singleton_append,
      parse_content rfl, parseContent]
    cases context with
    | flow => exact absurd rfl flow
    | block | field =>
      dsimp only
      rw [inner]
      rfl

/-! ## The document -/

/-- **A value's tokens are parsed as its node.** -/
theorem parsesBack (v : Json) (storable : v.Storable) : ParsesBack v := by
  induction v with
  | null | int | float => exact parsesBack_word storable rfl
  | bool b => cases b <;> exact parsesBack_word storable rfl
  | str t => exact parsesBack_str t
  | arr items ih =>
    exact parsesBack_arr fun w mem => ih w mem ((Json.throughout_arr.1 storable).2 w mem)
  | obj fields ih =>
    exact parsesBack_obj fun f mem => ih f mem ((Json.throughout_obj.1 storable).2 f mem)

/-- **The tokens of a written map are those of its node**, and no more is found behind them. -/
theorem ofTokens_tokensOf {fields : List (String × Json)} (storable : (Json.obj fields).Storable) :
    ofTokens (tokensOf false (.obj fields) ++ [.streamEnd]) =
      .ok (some (nodeOf (.obj fields))) := by
  have parsed : parseDocument defaultHandles
      (tokensOf false (.obj fields) ++ [.streamEnd]) = .ok (nodeOf (.obj fields)) := by
    rw [parseDocument, parsesBack (.obj fields) storable _ _ _ _ _ _ (by decide)
      (fun h => absurd h Bool.false_ne_true) (by rw [List.length_append]; omega)]
    rfl
  have starts : tokensOf false (.obj fields) = .flowMappingStart :: [.flowMappingEnd] ∨
      ∃ more, tokensOf false (.obj fields) = .blockMappingStart :: more := by
    cases fields with
    | nil => exact .inl rfl
    | cons f fields => exact .inr ⟨_, rfl⟩
  unfold ofTokens
  obtain head | ⟨more, head⟩ := starts <;>
    · rw [head] at parsed ⊢
      simp only [List.cons_append, demand, ok_bind] at parsed ⊢
      rw [parsed]
      rfl

end ResourceApi.Yaml
