import ResourceApi.Proofs.Yaml.KeyTokens
import ResourceApi.Proofs.Yaml.NumberScalars

/-! # Values as tokens

A written value is read as the tokens of its parts between those of its blocks. A block
ends with the first line left of it; a list below a key stands in the key's own column
and has no block of its own. -/

namespace ResourceApi.Yaml

/-! ## The tokens of a value -/

def Place.isBelow : Place → Bool
  | .beside => false
  | .below _ => true

mutual
/-- The tokens of a written value. -/
def tokensOf (isBelow : Bool) : Json → List Token
  | .str t => [.scalar t (fitsPlain t.toList)]
  | .arr items =>
    if items.isEmpty then [.flowSequenceStart, .flowSequenceEnd]
    else if isBelow then itemTokens items
    else .blockSequenceStart :: itemTokens items ++ [.blockEnd]
  | .obj fields =>
    if fields.isEmpty then [.flowMappingStart, .flowMappingEnd]
    else .blockMappingStart :: fieldTokens fields ++ [.blockEnd]
  | v => ((wordOf? v).map (.scalar · true)).toList

def itemTokens : List Json → List Token
  | [] => []
  | v :: rest => .blockEntry :: tokensOf false v ++ itemTokens rest

def fieldTokens : List (String × Json) → List Token
  | [] => []
  | (key, v) :: rest =>
    .key :: .scalar key (fitsPlain key.toList) :: .value ::
      tokensOf (isSimpleKey key.toList) v ++ fieldTokens rest
end

/-- Whether a key is read back that stands in a column. -/
def keepsKey (column : Nat) (key : String) : Bool :=
  if isSimpleKey key.toList then (writeKey key).length ≤ Lexer.longestKey
  else isKept ⟨true, column + 2⟩ false key.toList

mutual
/-- Whether every text of a value is read back that stands in a column. -/
def keepsValue (indent : Nat) (place : Place) : Json → Bool
  | .str t => isKept ⟨true, indent + 2⟩ false t.toList
  | .arr items => keepsItems (dashColumn indent place) items
  | .obj fields => keepsFields (indent + 2) fields
  | _ => true

def keepsItems (column : Nat) : List Json → Bool
  | [] => true
  | v :: rest => keepsValue column .beside v && keepsItems column rest

def keepsFields (column : Nat) : List (String × Json) → Bool
  | [] => true
  | (key, v) :: rest =>
    keepsKey column key && keepsValue column (valuePlace column key) v && keepsFields column rest
end

namespace Lexer

variable {p q : List Token} {c : Cursor} {i : Int} {o o' : List Int}
  {a : Bool} {rest text : List Char} {k n column indent : Nat} {key : String} {t : Token}
  {place : Place} {v : Json}

/-! ## How a value starts -/

theorem solid_word {w : List Char} (word : Word w) : ∃ x more, w = x :: more ∧ Solid [x] := by
  have head := solid_writePlain ⟨false, 0⟩ 0 '"' word.fitsPlain
  rwa [writePlain_whole rfl] at head

theorem solid_keyText (n : Nat) (key : String) :
    ∃ x more, keyText n key = x :: more ∧ Solid [x] := by
  unfold keyText
  split_ifs
  · obtain ⟨x, more, head, solid⟩ := solid_writeText ⟨false, 0⟩ true 0 key
    exact ⟨x, more ++ [':'], by rw [writeKey, head]; rfl, solid⟩
  · refine ⟨'?', _, rfl, ?_⟩
    rintro x ⟨⟩
    decide

/-- The line of an item. -/
theorem nextLine_dash : NextLine k ('-' :: ' ' :: rest) :=
  .of_solid (by rintro x ⟨⟩; decide) fun _ h => atDocumentMark_sign h (by decide)

/-- The line of a field. -/
theorem nextLine_key : NextLine k (keyText n key ++ rest) := by
  obtain ⟨x, more, head, solid⟩ := solid_keyText n key
  refine .of_solid (by rw [head]; exact solid.append) fun c h => ?_
  unfold keyText at h
  split_ifs at h
  · rw [List.append_assoc] at h
    exact noMark_writeText (by constructor <;> simp) h
  · refine c.atDocumentMark_eq_false ?_
    rw [h]
    rintro x ⟨⟩
    decide

/-! ## Values without parts -/

def isAtom : Json → Bool
  | .arr items => items.isEmpty
  | .obj fields => fields.isEmpty
  | _ => true

theorem writeValue_atom (atom : isAtom v = true) : writeValue n place v = placeAtom n place v := by
  cases v with
  | arr items =>
    cases items with
    | nil => rfl
    | cons => cases atom
  | obj fields =>
    cases fields with
    | nil => rfl
    | cons => cases atom
  | _ => rfl

/-- **A value without parts takes its line.** -/
theorem leads_atom (place : Place) (atom : isAtom v = true) (storable : v.Storable)
    (kept : keepsValue indent place v = true) (left : k ≤ indent) (next : NextLine k rest)
    (le : indent ≤ c.column) (right : a = true → indent < c.column)
    (h : c.rest = writeAtom ⟨true, indent + 2⟩ column v ++ (newLine k ++ rest)) :
    Leads (inBlock c a indent o [] p)
      (inBlock (c.skip ((writeAtom ⟨true, indent + 2⟩ column v).length + (k + 1))) true indent o
        [] (p ++ tokensOf place.isBelow v)) := by
  have left' : (k : Int) ≤ indent := Int.ofNat_le.2 left
  have le' : (indent : Int) ≤ c.column := Int.ofNat_le.2 le
  have right' : a = true → (indent : Int) < c.column := fun h => Int.ofNat_lt.2 (right h)
  have word {w : String} (word : wordOf? v = some w) :
      Leads (inBlock c a indent o [] p)
        (inBlock (c.skip ((writeAtom ⟨true, indent + 2⟩ column v).length + (k + 1))) true indent
          o [] (p ++ [.scalar w true])) := by
    obtain ⟨chars, indicator⟩ := word_of_value storable word
    rw [writeAtom_word word] at h ⊢
    have leads := leads_word (a := a) (o := o) (p := p)
      chars.fitsPlain indicator left' next h le' right'
    rwa [String.ofList_toList] at leads
  cases v with
  | null | int | float => exact word rfl
  | bool b => cases b <;> exact word rfl
  | str t =>
    exact leads_text kept (by dsimp only; omega) left' next h le' right'
  | arr items =>
    cases items with
    | nil => exact leads_empty .list next.solid h le' right'
    | cons => cases atom
  | obj fields =>
    cases fields with
    | nil => exact leads_empty .map next.solid h le' right'
    | cons => cases atom

/-! ## Where values stand -/

theorem solid_writeAtom (indent column : Nat) (storable : v.Storable) :
    ∃ x more, writeAtom ⟨true, indent⟩ column v = x :: more ∧ Solid [x] := by
  have word {w : String} (word : wordOf? v = some w) :
      ∃ x more, writeAtom ⟨true, indent⟩ column v = x :: more ∧ Solid [x] := by
    rw [writeAtom_word word]
    exact solid_word (word_of_value storable word).1
  cases v with
  | null | int | float => exact word rfl
  | bool b => cases b <;> exact word rfl
  | str t => exact solid_writeText _ false _ t
  | arr items =>
    refine ⟨'[', _, rfl, ?_⟩
    rintro x ⟨⟩
    decide
  | obj fields =>
    refine ⟨'\x7b', _, rfl, ?_⟩
    rintro x ⟨⟩
    decide

/-- A value beside its sign starts there. -/
theorem solid_writeValue (n : Nat) (storable : v.Storable) :
    ∃ x more, writeValue n .beside v = x :: more ∧ Solid [x] := by
  by_cases atom : isAtom v = true
  · rw [writeValue_atom atom]
    exact solid_writeAtom _ _ storable
  · cases v with
    | arr items =>
      cases items with
      | nil => exact absurd rfl atom
      | cons v items =>
        refine ⟨'-', _, by rw [writeValue]; rfl, ?_⟩
        rintro x ⟨⟩
        decide
    | obj fields =>
      cases fields with
      | nil => exact absurd rfl atom
      | cons f fields =>
        obtain ⟨x, more, head, solid⟩ := solid_keyText (n + 2) f.1
        refine ⟨x, _, by rw [writeValue, head]; rfl, solid⟩
    | _ => exact absurd rfl atom

/-- Behind the colon of a key stands a separator. -/
theorem separator_writeValue (n column : Nat) (v : Json) :
    ∃ x more, writeValue n (.below column) v = x :: more ∧ isSeparator x = true := by
  by_cases atom : isAtom v = true
  · rw [writeValue_atom atom]
    exact ⟨' ', _, rfl, by decide⟩
  · cases v with
    | arr items =>
      cases items with
      | nil => exact absurd rfl atom
      | cons v items => exact ⟨'\n', _, by rw [writeValue]; rfl, by decide⟩
    | obj fields =>
      cases fields with
      | nil => exact absurd rfl atom
      | cons f fields => exact ⟨'\n', _, by rw [writeValue]; rfl, by decide⟩
    | _ => exact absurd rfl atom

/-- Where a value is read whose dash, sign or key stands in the column `indent`: right of it, where
a key may stand, or behind the colon of the key. -/
inductive Stands (c : Cursor) (indent : Nat) : Place → Bool → Prop where
  | beside : c.column = indent + 2 → Stands c indent .beside true
  | below {column : Nat} : indent ≤ c.column → Stands c indent (.below column) false

/-- The value is read as its tokens, up to the line behind it. -/
def LexesBack (v : Json) : Prop :=
  ∀ ⦃c : Cursor⦄ ⦃indent : Nat⦄ ⦃place : Place⦄ ⦃a : Bool⦄ ⦃o : List Int⦄ ⦃p : List Token⦄
    ⦃k : Nat⦄ ⦃rest : List Char⦄, keepsValue indent place v = true →
    Stands c indent place a → k ≤ indent → NextLine k rest →
    c.rest = writeValue indent place v ++ (newLine k ++ rest) →
    ∃ d : Cursor, d.rest = rest ∧ d.column = k ∧
      Leads (inBlock c a indent o [] p)
        (inBlock d true indent o [] (p ++ tokensOf place.isBelow v))

theorem lexesBack_atom (atom : isAtom v = true) (storable : v.Storable) : LexesBack v := by
  intro c indent place a o p k rest kept stands left next h
  rw [writeValue_atom atom] at h
  cases stands with
  | beside here =>
    have line := skip_line h
    exact ⟨_, line.1, line.2.1, leads_atom .beside atom storable kept left next
      (by omega) (fun _ => by omega) h⟩
  | @below column behind =>
    obtain ⟨x, more, head, solid⟩ := solid_writeAtom (indent + 2) (column + 1) storable
    have blank := leads_blanks (a := false) (i := indent) (o := o) (p := p) (k := 1) h
      (by rw [head]; exact solid.append)
    have left' : (c.skip 1).rest = writeAtom ⟨true, indent + 2⟩ (column + 1) v ++
        (newLine k ++ rest) := c.rest_skip_append (w := [' ']) h
    have place : (c.skip 1).column = c.column + 1 :=
      congrArg Cursor.column (c.skip_printed (w := [' ']) h (by decide))
    have line := skip_line left'
    exact ⟨_, line.1, line.2.1, blank.trans (leads_atom (.below column) atom storable kept
      left next (by rw [place]; omega) (by rintro ⟨⟩) left')⟩

/-- A collection that starts here, or on the next line. -/
theorem leads_startBlock (stands : Stands c indent place a)
    (column : place = .beside → n = indent + 2) (solid : Solid text)
    (h : c.rest = startBlock place n ++ text) :
    ∃ d : Cursor, d.rest = text ∧ d.column = n ∧
      Leads (inBlock c a indent o [] p) (inBlock d true indent o [] p) := by
  cases stands with
  | beside here => exact ⟨c, h, by rw [here, column rfl], .refl _⟩
  | below behind =>
    have skipped := Cursor.skip_newLine h
    exact ⟨_, by rw [skipped], by rw [skipped], leads_newLine h solid spare_nil (by simp)⟩

/-! ## Items and fields -/

/-- An item, up to the line behind it. -/
theorem leads_item (storable : v.Storable) (lexes : LexesBack v)
    (kept : keepsValue n .beside v = true) (column : c.column = n)
    (opens : Opens n .blockSequenceStart i o o' q) (left : k ≤ n)
    (next : NextLine k rest)
    (h : c.rest = '-' :: ' ' :: (writeValue n .beside v ++ (newLine k ++ rest))) :
    ∃ d : Cursor, d.rest = rest ∧ d.column = k ∧
      Leads (inBlock c true i o [] p)
        (inBlock d true n o' [] (p ++ q ++ .blockEntry :: tokensOf false v)) := by
  subst column
  obtain ⟨x, more, head, solid⟩ := solid_writeValue c.column storable
  have dash := leads_sign (p := p) opens.le h (by rintro x ⟨⟩; decide) (by decide)
    (by rw [head]; exact solid.append) (lexSign_dash h rfl opens.openHere)
  have behind := c.rest_skip_append (w := ['-', ' ']) h
  have place : (c.skip 2).column = c.column + 2 :=
    congrArg Cursor.column (c.skip_printed (w := ['-', ' ']) h (by decide))
  obtain ⟨d, rest_eq, column_eq, value⟩ := lexes (o := o')
    (p := p ++ q ++ [.blockEntry]) kept (.beside place) left next behind
  refine ⟨d, rest_eq, column_eq, ?_⟩
  have all := dash.trans value
  rwa [List.append_assoc (p ++ q)] at all

/-- **A list is read item by item**, each of which starts with a dash in the same column. -/
theorem leads_items {items : List Json} (storable : ∀ w ∈ v :: items, w.Storable)
    (each : ∀ w ∈ v :: items, LexesBack w) (kept : keepsItems n (v :: items) = true)
    (column : c.column = n) (opens : Opens n .blockSequenceStart i o o' q)
    (left : k ≤ n) (next : NextLine k rest)
    (h : c.rest = '-' :: ' ' :: (writeValue n .beside v ++
      (writeItems n items ++ (newLine k ++ rest)))) :
    ∃ d : Cursor, d.rest = rest ∧ d.column = k ∧
      Leads (inBlock c true i o [] p)
        (inBlock d true n o' [] (p ++ q ++ itemTokens (v :: items))) := by
  rw [keepsItems, Bool.and_eq_true] at kept
  have storable' := storable v List.mem_cons_self
  have lexes := each v List.mem_cons_self
  induction items generalizing v c i o p q with
  | nil =>
    have item := leads_item (p := p) storable' lexes kept.1 column opens left next h
    simpa [itemTokens] using item
  | cons w items ih =>
    have text : writeItems n (w :: items) ++ (newLine k ++ rest) =
        newLine n ++ ('-' :: ' ' :: (writeValue n .beside w ++
          (writeItems n items ++ (newLine k ++ rest)))) := by
      simp [writeItems]
    rw [text] at h
    obtain ⟨d, rest_eq, column_eq, item⟩ := leads_item (p := p) storable' lexes kept.1 column
      opens (Nat.le_refl n) nextLine_dash h
    have later : ∀ u ∈ w :: items, u.Storable := fun u mem =>
      storable u (List.mem_cons_of_mem _ mem)
    have later' : ∀ u ∈ w :: items, LexesBack u := fun u mem => each u (List.mem_cons_of_mem _ mem)
    obtain ⟨e, rest_eq', column_eq', more⟩ := ih (i := n) (o := o')
      (p := p ++ q ++ .blockEntry :: tokensOf false v) (q := []) later later'
      (by simpa [keepsItems] using kept.2) column_eq .same rest_eq
      (later w List.mem_cons_self) (later' w List.mem_cons_self)
    refine ⟨e, rest_eq', column_eq', ?_⟩
    have all := item.trans more
    simpa [itemTokens] using all

/-- A key, and the place of its value. -/
theorem leads_key (kept : keepsKey n key = true) (column : c.column = n)
    (opens : Opens n .blockMappingStart i o o' q) (storable : v.Storable)
    (h : c.rest = keyText n key ++ (writeValue n (valuePlace n key) v ++ rest)) :
    ∃ (d : Cursor) (a : Bool), d.rest = writeValue n (valuePlace n key) v ++ rest ∧
      Stands d n (valuePlace n key) a ∧
      Leads (inBlock c true i o [] p)
        (inBlock d a n o' [] (p ++ q ++
          [.key, .scalar key (fitsPlain key.toList), .value])) := by
  subst column
  unfold keepsKey at kept
  by_cases simple : isSimpleKey key.toList = true
  · have place : valuePlace c.column key = .below (c.column + (writeKey key).length + 1) := by
      rw [valuePlace, if_pos simple]
    rw [keyText, if_pos simple, place] at h
    rw [if_pos simple, decide_eq_true_eq] at kept
    obtain ⟨x, more, head, separator⟩ := separator_writeValue c.column
      (c.column + (writeKey key).length + 1) v
    rw [place]
    rw [head] at h ⊢
    rw [List.append_assoc] at h
    obtain ⟨d, left, right, leads⟩ := leads_simpleKey (p := p) simple kept opens h separator
    exact ⟨d, false, left, .below right, leads⟩
  · have place : valuePlace c.column key = .beside := by rw [valuePlace, if_neg simple]
    rw [keyText, if_neg simple, place] at h
    rw [if_neg simple] at kept
    obtain ⟨x, more, head, solid⟩ := solid_writeValue c.column storable
    rw [place]
    have h' : c.rest = '?' :: ' ' :: writeText ⟨true, c.column + 2⟩ false (c.column + 2) key ++
        newLine c.column ++ ':' :: ' ' :: (writeValue c.column .beside v ++ rest) := by
      rw [h]
      simp
    obtain ⟨d, left, right, leads⟩ := leads_announcedKey (p := p) kept opens h' (by
      rw [head]
      exact solid.append)
    exact ⟨d, true, left, .beside right, leads⟩

theorem isBelow_valuePlace : (valuePlace n key).isBelow = isSimpleKey key.toList := by
  unfold valuePlace
  split
  · next simple => rw [simple]; rfl
  · next simple => rw [Bool.not_eq_true] at simple; rw [simple]; rfl

/-- A field, up to the line behind it. -/
theorem leads_field (storable : v.Storable) (lexes : LexesBack v) (keptKey : keepsKey n key = true)
    (kept : keepsValue n (valuePlace n key) v = true) (column : c.column = n)
    (opens : Opens n .blockMappingStart i o o' q) (left : k ≤ n)
    (next : NextLine k rest)
    (h : c.rest = keyText n key ++ (writeValue n (valuePlace n key) v ++ (newLine k ++ rest))) :
    ∃ d : Cursor, d.rest = rest ∧ d.column = k ∧
      Leads (inBlock c true i o [] p)
        (inBlock d true n o' [] (p ++ q ++
          .key :: .scalar key (fitsPlain key.toList) :: .value ::
            tokensOf (isSimpleKey key.toList) v)) := by
  obtain ⟨d, a, behind, stands, leads⟩ := leads_key (p := p) keptKey column opens
    storable h
  obtain ⟨e, rest_eq, column_eq, value⟩ := lexes (o := o')
    (p := p ++ q ++ [.key, .scalar key (fitsPlain key.toList), .value]) kept stands left
    next behind
  refine ⟨e, rest_eq, column_eq, ?_⟩
  have all := leads.trans value
  rwa [List.append_assoc (p ++ q), isBelow_valuePlace] at all

/-- **An object is read field by field**, each of which starts in the same column. -/
theorem leads_fields {fields : List (String × Json)}
    (storable : ∀ f ∈ (key, v) :: fields, f.2.Storable)
    (each : ∀ f ∈ (key, v) :: fields, LexesBack f.2)
    (kept : keepsFields n ((key, v) :: fields) = true) (column : c.column = n)
    (opens : Opens n .blockMappingStart i o o' q) (left : k ≤ n)
    (next : NextLine k rest)
    (h : c.rest = keyText n key ++ (writeValue n (valuePlace n key) v ++
      (writeFields n fields ++ (newLine k ++ rest)))) :
    ∃ d : Cursor, d.rest = rest ∧ d.column = k ∧
      Leads (inBlock c true i o [] p)
        (inBlock d true n o' [] (p ++ q ++ fieldTokens ((key, v) :: fields))) := by
  rw [keepsFields, Bool.and_eq_true, Bool.and_eq_true] at kept
  have storable' : v.Storable := storable (key, v) List.mem_cons_self
  have lexes : LexesBack v := each (key, v) List.mem_cons_self
  induction fields generalizing key v c i o p q with
  | nil =>
    have field := leads_field (p := p) storable' lexes kept.1.1 kept.1.2 column opens left
      next h
    simpa [fieldTokens] using field
  | cons f fields ih =>
    obtain ⟨name, w⟩ := f
    have text : writeFields n ((name, w) :: fields) ++ (newLine k ++ rest) =
        newLine n ++ (keyText n name ++ (writeValue n (valuePlace n name) w ++
          (writeFields n fields ++ (newLine k ++ rest)))) := by
      simp [writeFields]
    rw [text] at h
    obtain ⟨d, rest_eq, column_eq, field⟩ := leads_field (p := p) storable' lexes kept.1.1
      kept.1.2 column opens (Nat.le_refl n) nextLine_key h
    have later : ∀ f ∈ (name, w) :: fields, f.2.Storable := fun f mem =>
      storable f (List.mem_cons_of_mem _ mem)
    have later' : ∀ f ∈ (name, w) :: fields, LexesBack f.2 := fun f mem =>
      each f (List.mem_cons_of_mem _ mem)
    obtain ⟨e, rest_eq', column_eq', more⟩ := ih (i := n) (o := o')
      (p := p ++ q ++ .key :: .scalar key (fitsPlain key.toList) :: .value ::
        tokensOf (isSimpleKey key.toList) v) (q := []) later later'
      (by simpa [keepsFields] using kept.2) column_eq .same rest_eq
      (later (name, w) List.mem_cons_self) (later' (name, w) List.mem_cons_self)
    refine ⟨e, rest_eq', column_eq', ?_⟩
    have all := field.trans more
    simpa [fieldTokens] using all

/-! ## All values -/

theorem lexesBack_arr {items : List Json} (storable : (Json.arr items).Storable)
    (each : ∀ w ∈ items, LexesBack w) : LexesBack (.arr items) := by
  cases items with
  | nil => exact lexesBack_atom rfl storable
  | cons v items => ?_
  have storable' := (Json.throughout_arr.1 storable).2
  intro c indent place a o p k rest kept stands left next h
  have text : writeValue indent place (.arr (v :: items)) ++ (newLine k ++ rest) =
      startBlock place (dashColumn indent place) ++ ('-' :: ' ' ::
        (writeValue (dashColumn indent place) .beside v ++
          (writeItems (dashColumn indent place) items ++ (newLine k ++ rest)))) := by
    simp [writeValue]
  rw [text] at h
  obtain ⟨d, left', column, starts⟩ := leads_startBlock (o := o) (p := p) stands
    (by rintro rfl; rfl) (by rintro x ⟨⟩; decide) h
  cases place with
  | beside =>
    obtain ⟨e, rest_eq, column_eq, list⟩ := leads_items (i := indent) (o := o) (p := p) storable'
      each kept column (.right (by rw [dashColumn]; omega)) (by rw [dashColumn]; omega) next left'
    have closes := leads_close (p := p ++ [.blockSequenceStart] ++ itemTokens (v :: items))
      (i := indent) (a := true) (o := o) (by rw [rest_eq]; exact next.solid)
      (show (e.column : Int) < (dashColumn indent .beside : Nat) by rw [dashColumn]; omega)
    refine ⟨e, rest_eq, column_eq, ?_⟩
    have all := (starts.trans list).trans closes
    simpa [tokensOf, Place.isBelow] using all
  | below column =>
    obtain ⟨e, rest_eq, column_eq, list⟩ := leads_items (n := indent) (o := o) (p := p) storable'
      each kept column .same left next left'
    refine ⟨e, rest_eq, column_eq, ?_⟩
    have all := starts.trans list
    simpa [tokensOf, Place.isBelow] using all

theorem lexesBack_obj {fields : List (String × Json)} (storable : (Json.obj fields).Storable)
    (each : ∀ f ∈ fields, LexesBack f.2) : LexesBack (.obj fields) := by
  cases fields with
  | nil => exact lexesBack_atom rfl storable
  | cons f fields => ?_
  obtain ⟨key, v⟩ := f
  have storable' := (Json.throughout_obj.1 storable).2
  intro c indent place a o p k rest kept stands left next h
  have text : writeValue indent place (.obj ((key, v) :: fields)) ++ (newLine k ++ rest) =
      startBlock place (indent + 2) ++ (keyText (indent + 2) key ++
        (writeValue (indent + 2) (valuePlace (indent + 2) key) v ++
          (writeFields (indent + 2) fields ++ (newLine k ++ rest)))) := by
    simp [writeValue]
  rw [text] at h
  obtain ⟨x, more, head, solid⟩ := solid_keyText (indent + 2) key
  obtain ⟨d, left', column, starts⟩ := leads_startBlock (o := o) (p := p) stands (fun _ => rfl)
    (by rw [head]; exact solid.append) h
  obtain ⟨e, rest_eq, column_eq, fields'⟩ := leads_fields (i := indent) (o := o) (p := p) storable'
    each kept column (.right (by omega)) (by omega) next left'
  have closes := leads_close (p := p ++ [.blockMappingStart] ++ fieldTokens ((key, v) :: fields))
    (i := indent) (a := true) (o := o) (by rw [rest_eq]; exact next.solid)
    (show (e.column : Int) < (indent + 2 : Nat) by omega)
  refine ⟨e, rest_eq, column_eq, ?_⟩
  have all := (starts.trans fields').trans closes
  simpa [tokensOf] using all

/-- **A written value is read as its tokens.** -/
theorem lexesBack (v : Json) (storable : v.Storable) : LexesBack v := by
  induction v with
  | null | bool | int | float | str => exact lexesBack_atom rfl storable
  | arr items ih =>
    exact lexesBack_arr storable fun w mem => ih w mem ((Json.throughout_arr.1 storable).2 w mem)
  | obj fields ih =>
    exact lexesBack_obj storable fun f mem => ih f mem ((Json.throughout_obj.1 storable).2 f mem)

end Lexer
end ResourceApi.Yaml
