import ResourceApi.Proofs.Yaml.ValueTokens

/-! # Documents as tokens

A written document holds no character that its reader refuses or changes, so that its
text is read from start to end as the tokens of its value. -/

namespace ResourceApi.Yaml

variable {n column : Nat} {place : Place} {v : Json} {key : String} {x : Char} {cs ds : List Char}

/-! ## Characters of a document -/

/-- No special character is written. -/
def NoSpecial (cs : List Char) : Prop := ∀ x ∈ cs, isSpecial x = false

instance (cs : List Char) : Decidable (NoSpecial cs) :=
  inferInstanceAs (Decidable (∀ x ∈ cs, isSpecial x = false))

theorem noSpecial_append : NoSpecial (cs ++ ds) ↔ NoSpecial cs ∧ NoSpecial ds :=
  List.forall_mem_append

theorem noSpecial_cons : NoSpecial (x :: cs) ↔ isSpecial x = false ∧ NoSpecial cs :=
  List.forall_mem_cons

theorem noSpecial_word {w : List Char} (word : Word w) : NoSpecial w :=
  fun x mem => (wordChars_all x (word.chars x mem)).1

theorem noSpecial_writeText {s : Setting} {isKey : Bool} {text : String} :
    NoSpecial (writeText s isKey column text) :=
  fun x mem => (printed_writeText x mem).1

theorem noSpecial_newLine : NoSpecial (newLine n) := fun x mem =>
  (printed_newLine trivial x mem).1

theorem noSpecial_writeAtom {s : Setting} (storable : v.Storable) :
    NoSpecial (writeAtom s column v) := by
  have word {w : String} (word : wordOf? v = some w) : NoSpecial (writeAtom s column v) := by
    rw [writeAtom_word word]
    exact noSpecial_word (word_of_value storable word).1
  cases v with
  | null | int | float => exact word rfl
  | bool b => cases b <;> exact word rfl
  | str t => exact noSpecial_writeText
  | arr items => exact (by decide : NoSpecial "[]".toList)
  | obj fields => exact (by decide : NoSpecial "\x7b\x7d".toList)

theorem noSpecial_placeAtom (storable : v.Storable) : NoSpecial (placeAtom n place v) := by
  cases place with
  | beside => exact noSpecial_writeAtom storable
  | below => exact noSpecial_cons.2 ⟨by decide, noSpecial_writeAtom storable⟩

theorem noSpecial_keyText : NoSpecial (keyText n key) := by
  unfold keyText
  split_ifs
  · exact noSpecial_append.2 ⟨noSpecial_writeText, by decide⟩
  · exact noSpecial_append.2 ⟨noSpecial_append.2 ⟨noSpecial_cons.2 ⟨by decide,
      noSpecial_cons.2 ⟨by decide, noSpecial_writeText⟩⟩, noSpecial_newLine⟩, by decide⟩

theorem noSpecial_startBlock : NoSpecial (startBlock place n) := by
  cases place with
  | beside => exact fun x mem => absurd mem List.not_mem_nil
  | below => exact noSpecial_newLine

theorem noSpecial_writeItems {items : List Json}
    (each : ∀ w ∈ items, ∀ n place, NoSpecial (writeValue n place w)) :
    NoSpecial (writeItems n items) := by
  induction items with
  | nil => exact fun x mem => absurd mem (by simp [writeItems])
  | cons w items ih =>
    rw [writeItems]
    exact noSpecial_append.2 ⟨noSpecial_append.2 ⟨noSpecial_newLine, noSpecial_cons.2 ⟨by decide,
      noSpecial_cons.2 ⟨by decide, each w List.mem_cons_self n .beside⟩⟩⟩,
      ih fun u mem => each u (List.mem_cons_of_mem _ mem)⟩

theorem noSpecial_writeFields {fields : List (String × Json)}
    (each : ∀ f ∈ fields, ∀ n place, NoSpecial (writeValue n place f.2)) :
    NoSpecial (writeFields n fields) := by
  induction fields with
  | nil => exact fun x mem => absurd mem (by simp [writeFields])
  | cons f fields ih =>
    obtain ⟨key, w⟩ := f
    rw [writeFields]
    exact noSpecial_append.2 ⟨noSpecial_append.2 ⟨noSpecial_append.2 ⟨noSpecial_newLine,
      noSpecial_keyText⟩, each (key, w) List.mem_cons_self n _⟩,
      ih fun f mem => each f (List.mem_cons_of_mem _ mem)⟩

theorem noSpecial_writeValue (v : Json) (storable : v.Storable) :
    ∀ n place, NoSpecial (writeValue n place v) := by
  induction v with
  | null | bool | int | float | str => exact fun n place => noSpecial_placeAtom storable
  | arr items ih =>
    have each : ∀ w ∈ items, ∀ n place, NoSpecial (writeValue n place w) := fun w mem =>
      ih w mem ((Json.throughout_arr.1 storable).2 w mem)
    intro n place
    cases items with
    | nil => exact noSpecial_placeAtom storable
    | cons w items =>
      rw [writeValue]
      exact noSpecial_append.2 ⟨noSpecial_append.2 ⟨noSpecial_startBlock, noSpecial_cons.2
        ⟨by decide, noSpecial_cons.2 ⟨by decide, each w List.mem_cons_self _ _⟩⟩⟩,
        noSpecial_writeItems fun u mem => each u (List.mem_cons_of_mem _ mem)⟩
  | obj fields ih =>
    have each : ∀ f ∈ fields, ∀ n place, NoSpecial (writeValue n place f.2) := fun f mem =>
      ih f mem ((Json.throughout_obj.1 storable).2 f mem)
    intro n place
    cases fields with
    | nil => exact noSpecial_placeAtom storable
    | cons f fields =>
      obtain ⟨key, w⟩ := f
      rw [writeValue]
      exact noSpecial_append.2 ⟨noSpecial_append.2 ⟨noSpecial_append.2 ⟨noSpecial_startBlock,
        noSpecial_keyText⟩, each (key, w) List.mem_cons_self _ _⟩,
        noSpecial_writeFields fun f mem => each f (List.mem_cons_of_mem _ mem)⟩

/-- What is not special can be read, and starts no other reading of the text. -/
theorem readable_of_noSpecial (printed : isSpecial x = false) :
    isReadable x = true ∧ x ≠ '\r' ∧ x ≠ '\ufeff' := by
  refine ⟨?_, ?_, ?_⟩
  · simp only [isSpecial, Bool.not_eq_false', Bool.or_eq_true, Bool.and_eq_true, decide_eq_true_eq,
      beq_iff_eq] at printed
    simp only [isReadable, Bool.or_eq_true, Bool.and_eq_true, decide_eq_true_eq, beq_iff_eq]
    rcases printed with ((((rfl | h) | h) | h) | h) | h
    · decide
    all_goals omega
  · rintro rfl
    cases printed
  · rintro rfl
    cases printed

/-! ## The tokens of a document -/

open Lexer

/-- At the end of the text the last block is closed. -/
theorem finishes_end {c : Cursor} {p : List Token} (h : c.rest = []) :
    Finishes (inBlock c true 0 [-1] [] p) (p ++ [.blockEnd, .streamEnd]) := by
  have solid : Solid c.rest := by
    rw [h]
    rintro x ⟨⟩
  have none : (inBlock c true 0 [-1] [] p).lexNext = .ok none := by
    have ended : c.atEnd = true := by rw [Cursor.atEnd, h]; rfl
    rw [lexNext_inBlock solid (Int.natCast_nonneg _), lexToken]
    simp [inBlock, ended, pure, Except.pure]
  have all := allTokens_inBlock (c := c) (a := true) (i := 0) (o := [-1]) (p := p) spare_nil
  have ends := Finishes.ends none
  rw [all] at ends
  simpa [closeBlocks] using ends

theorem nextLine_nil : NextLine n [] :=
  .of_solid (by rintro x ⟨⟩) fun c h => c.atDocumentMark_eq_false (by
    rw [h]
    rintro x ⟨⟩)

/-- The characters of a document whose root is an object. -/
theorem document_text (key : String) (v : Json) (fields : List (String × Json)) :
    (document (.obj ((key, v) :: fields))).toList =
      keyText 0 key ++ (writeValue 0 (valuePlace 0 key) v ++
        (writeFields 0 fields ++ (newLine 0 ++ []))) := by
  simp [document, isPlainRoot, writeRoot, newLine]

theorem noSpecial_document {fields : List (String × Json)} (storable : (Json.obj fields).Storable)
    (filled : fields ≠ []) : NoSpecial (document (.obj fields)).toList := by
  obtain ⟨f, fields, rfl⟩ := List.exists_cons_of_ne_nil filled
  have parts := (Json.throughout_obj.1 storable).2
  rw [document_text]
  exact noSpecial_append.2 ⟨noSpecial_keyText, noSpecial_append.2
    ⟨noSpecial_writeValue f.2 (parts f List.mem_cons_self) _ _, noSpecial_append.2
      ⟨noSpecial_writeFields fun g mem =>
        noSpecial_writeValue g.2 (parts g (List.mem_cons_of_mem _ mem)),
        noSpecial_append.2 ⟨noSpecial_newLine, by decide⟩⟩⟩⟩

theorem tokens_eq (printed : NoSpecial cs) :
    tokens cs = (Lexer.start cs).lexAll (cs.length + 2) := by
  have readable : cs.all isReadable = true :=
    List.all_eq_true.2 fun x mem => (readable_of_noSpecial (printed x mem)).1
  have mark : ¬ ((Lexer.start cs).cursor.peek == '\ufeff') = true := by
    rw [beq_iff_eq, Cursor.peek_eq_head]
    cases cs with
    | nil => exact (by decide : ¬ '\x00' = '\ufeff')
    | cons x cs => exact (readable_of_noSpecial (printed x List.mem_cons_self)).2.2
  rw [tokens, if_pos readable]
  dsimp only
  rw [if_neg mark]

/-- **A document is read as the tokens of its value.** -/
theorem tokens_document {fields : List (String × Json)} (storable : (Json.obj fields).Storable)
    (filled : fields ≠ []) (kept : keepsFields 0 fields = true) :
    tokens (document (.obj fields)).toList = tokensOf false (.obj fields) ++ [.streamEnd] := by
  have start := tokens_eq (noSpecial_document storable filled)
  obtain ⟨⟨key, v⟩, fields, rfl⟩ := List.exists_cons_of_ne_nil filled
  have parts := (Json.throughout_obj.1 storable).2
  have text := document_text key v fields
  generalize (document (.obj ((key, v) :: fields))).toList = cs at start text ⊢
  obtain ⟨d, left, -, leads⟩ := leads_fields (p := []) parts
    (fun f mem => lexesBack f.2 (parts f mem)) kept (c := Cursor.start cs) rfl
    (.right (by decide : (-1 : Int) < (0 : Nat))) (Nat.le_refl 0) nextLine_nil text
  have finishes := leads _ (finishes_end left)
  have read := finishes.lexAll (Nat.lt_add_of_pos_right (Nat.succ_pos 1))
  have all : [] ++ [Token.blockMappingStart] ++ fieldTokens ((key, v) :: fields) ++
      [.blockEnd, .streamEnd] = tokensOf false (.obj ((key, v) :: fields)) ++ [.streamEnd] := by
    simp [tokensOf]
  rw [start, ← all]
  exact read

end ResourceApi.Yaml
