import ResourceApi.Proofs.Json.NumberRoundTrip
import ResourceApi.Proofs.Json.StringRoundTrip
import ResourceApi.Proofs.Json.Throughout

/-! # Values read back

A value that can be stored is written so that reading gives it back: its integers have
no more digits than are read, its doubles are canonical, and no object has a name
twice. The proof follows the value; what holds of its parts is used behind the bracket
that opens it, where the reader has one unit of fuel less for each. -/

namespace ResourceApi.Json

open Numeral (isDigit digitsValue)

variable {half : Char}

/-! ## Values that can be stored -/

/-- What a value must be, apart from its parts, to be read back. -/
def storableHere : Json → Bool
  | int n => decide ((Nat.toDigits 10 n.natAbs).length ≤ Numeral.mostDigits)
  | float (.finite _ m e) => decide (Binary64.Canonical m e)
  | obj fields => decide (Fields.names fields).Nodup
  | _ => true

def Storable (v : Json) : Prop := v.throughout storableHere = true

theorem longIntOfItems?_eq_none {items : List Json} :
    longIntOfItems? items = none ↔ ∀ v ∈ items, v.longInt? = none := by
  induction items with
  | nil => simp [longIntOfItems?]
  | cons v rest ih => simp [longIntOfItems?, ih]

theorem longIntOfFields?_eq_none {fields : Fields Json} :
    longIntOfFields? fields = none ↔ ∀ f ∈ fields, f.2.longInt? = none := by
  induction fields with
  | nil => simp [longIntOfFields?]
  | cons f rest ih => simp [longIntOfFields?, ih]

/-- A value that can be stored holds no integer that is not written. -/
theorem Storable.longInt?_eq_none {v : Json} (storable : v.Storable) : v.longInt? = none := by
  induction v with
  | null | bool | float | str => rfl
  | int n =>
    have short : (Nat.toDigits 10 n.natAbs).length ≤ Numeral.mostDigits :=
      of_decide_eq_true storable
    rw [longInt?, if_neg (Nat.not_lt.2 short)]
  | arr items ih =>
    rw [longInt?, longIntOfItems?_eq_none]
    exact fun w mem => ih w mem ((throughout_arr.1 storable).2 w mem)
  | obj fields ih =>
    rw [longInt?, longIntOfFields?_eq_none]
    exact fun f mem => ih f mem ((throughout_obj.1 storable).2 f mem)

/-- The value is read from its text, whatever stands behind it, with as much fuel as the text is
long and `half` in the place of halves of surrogate pairs. -/
def ReadsBack (half : Char) (v : Json) : Prop :=
  ∀ (level fuel : Nat) (rest : List Char), Ends rest → (writeIndented level v).length ≤ fuel →
    readValue half fuel (writeIndented level v ++ rest) = .ok (v, rest)

/-! ## Atoms -/

theorem readValue_atom {c : Char} (quote : c ≠ '"') (brace : c ≠ '{') (bracket : c ≠ '[')
    (fuel : Nat) (cs : List Char) : readValue half (fuel + 1) (c :: cs) = readAtom (c :: cs) := by
  rw [readValue.eq_def]
  dsimp only
  split <;> simp_all

/-- A number starts with a digit. -/
theorem head_of_readUnsigned {start cs : List Char} {negative : Bool} {r : Json × List Char}
    (h : readUnsigned start negative cs = .ok r) : ∃ c rest, cs = c :: rest ∧ isDigit c = true := by
  cases cs with
  | nil => cases h
  | cons c rest =>
    refine ⟨c, rest, rfl, ?_⟩
    by_contra other
    have zero : c ≠ '0' := by
      rintro rfl
      exact other (by decide)
    have none : wholePart (c :: rest) = none := by
      rw [wholePart.eq_def]
      split <;> simp_all
    rw [readUnsigned, none] at h
    cases h

theorem readValue_unsigned {cs : List Char} {r : Json × List Char}
    (h : readUnsigned cs false cs = .ok r) (fuel : Nat) : readValue half (fuel + 1) cs = .ok r := by
  obtain ⟨c, rest, rfl, digit⟩ := head_of_readUnsigned h
  have other {x : Char} (no : isDigit x = false) : c ≠ x := by
    rintro rfl
    rw [no] at digit
    cases digit
  rw [readValue_atom (other (by decide)) (other (by decide)) (other (by decide)), ← h, readAtom]
  have noWord : (words.findSome? fun w => (afterWord? w.1 (c :: rest)).map ((w.2, ·))) = none := by
    have letters : c ≠ 'n' ∧ c ≠ 't' ∧ c ≠ 'f' ∧ c ≠ 'N' ∧ c ≠ 'I' ∧ c ≠ '-' :=
      ⟨other (by decide), other (by decide), other (by decide), other (by decide),
        other (by decide), other (by decide)⟩
    simp [words, afterWord?, letters, Ne.symm]
  rw [noWord]
  intro rest' same
  exact other (by decide) (List.cons.inj same).1

theorem readValue_negative {cs : List Char} {r : Json × List Char}
    (h : readUnsigned ('-' :: cs) true cs = .ok r) (fuel : Nat) :
    readValue half (fuel + 1) ('-' :: cs) = .ok r := by
  obtain ⟨c, rest, rfl, digit⟩ := head_of_readUnsigned h
  have letter : c ≠ 'I' := by
    rintro rfl
    exact absurd digit (by decide)
  rw [readValue_atom (by decide) (by decide) (by decide), ← h, readAtom]
  have noWord : (words.findSome? fun w => (afterWord? w.1 ('-' :: c :: rest)).map ((w.2, ·))) =
      none := by
    simp [words, afterWord?, Ne.symm letter]
  rw [noWord]

theorem fuel_succ {text : List Char} {fuel : Nat} (some : text ≠ []) (enough : text.length ≤ fuel) :
    ∃ fuel', fuel = fuel' + 1 := by
  have := List.length_pos_iff.2 some
  exact Nat.exists_eq_succ_of_ne_zero (by omega)

theorem int_text (n : Int) : (toString n).toList =
    (if n < 0 then ['-'] else []) ++ Nat.toDigits 10 n.natAbs := by
  cases n with
  | ofNat k =>
    rw [if_neg (Int.not_lt.2 (Int.natCast_nonneg k) : ¬ Int.ofNat k < 0), List.nil_append]
    exact Nat.toList_repr
  | negSucc k =>
    rw [if_pos (Int.negSucc_lt_zero k)]
    show ("-" ++ (k + 1).repr).toList = _
    rw [String.toList_append, Nat.toList_repr]
    rfl

theorem readsBack_int {n : Int} (storable : Storable (int n)) : ReadsBack half (int n) := by
  intro level fuel rest ends enough
  have short : (Nat.toDigits 10 n.natAbs).length ≤ Numeral.mostDigits :=
    of_decide_eq_true storable
  have text : writeIndented level (int n) = _ := int_text n
  rw [text] at enough ⊢
  obtain ⟨fuel, rfl⟩ := fuel_succ (by simp [Nat.toDigits_ne_nil]) enough
  by_cases negative : n < 0
  · rw [if_pos negative, List.append_assoc, List.singleton_append]
    rw [readValue_negative (readUnsigned_int short ends _ true), if_pos rfl]
    congr 3
    omega
  · rw [if_neg negative, List.nil_append, readValue_unsigned (readUnsigned_int short ends _ false),
      if_neg Bool.false_ne_true]
    congr 3
    omega

/-- The digits of a double, behind its sign, are read as the double. -/
theorem readUnsigned_finite {m : Nat} {e : Int} (canonical : Binary64.Canonical m e)
    (negative : Bool) (start : List Char) {rest : List Char} (ends : Ends rest) :
    readUnsigned start negative
      ((if m == 0 then "0.0" else (Decimal.shortest m e).write floatStyle).toList ++ rest) =
        .ok (float (.finite negative m e), rest) := by
  rcases Nat.eq_zero_or_pos m with rfl | pos
  · have least : e = -1074 := canonical.2.2.2.resolve_left (by decide)
    subst least
    have zero : Whole ['0'] := whole_singleton rfl
    exact readUnsigned_point zero (digits_zeros 1) (by simp) ends start negative
  · have nonzero : (m == 0) = false := beq_eq_false_iff_ne.2 pos.ne'
    obtain ⟨digits, power, value, read⟩ :=
      readsAs_write _ (Decimal.shortest_digits_pos pos canonical) rest ends start negative
    rw [nonzero, if_neg Bool.false_ne_true, read,
      Decimal.ofDecimal_shortest negative pos canonical value]

theorem readsBack_float {x : Binary64} (storable : Storable (float x)) :
    ReadsBack half (float x) := by
  intro level fuel rest ends enough
  have text : writeIndented level (float x) = (x.write floatStyle).toList := rfl
  rw [text] at enough ⊢
  cases x with
  | notANumber =>
    obtain ⟨fuel, rfl⟩ := fuel_succ (by decide) enough
    exact readValue_atom (by decide) (by decide) (by decide) fuel _
  | infinite negative =>
    cases negative <;> obtain ⟨fuel, rfl⟩ := fuel_succ (by decide) enough
    · exact readValue_atom (by decide) (by decide) (by decide) fuel _
    · exact readValue_atom (by decide) (by decide) (by decide) fuel _
  | finite negative m e =>
    have canonical : Binary64.Canonical m e := of_decide_eq_true storable
    simp only [Binary64.write] at enough ⊢
    cases negative with
    | true =>
      rw [if_pos rfl, String.toList_append] at enough ⊢
      obtain ⟨fuel, rfl⟩ := fuel_succ (by simp) enough
      exact readValue_negative (readUnsigned_finite canonical true _ ends) fuel
    | false =>
      rw [if_neg Bool.false_ne_true] at enough ⊢
      obtain ⟨c, cs, read, -⟩ :=
        head_of_readUnsigned (readUnsigned_finite canonical false [] ends_nil)
      rw [List.append_nil] at read
      obtain ⟨fuel, rfl⟩ := fuel_succ (by rw [read]; simp) enough
      exact readValue_unsigned (readUnsigned_finite canonical false _ ends) fuel

/-! ## Between values -/

/-- A value starts with a character that is no blank, closes no array and marks no byte order. -/
theorem head_of_readValue {fuel : Nat} {cs : List Char} {r : Json × List Char}
    (h : readValue half fuel cs = .ok r) :
    ∃ c rest, cs = c :: rest ∧ isBlank c = false ∧ c ≠ ']' ∧ c ≠ '\ufeff' := by
  cases fuel with
  | zero => cases h
  | succ fuel =>
    cases cs with
    | nil => cases h
    | cons c rest =>
      refine ⟨c, rest, rfl, ?_, ?_, ?_⟩
      · by_contra blank
        rw [Bool.not_eq_false, isBlank, Bool.or_eq_true, Bool.or_eq_true, Bool.or_eq_true,
          beq_iff_eq, beq_iff_eq, beq_iff_eq, beq_iff_eq] at blank
        rcases blank with ((rfl | rfl) | rfl) | rfl <;> cases h
      · rintro rfl
        cases h
      · rintro rfl
        cases h

theorem ReadsBack.starts {v : Json} (back : ReadsBack half v) (level : Nat) :
    ∃ c rest, writeIndented level v = c :: rest ∧ isBlank c = false ∧ c ≠ ']' ∧
      c ≠ '\ufeff' := by
  have read := back level _ [] ends_nil (le_refl _)
  rw [List.append_nil] at read
  exact head_of_readValue read

theorem skipBlank_cons {c : Char} (h : isBlank c = false) (cs : List Char) :
    skipBlank (c :: cs) = c :: cs := by
  rw [skipBlank, List.dropWhile_cons_of_neg (by rw [h]; exact Bool.false_ne_true)]

theorem skipBlank_newLine (level : Nat) {c : Char} (h : isBlank c = false) (cs : List Char) :
    skipBlank (newLine level ++ c :: cs) = c :: cs := by
  have blanks (n : Nat) : skipBlank (List.replicate n ' ' ++ c :: cs) = c :: cs := by
    induction n with
    | zero => exact skipBlank_cons h cs
    | succ n ih =>
      rw [List.replicate_succ, List.cons_append, skipBlank, List.dropWhile_cons_of_pos (by decide)]
      exact ih
  rw [newLine, List.cons_append, skipBlank, List.dropWhile_cons_of_pos (by decide)]
  exact blanks _

theorem ReadsBack.skipBlank {v : Json} (back : ReadsBack half v) (level : Nat) (rest : List Char) :
    Json.skipBlank (newLine level ++ (writeIndented level v ++ rest)) =
      writeIndented level v ++ rest := by
  obtain ⟨c, cs, text, solid, -⟩ := back.starts level
  rw [text, List.cons_append, skipBlank_newLine level solid]

theorem ends_comma (rest : List Char) : Ends (',' :: rest) := by
  rintro c ⟨⟩
  exact Or.inl rfl

theorem ends_newLine (level : Nat) (rest : List Char) : Ends (newLine level ++ rest) := by
  rintro c ⟨⟩
  exact Or.inr rfl

/-! ## Arrays -/

/-- Behind an opening bracket the items begin, unless the next thing closes it. -/
theorem readValue_items (level fuel : Nat) {c : Char} (solid : isBlank c = false) (open' : c ≠ ']')
    (cs : List Char) :
    readValue half (fuel + 1) ('[' :: (newLine level ++ c :: cs)) =
      readItems half fuel [] (c :: cs) := by
  rw [readValue, skipBlank_newLine level solid]
  split
  · next same => exact absurd (List.cons.inj same).1 open'
  · rfl

/-- Items are read up to the bracket that closes them. -/
theorem readItems_written {v : Json} {items : List Json}
    (each : ∀ w ∈ v :: items, ReadsBack half w) (level outer : Nat) (acc : List Json)
    (rest : List Char) {fuel : Nat}
    (enough : (writeIndented level v).length + (writeIndentedItems level items).length < fuel) :
    readItems half fuel acc (writeIndented level v ++
      (writeIndentedItems level items ++ (newLine outer ++ ']' :: rest))) =
        .ok (arr (acc.reverse ++ v :: items), rest) := by
  induction items generalizing v acc fuel with
  | nil =>
    obtain ⟨fuel, rfl⟩ := Nat.exists_eq_succ_of_ne_zero (Nat.ne_zero_of_lt enough)
    have back := each v List.mem_cons_self
    rw [writeIndentedItems, List.nil_append, readItems,
      back level fuel _ (ends_newLine outer _) (by omega)]
    dsimp only
    rw [skipBlank_newLine outer (by decide)]
    simp
  | cons w items ih =>
    obtain ⟨fuel, rfl⟩ := Nat.exists_eq_succ_of_ne_zero (Nat.ne_zero_of_lt enough)
    have back := each v List.mem_cons_self
    have later : ∀ u ∈ w :: items, ReadsBack half u :=
      fun u mem => each u (List.mem_cons_of_mem _ mem)
    have enough' :
        (writeIndented level w).length + (writeIndentedItems level items).length < fuel := by
      simp only [writeIndentedItems, List.length_cons, List.length_append] at enough
      omega
    have text : writeIndentedItems level (w :: items) ++ (newLine outer ++ ']' :: rest) =
        ',' :: (newLine level ++ (writeIndented level w ++
          (writeIndentedItems level items ++ (newLine outer ++ ']' :: rest)))) := by
      simp [writeIndentedItems]
    rw [text, readItems, back level fuel _ (ends_comma _) (by omega)]
    dsimp only
    rw [skipBlank_cons (by decide)]
    change readItems half fuel (v :: acc) (Json.skipBlank _) = _
    rw [(later w List.mem_cons_self).skipBlank, ih later (v :: acc) enough', List.reverse_cons,
      List.append_assoc, List.singleton_append]

/-! ## Objects -/

/-- Behind an opening brace the fields begin, unless the next thing closes it. -/
theorem readValue_fields (level fuel : Nat) (name : String) (cs : List Char) :
    readValue half (fuel + 1) ('\x7b' :: (newLine level ++ (writeString name ++ cs))) =
      readFields half fuel [] (writeString name ++ cs) := by
  rw [readValue, writeString_append, skipBlank_newLine level (show isBlank '"' = false from rfl)]
  rfl

/-- A written name and the colon behind it are passed on the way to the value. -/
theorem readFields_name (name : String) {v : Json} {rest : List Char} {fuel level : Nat}
    (back : ReadsBack half v) (ends : Ends rest) (enough : (writeIndented level v).length ≤ fuel)
    (acc : List (String × Json)) :
    readFields half (fuel + 1) acc
        (writeString name ++ ':' :: ' ' :: (writeIndented level v ++ rest)) =
      match Json.skipBlank rest with
      | '\x7d' :: rest => .ok (obj (Fields.ofPairs ((name, v) :: acc).reverse), rest)
      | ',' :: rest => readFields half fuel ((name, v) :: acc) (Json.skipBlank rest)
      | rest => stop .expectingComma rest := by
  obtain ⟨c, cs, text, solid, -⟩ := back.starts level
  have value : Json.skipBlank (' ' :: (writeIndented level v ++ rest)) =
      writeIndented level v ++ rest := by
    rw [text, List.cons_append, skipBlank, List.dropWhile_cons_of_pos (by decide)]
    exact skipBlank_cons solid _
  rw [writeString_append, readFields, readString_writeString]
  dsimp only
  rw [skipBlank_cons (by decide)]
  split
  · next behind same =>
    obtain ⟨-, rfl⟩ := List.cons.inj same
    rewrite [value, back level fuel rest ends enough]
    rfl
  · next other => exact absurd rfl (other _)

/-- Fields are read up to the brace that closes them. -/
theorem readFields_written {name : String} {v : Json} {fields : List (String × Json)}
    (each : ∀ f ∈ (name, v) :: fields, ReadsBack half f.2) (level outer : Nat)
    (acc : List (String × Json)) (rest : List Char) {fuel : Nat}
    (enough : (writeIndented level v).length + (writeIndentedFields level fields).length < fuel) :
    readFields half fuel acc (writeString name ++ ':' :: ' ' :: (writeIndented level v ++
      (writeIndentedFields level fields ++ (newLine outer ++ '\x7d' :: rest)))) =
        .ok (obj (Fields.ofPairs (acc.reverse ++ (name, v) :: fields)), rest) := by
  induction fields generalizing name v acc fuel with
  | nil =>
    obtain ⟨fuel, rfl⟩ := Nat.exists_eq_succ_of_ne_zero (Nat.ne_zero_of_lt enough)
    have back : ReadsBack half v := each (name, v) List.mem_cons_self
    rw [writeIndentedFields, List.nil_append,
      readFields_name name back (ends_newLine outer _) (by omega),
      skipBlank_newLine outer (by decide)]
    simp
  | cons g fields ih =>
    obtain ⟨n, w⟩ := g
    obtain ⟨fuel, rfl⟩ := Nat.exists_eq_succ_of_ne_zero (Nat.ne_zero_of_lt enough)
    have back : ReadsBack half v := each (name, v) List.mem_cons_self
    have later : ∀ f ∈ (n, w) :: fields, ReadsBack half f.2 :=
      fun f mem => each f (List.mem_cons_of_mem _ mem)
    have enough' : (writeIndented level w).length +
        (writeIndentedFields level fields).length < fuel := by
      simp only [writeIndentedFields, List.length_cons, List.length_append] at enough
      omega
    have text : writeIndentedFields level ((n, w) :: fields) ++ (newLine outer ++ '\x7d' :: rest) =
        ',' :: (newLine level ++ (writeString n ++ ':' :: ' ' :: (writeIndented level w ++
          (writeIndentedFields level fields ++ (newLine outer ++ '\x7d' :: rest))))) := by
      simp [writeIndentedFields]
    rw [text, readFields_name name back (ends_comma _) (by omega), skipBlank_cons (by decide)]
    change readFields half fuel ((name, v) :: acc) (Json.skipBlank _) = _
    rw [writeString_append n, skipBlank_newLine level (show isBlank '"' = false from rfl),
      ← writeString_append n, ih later ((name, v) :: acc) enough', List.reverse_cons,
      List.append_assoc, List.singleton_append]

/-! ## All values -/

theorem readsBack_null : ReadsBack half null := by
  intro level fuel rest ends enough
  obtain ⟨fuel, rfl⟩ := fuel_succ (List.cons_ne_nil 'n' _) enough
  exact readValue_atom (by decide) (by decide) (by decide) fuel _

theorem readsBack_bool (b : Bool) : ReadsBack half (bool b) := by
  intro level fuel rest ends enough
  cases b
  · obtain ⟨fuel, rfl⟩ := fuel_succ (List.cons_ne_nil 'f' _) enough
    exact readValue_atom (by decide) (by decide) (by decide) fuel _
  · obtain ⟨fuel, rfl⟩ := fuel_succ (List.cons_ne_nil 't' _) enough
    exact readValue_atom (by decide) (by decide) (by decide) fuel _

theorem readsBack_str (s : String) : ReadsBack half (str s) := by
  intro level fuel rest ends enough
  have text : writeIndented level (str s) = writeString s := rfl
  rw [text] at enough ⊢
  obtain ⟨fuel, rfl⟩ := fuel_succ (by simp [writeString]) enough
  rw [writeString_append, readValue, readString_writeString]

theorem readsBack_arr {items : List Json} (each : ∀ w ∈ items, ReadsBack half w) :
    ReadsBack half (arr items) := by
  intro level fuel rest ends enough
  cases items with
  | nil =>
    obtain ⟨fuel, rfl⟩ := fuel_succ (List.cons_ne_nil '[' _) enough
    rfl
  | cons v items =>
    have shorter : (writeIndented (level + 1) v).length +
        (writeIndentedItems (level + 1) items).length + 1 < fuel := by
      simp only [writeIndented, List.length_cons, List.length_append] at enough
      omega
    have text : writeIndented level (arr (v :: items)) ++ rest =
        '[' :: (newLine (level + 1) ++ (writeIndented (level + 1) v ++
          (writeIndentedItems (level + 1) items ++ (newLine level ++ ']' :: rest)))) := by
      simp [writeIndented]
    obtain ⟨fuel, rfl⟩ := Nat.exists_eq_succ_of_ne_zero (Nat.ne_zero_of_lt shorter)
    have back := each v List.mem_cons_self
    obtain ⟨c, cs, start, solid, open', -⟩ := back.starts (level + 1)
    have read : readItems half fuel [] _ = _ :=
      readItems_written each (level + 1) level [] rest (by omega)
    rw [start, List.cons_append] at read
    rw [text, start, List.cons_append, readValue_items (level + 1) fuel solid open', read]
    rfl

theorem readsBack_obj {fields : Fields Json} (nodup : fields.names.Nodup)
    (each : ∀ f ∈ fields, ReadsBack half f.2) : ReadsBack half (obj fields) := by
  intro level fuel rest ends enough
  cases fields with
  | nil =>
    obtain ⟨fuel, rfl⟩ := fuel_succ (List.cons_ne_nil '\x7b' _) enough
    rfl
  | cons f fields =>
    obtain ⟨name, v⟩ := f
    have shorter : (writeIndented (level + 1) v).length +
        (writeIndentedFields (level + 1) fields).length + 1 < fuel := by
      simp only [writeIndented, List.length_cons, List.length_append] at enough
      omega
    have text : writeIndented level (obj ((name, v) :: fields)) ++ rest =
        '\x7b' :: (newLine (level + 1) ++ (writeString name ++ ':' :: ' ' ::
          (writeIndented (level + 1) v ++ (writeIndentedFields (level + 1) fields ++
            (newLine level ++ '\x7d' :: rest))))) := by
      simp [writeIndented]
    obtain ⟨fuel, rfl⟩ := Nat.exists_eq_succ_of_ne_zero (Nat.ne_zero_of_lt shorter)
    rw [text, readValue_fields, readFields_written each (level + 1) level [] rest (by omega),
      List.reverse_nil, List.nil_append, Fields.ofPairs_eq_self nodup]

/-- **A value that can be stored is read back from its text.** -/
theorem readsBack (v : Json) (storable : Storable v) : ReadsBack half v := by
  induction v with
  | null => exact readsBack_null
  | bool b => exact readsBack_bool b
  | int n => exact readsBack_int storable
  | float x => exact readsBack_float storable
  | str s => exact readsBack_str s
  | arr items ih =>
    exact readsBack_arr fun w mem => ih w mem ((throughout_arr.1 storable).2 w mem)
  | obj fields ih =>
    obtain ⟨nodup, parts⟩ := throughout_obj.1 storable
    exact readsBack_obj (of_decide_eq_true nodup) fun f mem => ih f mem (parts f mem)

/-- **What is written to a file is read from it**: the text of a value and a line feed. There is
nothing in it for which the reader would put another character. -/
theorem readWith_indented {v : Json} (storable : Storable v) (half : Char) :
    readWith half (v.indented ++ "\n") = .ok v := by
  have back : ReadsBack half v := readsBack v storable
  obtain ⟨c, cs, text, solid, -, mark⟩ := back.starts 0
  have ends : Ends ['\n'] := by
    rintro c ⟨⟩
    exact Or.inr rfl
  have chars : (v.indented ++ "\n").toList = c :: (cs ++ ['\n']) := by
    rw [String.toList_append, indented, String.toList_ofList, text]
    rfl
  have value := back 0 (2 * (c :: (cs ++ ['\n'])).length + 2) ['\n'] ends (by
    rw [text, List.length_cons, List.length_cons, List.length_append]
    omega)
  rw [text, List.cons_append] at value
  have all : readAll half (c :: (cs ++ ['\n'])) = .ok v := by
    rw [readAll.eq_def]
    split
    · next same => exact absurd (List.cons.inj same).1 mark
    · rw [skipBlank_cons solid, value]
      rfl
  rw [readWith, chars, all]

theorem read_indented {v : Json} (storable : Storable v) : read (v.indented ++ "\n") = .ok v :=
  readWith_indented storable _

end ResourceApi.Json
