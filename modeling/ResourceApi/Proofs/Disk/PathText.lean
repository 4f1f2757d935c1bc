import Mathlib.Data.List.Basic
import ResourceApi.Disk.Path

/-! # Paths and their texts

Paths that are read from texts have names with something in them, without slashes and
other than a point. The text of such a path reads as the path again, so a text belongs
to one path at most. -/

namespace ResourceApi.Path

/-- A path that is the one its text reads as. -/
def Proper (p : Path) : Prop := ofString p.toString = p

instance (p : Path) : Decidable p.Proper := inferInstanceAs (Decidable (_ = _))

theorem Proper.eq_of_toString {p q : Path} (proper : p.Proper) (proper' : q.Proper)
    (same : p.toString = q.toString) : p = q :=
  calc
    p = ofString p.toString := proper.symm
    _ = ofString q.toString := by rw [same]
    _ = q := proper'

/-! ## Pieces -/

theorem pieces_ne_nil (cs : List Char) : pieces cs ≠ [] := by
  cases cs with
  | nil => exact List.cons_ne_nil _ _
  | cons c rest =>
    rw [pieces]
    split
    · exact List.cons_ne_nil _ _
    · split <;> exact List.cons_ne_nil _ _

theorem pieces_slash (rest : List Char) : pieces ('/' :: rest) = [] :: pieces rest := rfl

theorem pieces_other {c : Char} (h : c ≠ '/') {rest p : List Char} {ps : List (List Char)}
    (rest_eq : pieces rest = p :: ps) : pieces (c :: rest) = (c :: p) :: ps := by
  rw [pieces, if_neg (by simpa using h), rest_eq]

/-- Pieces have no slash in them. -/
theorem not_mem_of_mem_pieces {cs p : List Char} (mem : p ∈ pieces cs) : '/' ∉ p := by
  induction cs generalizing p with
  | nil => simp_all [pieces]
  | cons c rest ih =>
    by_cases slash : c = '/'
    · subst slash
      rcases List.mem_cons.1 (pieces_slash rest ▸ mem) with rfl | mem
      · exact List.not_mem_nil
      · exact ih mem
    · obtain ⟨q, qs, rest_eq⟩ := List.exists_cons_of_ne_nil (pieces_ne_nil rest)
      rw [pieces_other slash rest_eq] at mem
      rw [rest_eq] at ih
      rcases List.mem_cons.1 mem with rfl | mem
      · rw [List.mem_cons, not_or]
        exact ⟨Ne.symm slash, ih List.mem_cons_self⟩
      · exact ih (List.mem_cons_of_mem _ mem)

theorem pieces_of_not_mem {cs : List Char} (plain : '/' ∉ cs) : pieces cs = [cs] := by
  induction cs with
  | nil => rfl
  | cons c rest ih =>
    rw [List.mem_cons, not_or] at plain
    exact pieces_other (Ne.symm plain.1) (ih plain.2)

theorem pieces_append_slash {cs : List Char} (plain : '/' ∉ cs) (rest : List Char) :
    pieces (cs ++ '/' :: rest) = cs :: pieces rest := by
  induction cs with
  | nil => rfl
  | cons c cs ih =>
    rw [List.mem_cons, not_or] at plain
    exact pieces_other (Ne.symm plain.1) (ih plain.2)

/-- Names without slashes are the pieces of the text that has slashes between them. -/
theorem pieces_intercalate {names : List (List Char)} (plain : ∀ n ∈ names, '/' ∉ n)
    (some : names ≠ []) : pieces (['/'].intercalate names) = names := by
  induction names with
  | nil => exact absurd rfl some
  | cons n rest ih =>
    have first := plain n List.mem_cons_self
    cases rest with
    | nil => rw [List.intercalate_singleton, pieces_of_not_mem first]
    | cons m rest =>
      have later := ih (fun k mem => plain k (List.mem_cons_of_mem _ mem)) (List.cons_ne_nil _ _)
      rw [List.intercalate_cons_cons, List.append_assoc, List.singleton_append,
        pieces_append_slash first, later]

/-! ## Names -/

/-- A name as paths have them. -/
structure IsName (n : List Char) : Prop where
  someChar : n ≠ []
  notPoint : n ≠ ['.']
  noSlash : '/' ∉ n

theorem isName_of_mem_ofString {s n : String} (mem : n ∈ (ofString s).names) :
    IsName n.toList := by
  obtain ⟨p, kept, rfl⟩ := List.mem_map.1 mem
  obtain ⟨piece, keeps⟩ := List.mem_filter.1 kept
  simp only [Bool.and_eq_true, Bool.not_eq_true', List.isEmpty_eq_false_iff, bne_iff_ne] at keeps
  rw [String.toList_ofList]
  exact ⟨keeps.1, keeps.2, not_mem_of_mem_pieces piece⟩

/-- The names that a text has, read from its characters. -/
def namesOf (cs : List Char) : List (List Char) :=
  (pieces cs).filter fun p => !p.isEmpty && p != ['.']

theorem names_ofString (s : String) :
    (ofString s).names = (namesOf s.toList).map String.ofList := rfl

variable {names : List (List Char)}

theorem namesOf_intercalate (areNames : ∀ n ∈ names, IsName n) :
    namesOf (['/'].intercalate names) = names := by
  cases names with
  | nil => rfl
  | cons n rest =>
    rw [namesOf, pieces_intercalate (fun m mem => (areNames m mem).noSlash) (List.cons_ne_nil _ _),
      List.filter_eq_self]
    intro m mem
    simp [(areNames m mem).someChar, (areNames m mem).notPoint]

/-- Names do not start with a slash. -/
theorem takeWhile_intercalate (areNames : ∀ n ∈ names, IsName n) :
    (['/'].intercalate names).takeWhile (· == '/') = [] := by
  cases names with
  | nil => rfl
  | cons n rest =>
    obtain ⟨someChar, -, noSlash⟩ := areNames n List.mem_cons_self
    obtain ⟨c, cs, rfl⟩ := List.exists_cons_of_ne_nil someChar
    have other : c ≠ '/' := fun same => noSlash (same ▸ List.mem_cons_self)
    cases rest <;> simp [List.intercalate_cons_cons, other]

/-- What stands behind an anchor reads as names. -/
theorem ofString_anchored (anchor : Anchor) (areNames : ∀ n ∈ names, IsName n) :
    ofString (anchor.text ++ String.ofList (['/'].intercalate names)) =
      ⟨anchor, names.map String.ofList⟩ := by
  have slashes := takeWhile_intercalate areNames
  have behind := namesOf_intercalate areNames
  have read (s : String) : ofString s = ⟨(ofString s).anchor, (ofString s).names⟩ := rfl
  rw [read, names_ofString, String.toList_append, String.toList_ofList]
  have named : namesOf (anchor.text.toList ++ ['/'].intercalate names) = names := by
    cases anchor with
    | here => exact behind
    | root => exact behind
    | doubleRoot => exact behind
  rw [named, ofString, String.toList_append, String.toList_ofList]
  cases anchor <;> simp [Anchor.text, slashes]

/-- **A path that is read from a text is the one its own text reads as.** -/
theorem proper_ofString (s : String) : (ofString s).Proper := by
  obtain ⟨p, read⟩ : ∃ p, ofString s = p := ⟨_, rfl⟩
  have areNames : ∀ n ∈ p.names.map String.toList, IsName n := by
    intro n mem
    obtain ⟨name, named, rfl⟩ := List.mem_map.1 mem
    exact isName_of_mem_ofString (read ▸ named)
  rw [read, Proper, toString]
  split
  · next nowhere =>
    rw [Bool.and_eq_true, decide_eq_true_eq, List.isEmpty_iff] at nowhere
    obtain ⟨anchor, names⟩ := p
    obtain ⟨rfl, rfl⟩ := nowhere
    decide
  · have joined : "/".intercalate p.names =
        String.ofList (['/'].intercalate (p.names.map String.toList)) := by
      rw [← String.toList_inj, String.toList_intercalate, String.toList_ofList,
        String.toList_ofList]
    rw [joined, ofString_anchored p.anchor areNames, List.map_map, String.ofList_comp_toList,
      List.map_id]

end ResourceApi.Path
