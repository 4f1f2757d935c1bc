import ResourceApi.Proofs.Yaml.QuotedScalars
import ResourceApi.Yaml.Writer

/-! # Characters of written texts

Whatever a text holds, the scalar that it is written as holds no special character;
and if its lines may not be broken, it has the breaks of the text or none. -/

namespace ResourceApi.Yaml

variable {s : Setting} {column n width : Nat} {previous : Char} {before : Option Char}
  {first afterEscape isKey : Bool} {cs : List Char} {x : Char}

/-- A character that a scalar may be written with: it is not special, and a break only where
`breaks` allows it. -/
def Printed (breaks : Prop) (x : Char) : Prop := isSpecial x = false ∧ (isBreak x = true → breaks)

variable {breaks : Prop}

theorem printed_of_flat (flat : isBreak x = false) (raw : isSpecial x = false) : Printed breaks x :=
  ⟨raw, fun ends => absurd (flat.symm.trans ends) Bool.false_ne_true⟩

theorem printed_newLine (allowed : breaks) : ∀ x ∈ newLine n, Printed breaks x := by
  intro x mem
  rcases List.mem_cons.1 mem with rfl | blank
  · exact ⟨by decide, fun _ => allowed⟩
  · rw [List.eq_of_mem_replicate blank]
    exact printed_of_flat (by decide) (by decide)

theorem printed_writePlain (broken : s.mayBreak = true → breaks)
    (each : ∀ x ∈ cs, Printed breaks x) :
    ∀ x ∈ writePlain s column previous cs, Printed breaks x := by
  induction cs generalizing column previous with
  | nil => simp [writePlain]
  | cons y cs ih =>
    have later (column previous) : ∀ x ∈ writePlain s column previous cs, Printed breaks x := ih
      fun x mem => each x (List.mem_cons_of_mem _ mem)
    rw [writePlain]
    split_ifs with here
    · have may : s.mayBreak = true := by
        simp only [breaksHere, Bool.and_eq_true] at here
        exact here.2.1.1.1
      exact List.forall_mem_append.2 ⟨printed_newLine (broken may), later _ _⟩
    · exact List.forall_mem_cons.2 ⟨each y List.mem_cons_self, later _ _⟩

theorem printed_writeSingle (broken : s.mayBreak = true → breaks)
    (each : ∀ x ∈ cs, Printed breaks x) :
    ∀ x ∈ writeSingle s column before cs, Printed breaks x := by
  induction cs generalizing column before with
  | nil => simp [writeSingle]
  | cons y cs ih =>
    have later (column before) : ∀ x ∈ writeSingle s column before cs, Printed breaks x := ih
      fun x mem => each x (List.mem_cons_of_mem _ mem)
    have here := each y List.mem_cons_self
    rw [writeSingle]
    dsimp only
    by_cases ends : isBreak y = true
    · rw [if_pos ends]
      have allowed := here.2 ends
      refine List.forall_mem_append.2 ⟨List.forall_mem_append.2 ⟨List.forall_mem_append.2
        ⟨?_, by simpa using here⟩, ?_⟩, later _ _⟩
      · split_ifs
        · exact printed_newLine (n := 0) allowed
        · simp
      · intro x mem
        split_ifs at mem
        · rw [List.eq_of_mem_replicate mem]
          exact printed_of_flat (by decide) (by decide)
        · cases mem
    rw [if_neg ends]
    split_ifs with blank quote
    · have may : s.mayBreak = true := by
        simp only [breaksHere, Bool.and_eq_true] at blank
        exact blank.2.1.1.1
      exact List.forall_mem_append.2 ⟨printed_newLine (broken may), later _ _⟩
    · have same : y = '\'' := by simpa using quote
      subst same
      exact List.forall_mem_cons.2 ⟨here, List.forall_mem_cons.2 ⟨here, later _ _⟩⟩
    · exact List.forall_mem_cons.2 ⟨here, later _ _⟩

/-! ## Between double quotes -/

theorem digit_of_mem_toDigits (mem : x ∈ Nat.toDigits 16 n) : ∃ d < 16, x = d.digitChar := by
  induction n using Nat.strongRecOn with
  | ind n ih =>
    rcases Nat.lt_or_ge n 16 with small | large
    · rw [Nat.toDigits_of_lt_base small, List.mem_singleton] at mem
      exact ⟨n, small, mem⟩
    · rw [Nat.toDigits_of_base_le (by decide) large, List.mem_append, List.mem_singleton] at mem
      rcases mem with higher | last
      · exact ih _ (Nat.div_lt_self (by omega) (by decide)) higher
      · exact ⟨_, Nat.mod_lt _ (by decide), last⟩

theorem printed_upperHex : ∀ x ∈ upperHex width n, Printed breaks x := by
  have digits : ∀ d < 16, isBreak d.digitChar.toUpper = false ∧
      isSpecial d.digitChar.toUpper = false := by decide
  intro x hex
  obtain ⟨y, mem, rfl⟩ := List.mem_map.1 hex
  obtain ⟨d, small, rfl⟩ : ∃ d < 16, y = d.digitChar := by
    rcases List.mem_append.1 mem with zero | digit
    · exact ⟨0, by decide, List.eq_of_mem_replicate zero⟩
    · exact digit_of_mem_toDigits digit
  exact printed_of_flat (digits d small).1 (digits d small).2

theorem printed_escape : ∀ y ∈ escape x, Printed breaks y := by
  have backslash : Printed breaks '\\' := printed_of_flat (by decide) (by decide)
  have announced {letter : Char} {width : Nat} (flat : isBreak letter = false)
      (raw : isSpecial letter = false) :
      ∀ y ∈ '\\' :: letter :: upperHex width x.toNat, Printed breaks y :=
    List.forall_mem_cons.2
      ⟨backslash, List.forall_mem_cons.2 ⟨printed_of_flat flat raw, printed_upperHex⟩⟩
  rw [escape]
  split
  · next letter some =>
    have letters : isBreak letter = false ∧ isSpecial letter = false := by
      unfold escapeLetter? at some
      split at some <;> first | (cases some; decide) | cases some
    simpa using ⟨backslash, printed_of_flat letters.1 letters.2⟩
  · split_ifs
    · exact announced (by decide) (by decide)
    · exact announced (by decide) (by decide)
    · exact announced (by decide) (by decide)

theorem printed_isRaw (raw : isRaw x = true) : Printed breaks x := by
  simp only [isRaw, Bool.and_eq_true, Bool.not_eq_true', Bool.or_eq_false_iff] at raw
  obtain ⟨⟨⟨-, flat⟩, mark⟩, range⟩ := raw
  refine printed_of_flat flat ?_
  simp only [beq_eq_false_iff_ne, ne_eq] at mark
  simp only [Bool.or_eq_true, Bool.and_eq_true, decide_eq_true_eq] at range
  simp only [isSpecial, Bool.not_eq_false', Bool.or_eq_true, Bool.and_eq_true, decide_eq_true_eq,
    bne_iff_ne, ne_eq]
  omega

theorem printed_brokenLine {next : Option Char} (allowed : breaks) :
    ∀ x ∈ brokenLine s next, Printed breaks x := by
  have backslash : Printed breaks '\\' := printed_of_flat (by decide) (by decide)
  refine List.forall_mem_append.2
    ⟨List.forall_mem_cons.2 ⟨backslash, printed_newLine allowed⟩, ?_⟩
  split_ifs
  · simpa using backslash
  · simp

theorem printed_writeDouble (broken : s.mayBreak = true → breaks) :
    ∀ x ∈ writeDouble s column first afterEscape cs, Printed breaks x := by
  induction cs generalizing column first afterEscape with
  | nil => simp [writeDouble]
  | cons y cs ih =>
    have may (inside : (s.mayBreak && !first && !cs.isEmpty) = true) : breaks := by
      simp only [Bool.and_eq_true] at inside
      exact broken inside.1.1
    rw [writeDouble]
    dsimp only
    by_cases raw : isRaw y = true
    · rw [if_pos raw]
      split_ifs with here
      · simp only [Bool.and_eq_true] at here
        exact List.forall_mem_append.2 ⟨printed_brokenLine (broken here.1.1.1.1),
          List.forall_mem_cons.2 ⟨printed_isRaw raw, ih⟩⟩
      · exact List.forall_mem_cons.2 ⟨printed_isRaw raw, ih⟩
    · rw [if_neg raw]
      split_ifs with here
      · simp only [Bool.and_eq_true] at here
        exact List.forall_mem_append.2 ⟨List.forall_mem_append.2
          ⟨printed_escape, printed_brokenLine (broken here.1.1.1)⟩, ih⟩
      · exact List.forall_mem_append.2 ⟨printed_escape, ih⟩

/-! ## Whole scalars -/

theorem quoting_plain {isKey : Bool} : quoting isKey cs = .plain ↔ fitsPlain cs = true := by
  unfold quoting
  split_ifs with plain single <;> simp [plain]

theorem quoting_single {isKey : Bool} (h : quoting isKey cs = .single) :
    fitsSingle cs = true ∧ (isKey = true → hasBreak cs = false) := by
  unfold quoting at h
  split_ifs at h with plain single
  simp only [Bool.and_eq_true, Bool.not_eq_true', Bool.and_eq_false_iff] at single
  refine ⟨single.1, fun key => single.2.resolve_left ?_⟩
  rw [key]
  decide


/-- **A written text holds no special character**, and a break only where a line was broken or the
text has one. -/
theorem printed_writeText {text : String} : ∀ x ∈ writeText s isKey column text,
    Printed (s.mayBreak = true ∨ hasBreak text.toList = true) x := by
  have each (special : text.toList.any isSpecial = false) :
      ∀ x ∈ text.toList, Printed (s.mayBreak = true ∨ hasBreak text.toList = true) x := by
    intro x mem
    exact ⟨by simpa using List.any_eq_false.1 special x mem,
      fun ends => Or.inr (List.any_eq_true.2 ⟨x, mem, ends⟩)⟩
  have quoted {quote : Char} {inside : List Char} (flat : isBreak quote = false)
      (raw : isSpecial quote = false)
      (each : ∀ x ∈ inside, Printed (s.mayBreak = true ∨ hasBreak text.toList = true) x) :
      ∀ x ∈ quote :: inside ++ [quote],
        Printed (s.mayBreak = true ∨ hasBreak text.toList = true) x := by
    have mark : Printed (s.mayBreak = true ∨ hasBreak text.toList = true) quote :=
      printed_of_flat flat raw
    exact List.forall_mem_append.2 ⟨List.forall_mem_cons.2 ⟨mark, each⟩, by simpa using mark⟩
  rw [writeText]
  split
  · next how =>
    rw [quoting_plain, fitsPlain] at how
    simp only [Bool.and_eq_true, Bool.not_eq_true'] at how
    exact printed_writePlain Or.inl (each how.1.1.1.2)
  · next how =>
    have fits := (quoting_single how).1
    simp only [fitsSingle, Bool.and_eq_true, Bool.not_eq_true'] at fits
    exact quoted (by decide) (by decide) (printed_writeSingle Or.inl (each fits.2))
  · exact quoted (by decide) (by decide) (printed_writeDouble Or.inl)

end ResourceApi.Yaml
