import ResourceApi.Proofs.Yaml.PrintedTexts

/-! # Quoted texts

A text that is written between single or double quotes is read back as itself, wherever
its lines are broken. Two things can be lost, and the statements name them: NEL between
single quotes, which is read as a line feed; and, between double quotes, a blank behind
an escaped character where the indentation alone reaches the width of a line, as the
line is broken a second time behind the backslash that keeps the blank. -/

namespace ResourceApi.Yaml

variable {cs rest : List Char} {x y : Char} {f g : Char → Bool} {s : Setting} {column : Nat}
  {previous : Option Char}

/-! ## Pairs of characters -/

theorem hasPair_cons (h : hasPair f g (x :: cs) = false) : hasPair f g cs = false := by
  cases cs with
  | nil => rfl
  | cons y cs => exact (Bool.or_eq_false_iff.1 h).2

theorem hasPair_append {w : List Char} (h : hasPair f g (w ++ cs) = false) :
    hasPair f g cs = false := by
  induction w with
  | nil => exact h
  | cons x w ih => exact ih (hasPair_cons h)

/-- Behind a character of the first kind stands none of the second. -/
theorem hasPair_head (h : hasPair f g (x :: cs) = false) (first : f x = true) :
    ∀ y ∈ cs.head?, g y = false := by
  cases cs with
  | nil => rintro y ⟨⟩
  | cons z cs =>
    rintro y ⟨⟩
    simpa [first] using (Bool.or_eq_false_iff.1 h).1

theorem hasPair_run {w : List Char} (some : w ≠ []) (h : hasPair f g (w ++ cs) = false)
    (all : ∀ x ∈ w, f x = true) : ∀ y ∈ cs.head?, g y = false := by
  induction w with
  | nil => exact absurd rfl some
  | cons x w ih =>
    cases w with
    | nil => exact hasPair_head h (all x List.mem_cons_self)
    | cons y w =>
      exact ih (List.cons_ne_nil _ _) (hasPair_cons h)
        fun z mem => all z (List.mem_cons_of_mem _ mem)

/-! ## Single quotes -/

theorem keepsBlanks_of_goesOn {text : List Char} (goesOn : GoesOn text) :
    ReadsQuoted.KeepsBlanks text := by
  intro y mem
  cases text with
  | nil => cases mem
  | cons z text =>
    rw [List.dropWhile_cons_of_neg (by simp [(goesOn z rfl).1])] at mem
    exact (goesOn y mem).2

/-- What a text must be for single quotes to hold it and give it back. -/
structure FitsSingle (cs : List Char) : Prop where
  behindBreak : hasPair isBreak isBlank cs = false
  beforeBreak : hasPair isBlank isBreak cs = false
  printed : ∀ x ∈ cs, isSpecial x = false
  kept : '\u0085' ∉ cs

namespace FitsSingle

theorem of_fitsSingle (fits : fitsSingle cs = true) (kept : '\u0085' ∉ cs) : FitsSingle cs := by
  simp only [fitsSingle, Bool.and_eq_true, Bool.not_eq_true'] at fits
  exact ⟨fits.1.1, fits.1.2, fun x mem => by simpa using List.any_eq_false.1 fits.2 x mem, kept⟩

theorem append {w : List Char} (h : FitsSingle (w ++ cs)) : FitsSingle cs :=
  ⟨hasPair_append h.behindBreak, hasPair_append h.beforeBreak,
    fun x mem => h.printed x (List.mem_append_right _ mem),
    fun mem => h.kept (List.mem_append_right _ mem)⟩

theorem tail (h : FitsSingle (x :: cs)) : FitsSingle cs := append (w := [x]) h

theorem ne_of_isSpecial (h : FitsSingle cs) (mem : x ∈ cs) (special : isSpecial y = true) :
    x ≠ y := by
  rintro rfl
  rw [h.printed x mem] at special
  cases special

end FitsSingle

theorem writeSingle_plain (solid : isBreak x = false) (blank : x ≠ ' ') (quote : x ≠ '\'') :
    writeSingle s column previous (x :: cs) = x :: writeSingle s (column + 1) (some x) cs := by
  simp [writeSingle, solid, blank, quote]

theorem writeSingle_quote : writeSingle s column previous ('\'' :: cs) =
    '\'' :: '\'' :: writeSingle s (column + 2) (some '\'') cs := by
  simp [writeSingle, isBreak]

/-- Text that starts with no blank and no break is also written so. -/
theorem goesOn_writeSingle (goesOn : GoesOn cs) : GoesOn (writeSingle s column previous cs) := by
  cases cs with
  | nil => exact goesOn
  | cons x cs =>
    obtain ⟨inset, solid⟩ := goesOn x rfl
    have blank : x ≠ ' ' := by
      rintro rfl
      cases inset
    by_cases quote : x = '\''
    · rw [quote, writeSingle_quote]
      rintro y ⟨⟩
      decide
    · rw [writeSingle_plain solid blank quote]
      exact goesOn

/-- Behind a blank no blank is broken, and no line ends behind the blanks. -/
theorem keepsBlanks_writeSingle (fits : FitsSingle (' ' :: cs)) :
    ReadsQuoted.KeepsBlanks (writeSingle s column (some ' ') cs) := by
  induction cs generalizing column with
  | nil => rintro x ⟨⟩
  | cons x cs ih =>
    have solid : isBreak x = false := hasPair_head fits.beforeBreak (by decide) x rfl
    by_cases blank : x = ' '
    · subst blank
      have text : writeSingle s column (some ' ') (' ' :: cs) =
          ' ' :: writeSingle s (column + 1) (some ' ') cs := by
        simp [writeSingle, breaksHere, isBreak]
      rw [text, ReadsQuoted.KeepsBlanks, List.dropWhile_cons_of_pos (by decide)]
      exact ih fits.tail
    · have goesOn : GoesOn (x :: cs) := by
        have tab : x ≠ '\t' := fits.ne_of_isSpecial (List.mem_cons_of_mem _ List.mem_cons_self)
          (by decide)
        rintro y ⟨⟩
        simp [isInset, blank, tab, solid]
      exact keepsBlanks_of_goesOn (goesOn_writeSingle goesOn)

/-- One break: whether a line feed is doubled depends on what stands before it, and whether the
next line is indented on what stands behind it. -/
theorem writeSingle_break {b : Char} (ends : isBreak b = true) :
    writeSingle s column previous (b :: cs) =
      (if (previous.map isBreak).getD false = false ∧ b = '\n' then ['\n'] else []) ++
        b :: (if (cs.head?.map isBreak).getD false = true then writeSingle s 0 (some b) cs
          else List.replicate s.indent ' ' ++ writeSingle s s.indent (some b) cs) := by
  rw [writeSingle, if_pos ends]
  cases (previous.map isBreak).getD false <;> cases (cs.head?.map isBreak).getD false <;> simp

theorem head_flat (goesOn : ∀ x ∈ rest.head?, isBreak x = false) :
    ¬ (rest.head?.map isBreak).getD false = true := by
  cases rest with
  | nil => decide
  | cons x rest => simp [goesOn x rfl]

/-- Breaks behind a break are written as they are; the next line is indented. -/
theorem writeSingle_breaks {b p : Char} {bs : List Char} (s : Setting) (column : Nat)
    (first : isBreak p = true) (ends : ∀ x ∈ b :: bs, isBreak x = true)
    (goesOn : ∀ x ∈ rest.head?, isBreak x = false) :
    ∃ q, isBreak q = true ∧ writeSingle s column (some p) (b :: bs ++ rest) =
      b :: bs ++ (List.replicate s.indent ' ' ++ writeSingle s s.indent (some q) rest) := by
  have here := ends b List.mem_cons_self
  induction bs generalizing b p column with
  | nil =>
    refine ⟨b, here, ?_⟩
    rw [List.cons_append, writeSingle_break here, List.nil_append, if_neg (head_flat goesOn)]
    simp [first]
  | cons c bs ih =>
    have next := ends c (List.mem_cons_of_mem _ List.mem_cons_self)
    obtain ⟨q, isBreak_q, text⟩ := ih 0 here
      (fun x mem => ends x (List.mem_cons_of_mem _ mem)) next
    refine ⟨q, isBreak_q, ?_⟩
    have goes : ((c :: bs ++ rest).head?.map isBreak).getD false = true := by simp [next]
    rw [List.cons_append, writeSingle_break here, if_pos goes, text]
    simp [first]

/-- Breaks behind a character that is none: a line feed before them is doubled. -/
theorem writeSingle_run {b : Char} {bs : List Char} (s : Setting) (column : Nat)
    (first : ∀ p ∈ previous, isBreak p = false) (ends : ∀ x ∈ b :: bs, isBreak x = true)
    (goesOn : ∀ x ∈ rest.head?, isBreak x = false) :
    ∃ q, isBreak q = true ∧ writeSingle s column previous (b :: bs ++ rest) =
      (if b = '\n' then ['\n'] else []) ++
        (b :: bs ++ (List.replicate s.indent ' ' ++ writeSingle s s.indent (some q) rest)) := by
  have here := ends b List.mem_cons_self
  have starts : (previous.map isBreak).getD false = false := by
    cases previous with
    | none => rfl
    | some p => exact first p rfl
  rw [List.cons_append, writeSingle_break here]
  simp only [starts, true_and]
  cases bs with
  | nil =>
    refine ⟨b, here, ?_⟩
    rw [List.nil_append, if_neg (head_flat goesOn)]
    rfl
  | cons c bs =>
    have next := ends c (List.mem_cons_of_mem _ List.mem_cons_self)
    obtain ⟨q, isBreak_q, text⟩ := writeSingle_breaks s 0 here
      (fun x mem => ends x (List.mem_cons_of_mem _ mem)) goesOn
    refine ⟨q, isBreak_q, ?_⟩
    have goes : ((c :: bs ++ rest).head?.map isBreak).getD false = true := by simp [next]
    rw [if_pos goes, text]
    rfl

/-- A text goes on behind characters of one kind if none of the other kind follows them. -/
theorem FitsSingle.goesOn (fits : FitsSingle cs) (solid : ∀ x ∈ cs.head?, x ≠ ' ')
    (flat : ∀ x ∈ cs.head?, isBreak x = false) : GoesOn cs := by
  intro x mem
  have tab : x ≠ '\t' := fits.ne_of_isSpecial (List.mem_of_head? mem) (by decide)
  simp [isInset, solid x mem, tab, flat x mem]

theorem readsQuoted_run {b : Char} {bs : List Char} (fits : FitsSingle (b :: bs ++ rest))
    (indented : 0 < s.indent) (first : ∀ p ∈ previous, isBreak p = false)
    (ends : ∀ x ∈ b :: bs, isBreak x = true) (flat : ∀ x ∈ rest.head?, isBreak x = false)
    (later : ∀ p, ReadsQuoted '\'' (writeSingle s s.indent (some p) rest) rest) :
    ReadsQuoted '\'' (writeSingle s column previous (b :: bs ++ rest)) (b :: bs ++ rest) := by
  have kept : KeptBreaks (b :: bs) := fun x mem =>
    ⟨ends x mem, fun same => fits.kept (same ▸ List.mem_append_left _ mem)⟩
  have solid := hasPair_run (w := b :: bs) (List.cons_ne_nil _ _) fits.behindBreak ends
  have goesOn : GoesOn rest := fits.append.goesOn
    (fun x mem => by simpa [isBlank] using solid x mem) flat
  obtain ⟨p, -, text⟩ := writeSingle_run s column first ends flat
  rw [text]
  by_cases feed : b = '\n'
  · have kept' : KeptBreaks ('\n' :: b :: bs) := List.forall_mem_cons.2 ⟨by decide, kept⟩
    have lines := ReadsQuoted.lines (Or.inl rfl) kept' indented (goesOn_writeSingle goesOn)
      (later p)
    simpa [feed, folded] using lines
  · have lines := ReadsQuoted.lines (Or.inl rfl) kept indented (goesOn_writeSingle goesOn) (later p)
    simpa [feed, folded] using lines

theorem readsQuoted_blank (fits : FitsSingle (' ' :: rest))
    (indented : s.mayBreak = true → 0 < s.indent)
    (later : ∀ column, ReadsQuoted '\'' (writeSingle s column (some ' ') rest) rest) :
    ReadsQuoted '\'' (writeSingle s column previous (' ' :: rest)) (' ' :: rest) := by
  by_cases fold : previous.isSome = true ∧ breaksHere s column (previous.getD ' ') rest = true
  · have text : writeSingle s column previous (' ' :: rest) =
        '\n' :: [] ++ (List.replicate s.indent ' ' ++ writeSingle s s.indent (some ' ') rest) := by
      rw [writeSingle]
      simp [fold, newLine, isBreak]
    obtain ⟨-, breaks⟩ := fold
    simp only [breaksHere, Bool.and_eq_true, decide_eq_true_eq] at breaks
    have goesOn : GoesOn rest := fits.tail.goesOn (fun x mem => by
      cases rest with
      | nil => cases mem
      | cons y rest => simpa [Option.some.inj mem] using breaks.2)
      (hasPair_head fits.beforeBreak (by decide))
    have kept : KeptBreaks ['\n'] := List.forall_mem_singleton.2 ⟨by decide, by decide⟩
    have lines := ReadsQuoted.lines (Or.inl rfl) kept (indented breaks.1.1.1)
      (goesOn_writeSingle goesOn) (later s.indent)
    rw [text, ← List.append_assoc]
    exact lines
  · have text : writeSingle s column previous (' ' :: rest) =
        ' ' :: writeSingle s (column + 1) (some ' ') rest := by
      rw [writeSingle]
      simp only [Bool.and_eq_true, beq_self_eq_true, true_and, fold]
      simp [isBreak]
    rw [text]
    exact .blank (Or.inl rfl) (keepsBlanks_writeSingle fits) (later _)

/-- **A text between single quotes is read back as itself**, if a line that it goes on in is
indented. -/
theorem readsQuoted_writeSingle (s : Setting) (column : Nat) (previous : Option Char)
    (cs : List Char) (fits : FitsSingle cs)
    (indented : 0 < s.indent ∨ s.mayBreak = false ∧ ∀ x ∈ cs, isBreak x = false)
    (first : ∀ p ∈ previous, isBreak p = true → ∀ x ∈ cs.head?, isBreak x = false) :
    ReadsQuoted '\'' (writeSingle s column previous cs) cs := by
  match cs with
  | [] => exact .nil (Or.inl rfl)
  | x :: rest =>
    have later (column : Nat) {p : Char} (flat : isBreak p = false) :
        ReadsQuoted '\'' (writeSingle s column (some p) rest) rest :=
      readsQuoted_writeSingle s column (some p) rest fits.tail
        (indented.imp id fun h => ⟨h.1, fun x mem => h.2 x (List.mem_cons_of_mem _ mem)⟩)
        (by rintro _ ⟨⟩ ends; rw [flat] at ends; cases ends)
    by_cases ends : isBreak x = true
    · -- the text goes on behind the whole run of breaks
      have indent : 0 < s.indent := indented.resolve_right fun h => by
        rw [h.2 x List.mem_cons_self] at ends
        cases ends
      obtain ⟨bs, tail, rfl, run, flat⟩ := exists_run isBreak rest
      refine readsQuoted_run fits indent (fun p mem => ?_) (List.forall_mem_cons.2 ⟨ends, run⟩) flat
        fun p => readsQuoted_writeSingle s s.indent (some p) tail
          (FitsSingle.append (w := x :: bs) fits) (Or.inl indent) fun _ _ _ => flat
      refine Bool.eq_false_iff.2 fun ends' => ?_
      rw [first p mem ends' x rfl] at ends
      cases ends
    rw [Bool.not_eq_true] at ends
    by_cases blank : x = ' '
    · subst blank
      refine readsQuoted_blank fits (fun may => indented.resolve_right fun h => ?_)
        fun column => later column (by decide)
      rw [h.1] at may
      cases may
    · by_cases quote : x = '\''
      · rw [quote, writeSingle_quote]
        exact .twice (later _ (by decide))
      · rw [writeSingle_plain ends blank quote]
        refine .raw quote (Or.inr (by decide)) ?_ (later _ ends)
        have special : ∀ y, isSpecial y = true → x ≠ y :=
          fun y => fits.ne_of_isSpecial List.mem_cons_self
        simp [isSeparator, ends, blank, special '\x00' (by decide), special '\t' (by decide),
          special '\r' (by decide)]
termination_by cs.length
decreasing_by
  all_goals
    subst_vars
    simp only [List.length_cons, List.length_append]
    omega

/-! ## Double quotes -/

theorem isRaw_solid (raw : isRaw x = true) :
    isBreak x = false ∧ x ≠ '"' ∧ x ≠ '\\' ∧ ∀ y, isRaw y = false → x ≠ y := by
  have other : ∀ y, isRaw y = false → x ≠ y := by
    rintro y none rfl
    rw [raw] at none
    cases none
  refine ⟨?_, other _ (by decide), other _ (by decide), other⟩
  simp only [isRaw, Bool.and_eq_true, Bool.not_eq_true', Bool.or_eq_false_iff] at raw
  exact raw.1.1.2

/-- How one character is written between double quotes. -/
theorem writeDouble_cases (s : Setting) (column : Nat) (isFirst afterEscape : Bool) (x : Char)
    (cs : List Char) :
    (isRaw x = true ∧ ∃ column', writeDouble s column isFirst afterEscape (x :: cs) =
      x :: writeDouble s column' false false cs) ∨
    (isRaw x = true ∧ s.mayBreak = true ∧ cs ≠ [] ∧ lineWidth < column ∧
      ∃ column', writeDouble s column isFirst afterEscape (x :: cs) =
        brokenLine s (some x) ++ x :: writeDouble s column' false false cs) ∨
    (isRaw x = false ∧ ∃ column', writeDouble s column isFirst afterEscape (x :: cs) =
      escape x ++ writeDouble s column' false true cs) ∨
    (isRaw x = false ∧ s.mayBreak = true ∧ isFirst = false ∧
      writeDouble s column isFirst afterEscape (x :: cs) = escape x ++
        (brokenLine s cs.head? ++ writeDouble s (brokenColumn s cs.head?) false true cs)) := by
  rw [writeDouble]
  dsimp only
  split_ifs with raw breaks breaks
  · simp only [Bool.and_eq_true, decide_eq_true_eq, Bool.not_eq_true', List.isEmpty_eq_false_iff]
      at breaks
    exact Or.inr (Or.inl ⟨raw, breaks.1.1.1.1, breaks.1.1.2, breaks.2, _, rfl⟩)
  · exact Or.inl ⟨raw, _, rfl⟩
  · simp only [Bool.and_eq_true, decide_eq_true_eq, Bool.not_eq_true'] at breaks
    exact Or.inr (Or.inr (Or.inr ⟨Bool.eq_false_iff.2 raw, breaks.1.1.1, breaks.1.1.2,
      by rw [List.append_assoc]⟩))
  · exact Or.inr (Or.inr (Or.inl ⟨Bool.eq_false_iff.2 raw, _, rfl⟩))

theorem head_brokenLine (s : Setting) (next : Option Char) (text : List Char) :
    (brokenLine s next ++ text).head? = some '\\' := rfl

theorem head_escape (x : Char) (text : List Char) : (escape x ++ text).head? = some '\\' := by
  obtain ⟨letter, more, escaped⟩ := escape_head x
  rw [escaped]
  rfl

/-- Text between double quotes starts with a backslash or as the text itself. -/
theorem head_writeDouble (s : Setting) (column : Nat) (isFirst afterEscape : Bool) (x : Char)
    (cs : List Char) :
    (writeDouble s column isFirst afterEscape (x :: cs)).head? = some '\\' ∨
      isRaw x = true ∧ ∃ column', writeDouble s column isFirst afterEscape (x :: cs) =
        x :: writeDouble s column' false false cs := by
  rcases writeDouble_cases s column isFirst afterEscape x cs with
    ⟨raw, column', text⟩ | ⟨-, -, -, -, column', text⟩ | ⟨-, column', text⟩ | ⟨-, -, -, text⟩
  · exact Or.inr ⟨raw, column', text⟩
  · exact Or.inl (text ▸ head_brokenLine s _ _)
  · exact Or.inl (text ▸ head_escape x _)
  · exact Or.inl (text ▸ head_escape x _)

theorem goesOn_of_backslash {text : List Char} (h : text.head? = some '\\') : GoesOn text := by
  rw [GoesOn, h]
  rintro y ⟨⟩
  decide

theorem goesOn_writeDouble {isFirst afterEscape : Bool} (solid : cs.head? ≠ some ' ') :
    GoesOn (writeDouble s column isFirst afterEscape cs) := by
  cases cs with
  | nil => rintro y ⟨⟩
  | cons x cs =>
    rcases head_writeDouble s column isFirst afterEscape x cs with backslash | ⟨raw, column', text⟩
    · exact goesOn_of_backslash backslash
    · obtain ⟨flat, -, -, other⟩ := isRaw_solid raw
      have blank : x ≠ ' ' := fun same => solid (congrArg some same)
      rw [text]
      rintro y ⟨⟩
      simp [isInset, blank, other '\t' (by decide), flat]

theorem keepsBlanks_writeDouble {isFirst afterEscape : Bool} :
    ReadsQuoted.KeepsBlanks (writeDouble s column isFirst afterEscape cs) := by
  induction cs generalizing column isFirst afterEscape with
  | nil => rintro y ⟨⟩
  | cons x cs ih =>
    by_cases blank : x = ' '
    · rcases head_writeDouble s column isFirst afterEscape x cs with backslash | ⟨-, column', text⟩
      · exact keepsBlanks_of_goesOn (goesOn_of_backslash backslash)
      · rw [text, blank, ReadsQuoted.KeepsBlanks, List.dropWhile_cons_of_pos (by decide)]
        exact ih
    · exact keepsBlanks_of_goesOn (goesOn_writeDouble (by simpa using blank))

/-- What double quotes ask of a text to give it back: inside the text a blank behind an escaped
character must not come to stand past the width of a line. -/
def FitsDouble (s : Setting) (isFirst : Bool) (cs : List Char) : Prop :=
  s.mayBreak = false ∨ s.indent < lineWidth ∨
    hasPair (!isRaw ·) isBlank (if isFirst then cs.tail else cs).dropLast = false

theorem FitsDouble.behind {isFirst : Bool} (h : FitsDouble s isFirst (x :: cs)) :
    FitsDouble s false cs := by
  refine h.imp id (Or.imp id fun apart => ?_)
  cases isFirst with
  | true => exact apart
  | false =>
    cases cs with
    | nil => rfl
    | cons y cs => exact hasPair_cons (x := x) apart

theorem readsQuoted_raw {t : List Char} (raw : isRaw x = true) (keeps : ReadsQuoted.KeepsBlanks t)
    (later : ReadsQuoted '"' t cs) : ReadsQuoted '"' (x :: t) (x :: cs) := by
  by_cases blank : x = ' '
  · subst blank
    exact .blank (Or.inr rfl) keeps later
  · obtain ⟨flat, quote, backslash, other⟩ := isRaw_solid raw
    refine .raw quote (Or.inl backslash) ?_ later
    simp [isSeparator, flat, blank, other '\x00' (by decide), other '\t' (by decide),
      other '\r' (by decide)]

/-- A line that is broken before a character, with the backslash that keeps a blank. -/
theorem readsQuoted_brokenLine {t : List Char} (indented : 0 < s.indent) (raw : isRaw x = true)
    (later : ReadsQuoted '"' t cs) (keeps : ReadsQuoted.KeepsBlanks t) :
    ReadsQuoted '"' (brokenLine s (some x) ++ x :: t) (x :: cs) := by
  by_cases blank : x = ' '
  · subst blank
    have text : brokenLine s (some ' ') ++ ' ' :: t =
        '\\' :: newLine s.indent ++ '\\' :: ' ' :: t := by
      simp [brokenLine]
    rw [text]
    exact .brokenLine indented (goesOn_of_backslash rfl) later.escapedBlank
  · have text : brokenLine s (some x) ++ x :: t = '\\' :: newLine s.indent ++ x :: t := by
      simp [brokenLine, blank]
    obtain ⟨flat, -, -, other⟩ := isRaw_solid raw
    rw [text]
    refine .brokenLine indented ?_ (readsQuoted_raw raw keeps later)
    rintro y ⟨⟩
    simp [isInset, blank, other '\t' (by decide), flat]

/-- **A text between double quotes is read back as itself.** -/
theorem readsQuoted_writeDouble (s : Setting) (column : Nat) (isFirst afterEscape : Bool)
    (cs : List Char) (indented : s.mayBreak = true → 0 < s.indent)
    (fits : FitsDouble s isFirst cs) :
    ReadsQuoted '"' (writeDouble s column isFirst afterEscape cs) cs := by
  match cs with
  | [] => exact .nil (Or.inr rfl)
  | x :: rest =>
    have later (column : Nat) (afterEscape : Bool) :
        ReadsQuoted '"' (writeDouble s column false afterEscape rest) rest :=
      readsQuoted_writeDouble s column false afterEscape rest indented fits.behind
    rcases writeDouble_cases s column isFirst afterEscape x rest with
      ⟨raw, column', text⟩ | ⟨raw, may, -, -, column', text⟩ | ⟨raw, column', text⟩ |
      ⟨raw, may, inside, text⟩
    · rw [text]
      exact readsQuoted_raw raw keepsBlanks_writeDouble (later _ _)
    · rw [text]
      exact readsQuoted_brokenLine (indented may) raw (later _ _) keepsBlanks_writeDouble
    · rw [text]
      exact .escape x (later _ _)
    · -- the line is broken behind an escaped character
      rw [text]
      refine .escape x ?_
      by_cases blank : rest.head? = some ' '
      · obtain ⟨tail, rfl⟩ : ∃ tail, rest = ' ' :: tail := by
          cases rest with
          | nil => cases blank
          | cons y tail => exact ⟨tail, by rw [Option.some.inj blank]⟩
        obtain ⟨-, column', kept⟩ | ⟨-, -, more, wide, -⟩ | ⟨raw', -⟩ | ⟨raw', -⟩ :=
          writeDouble_cases s (brokenColumn s (some ' ')) false true ' ' tail
        · rw [List.head?_cons, kept]
          exact readsQuoted_brokenLine (indented may) (by decide)
            (readsQuoted_writeDouble s column' false false tail indented fits.behind.behind)
            keepsBlanks_writeDouble
        · -- a second line would be broken before the blank
          rcases fits with no | narrow | apart
          · rw [may] at no
            cases no
          · simp only [brokenColumn, if_true] at wide
            omega
          · obtain ⟨y, tail, rfl⟩ := List.exists_cons_of_ne_nil more
            simp [hasPair, raw, isBlank, inside] at apart
        · cases raw'
        · cases raw'
      · have text : brokenLine s rest.head? = '\\' :: newLine s.indent := by
          simp [brokenLine, blank]
        rw [text]
        exact .brokenLine (indented may) (goesOn_writeDouble blank) (later _ _)
termination_by cs.length

/-! ## Texts that are kept -/

/-- Whether a text is read back as itself from the scalar that it is written as. -/
def isKept (s : Setting) (isKey : Bool) (cs : List Char) : Bool :=
  match quoting isKey cs with
  | .plain => true
  | .single => !cs.contains '\u0085'
  | .double =>
    !s.mayBreak || s.indent < lineWidth || !hasPair (!isRaw ·) isBlank cs.tail.dropLast

/-- The inside of the quotes of a text is read back. -/
theorem readsQuoted_text {isKey : Bool} (column : Nat) (kept : isKept s isKey cs = true)
    (indented : 0 < s.indent ∨ s.mayBreak = false ∧ isKey = true)
    (quoted : quoting isKey cs ≠ .plain) :
    (quoting isKey cs = .single ∧ ReadsQuoted '\'' (writeSingle s (column + 1) none cs) cs) ∨
    (quoting isKey cs = .double ∧
      ReadsQuoted '"' (writeDouble s (column + 1) true true cs) cs) := by
  unfold isKept at kept
  cases how : quoting isKey cs with
  | plain => exact absurd how quoted
  | single =>
    rw [how] at kept
    obtain ⟨fits, flat⟩ := quoting_single how
    refine Or.inl ⟨rfl, readsQuoted_writeSingle s _ none cs
      (.of_fitsSingle fits (by simpa using kept))
      (indented.imp id fun whole => ⟨whole.1, fun x mem => ?_⟩) (by rintro p ⟨⟩)⟩
    simpa using List.any_eq_false.1 (flat whole.2) x mem
  | double =>
    rw [how] at kept
    refine Or.inr ⟨rfl, readsQuoted_writeDouble s _ true true cs (fun may => ?_) ?_⟩
    · refine indented.resolve_right fun whole => ?_
      rw [whole.1] at may
      cases may
    · simp only [Bool.or_eq_true, Bool.not_eq_true', decide_eq_true_eq, or_assoc] at kept
      exact kept

end ResourceApi.Yaml
