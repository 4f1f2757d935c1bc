import ResourceApi.Proofs.CommandLine.NormalizeRuns
import ResourceApi.Proofs.Compilation.Runs
import ResourceApi.Proofs.Resource.PlainFile

/-! # Checking and normalizing

The two ways to call the command that normalizes: with the option to check, it only tells
which files it would change. Checking writes nothing, ends well if normalizing the same
files would and would change none, and ends well after normalizing has. That normalizing
ends well if checking does takes files that hold plain texts (`run_check_agrees`). -/

namespace ResourceApi

open Results

/-! ## Lines without control sequences -/

namespace Text

theorem dropSequencesFrom_nothing {cs : List Char} (noEscape : '\x1b' ∉ cs) :
    dropSequencesFrom .nothing [] cs = cs := by
  induction cs with
  | nil => rfl
  | cons c rest ih =>
    rw [List.mem_cons, not_or] at noEscape
    have noStart : SequencePart.nothing.after c = none := if_neg (Ne.symm noEscape.1)
    rw [dropSequencesFrom, noStart]
    simp [SequencePart.endsWith, ih noEscape.2]

/-- Every control sequence starts with an escape character. -/
theorem plain_eq_self {s : String} (noEscape : '\x1b' ∉ s.toList) : plain s = s := by
  rw [plain, dropSequencesFrom_nothing noEscape, String.ofList_toList]

end Text

namespace CommandLine

open Compilation (orderDisk orderPath)

theorem noEscape_checked (count changed : Nat) :
    '\x1b' ∉ (s!"Checked {count} files, {changed} changed.").toList := by
  have noDigit (n : Nat) : '\x1b' ∉ Nat.toDigits 10 n := fun mem =>
    absurd (Nat.isDigit_of_mem_toDigits (by decide) (by decide) mem) (by decide)
  simp only [toString, String.toList_append, Nat.toList_repr, List.mem_append, not_or]
  exact ⟨⟨⟨⟨by decide, noDigit count⟩, by decide⟩, noDigit changed⟩, by decide⟩

/-- The line tells how many files were changed. -/
theorem checkedLine_inj {count changed changed' : Nat} :
    checkedLine count changed = checkedLine count changed' ↔ changed = changed' := by
  refine ⟨fun same => ?_, fun same => same ▸ rfl⟩
  simp only [checkedLine, Line.telling, Line.out.injEq] at same
  rw [Text.plain_eq_self (noEscape_checked count changed),
    Text.plain_eq_self (noEscape_checked count changed')] at same
  simp only [toString, String.append_left_inj, String.append_right_inj] at same
  have digits := congrArg (fun s => Nat.ofDigitChars 10 s.toList 0) same
  simpa only [Nat.toList_repr, Nat.ofDigitChars_ten_toDigits] using digits

/-- A run that writes ends well and tells that no file was changed exactly if all files held their
normal forms and none was spoilt. -/
theorem tells_normalizeFiles_iff {verbose : Bool} {d : Disk} {paths : List Path} :
    (normalizeFiles verbose false d 0 0 paths).Tells paths.length 0 ↔
      ∀ p ∈ paths, SchemaFile.HoldsNormal d p ∧ ¬ SchemaFile.Spoils true d p := by
  constructor
  · intro tells p mem
    have all := exitCode_normalizeFiles.1 tells.1
    obtain ⟨count, none, tells'⟩ := tells_normalizeFiles verbose all
    have noneChanged := checkedLine_inj.1 (Option.some.inj (tells'.2.symm.trans tells.2))
    obtain ⟨normal, reached⟩ := all p mem
    exact ⟨none.1 noneChanged p mem, (SchemaFile.normalizedFor_eq_ok.1 reached).2⟩
  · intro hold
    have all : AllNormalized false d paths := fun p mem =>
      (hold p mem).1.normalized.imp fun _ reached =>
        SchemaFile.normalizedFor_eq_ok.2 ⟨reached, (hold p mem).2⟩
    obtain ⟨count, none, tells⟩ := tells_normalizeFiles verbose all
    rwa [none.2 fun p mem => (hold p mem).1] at tells

/-! ## Words -/

/-- Options that are read with no words behind them are read in front of other words too, if the
first of these is none and options may not follow it. -/
theorem Grammar.read_append {g : Grammar} {front : List String} {given : List Given}
    (first : g.mixed = false) (options : g.read front = .ok (given, [])) {word : String}
    (plain : isOption word.toList = false) (rest : List String) :
    g.read (front ++ word :: rest) = .ok (given, word :: rest) := by
  induction front using Grammar.read.induct g generalizing given with
  | case1 =>
    cases options
    have noDashes : (word == "--") = false := by
      rw [beq_eq_false_iff_ne]
      rintro rfl
      exact absurd plain (by decide)
    rw [List.nil_append, Grammar.read, noDashes, plain, first]
    rfl
  | case2 opened later dashes =>
    rw [Grammar.read, if_pos dashes] at options
    cases options
    rw [List.cons_append, Grammar.read, if_pos dashes]
    rfl
  | case3 opened later noDashes isOption p failed =>
    rw [Grammar.read, if_neg noDashes, if_pos isOption, failed] at options
    cases options
  | case4 opened noDashes isOption r reads later none ih =>
    rw [Grammar.read, if_neg noDashes, if_pos isOption, reads] at options
    simp only [none] at options
    obtain ⟨⟨given', words⟩, readLater, same⟩ := map_eq_ok.1 options
    cases same
    rw [List.cons_append, Grammar.read, if_neg noDashes, if_pos isOption, reads]
    simp only [none, ih readLater]
    rfl
  | case5 opened noDashes isOption r reads o value later waits ih =>
    rw [Grammar.read, if_neg noDashes, if_pos isOption, reads] at options
    simp only [waits] at options
    obtain ⟨⟨given', words⟩, readLater, same⟩ := map_eq_ok.1 options
    cases same
    rw [List.cons_append, Grammar.read, if_neg noDashes, if_pos isOption, reads]
    simp only [waits, List.cons_append, ih readLater]
    rfl
  | case6 opened noDashes isOption r reads o waits =>
    rw [Grammar.read, if_neg noDashes, if_pos isOption, reads] at options
    simp only [waits] at options
    cases options
  | case7 opened later noDashes isWord mixed =>
    rw [first] at mixed
    cases mixed
  | case8 opened later noDashes isWord =>
    rw [Grammar.read, if_neg noDashes, if_neg isWord, first] at options
    cases options

/-- The options of a call that checks, or of one that normalizes. -/
def givenFor (check : Bool) : List Given := if check then [.flag .check true] else []

/-- The option to check, in front of words that hold no options. -/
theorem read_check {words texts : List String}
    (files : Command.normalize.grammar.read words = .ok (givenFor false, texts)) :
    Command.normalize.grammar.read ("--check" :: words) = .ok (givenFor true, texts) := by
  have reads : Command.normalize.grammar.readWord "--check".toList =
      .ok ⟨[.flag .check true], none⟩ := rfl
  rw [Grammar.read, if_neg (by decide), if_pos (by decide), reads]
  simp only [files]
  rfl

/-! ## Files -/

section Files

variable {d d' : Disk} {output : Location} {text label : String} {e : Entry} {p : Path}
  {texts : List String} {paths : List Path}

theorem lookupText_of_grown (grown : Disk.Grown output d d') (held : d.lookupText text = .ok e) :
    ∃ e', d'.lookupText text = .ok e' ∧ e'.isFile = e.isFile := by
  rw [Disk.lookupText] at held ⊢
  obtain ⟨⟨⟩, taken, held⟩ := bind_eq_ok.1 held
  rw [taken, ok_bind]
  split at held
  · cases held
  · next some =>
    rw [if_neg some]
    obtain ⟨x, looked, held⟩ := bind_eq_ok.1 held
    obtain ⟨x', looked', kind⟩ := grown.lookup looked
    simp only [looked', ok_bind]
    cases x with
    | directory =>
      cases x' with
      | file bytes => cases kind
      | directory =>
        cases held
        exact ⟨_, rfl, rfl⟩
    | file bytes =>
      cases x' with
      | directory => cases kind
      | file bytes' =>
        dsimp only at held ⊢
        split at held
        · cases held
        · next ends =>
          cases held
          rw [if_neg ends]
          exact ⟨_, rfl, rfl⟩

theorem checkPath_eq_ok : checkPath d .file true label text = .ok p ↔
    ∃ bytes, d.lookupText text = .ok (.file bytes) ∧ p = .ofString text := by
  unfold checkPath
  cases d.lookupText text with
  | error reason => cases reason <;> simp
  | ok e => cases e <;> simp [kindOf, eq_comm]

theorem checkFiles_eq_ok : checkFiles d texts = .ok paths ↔
    (∀ text ∈ texts, ∃ bytes, d.lookupText text = .ok (.file bytes)) ∧
      paths = texts.map .ofString := by
  induction texts generalizing paths with
  | nil => simp [checkFiles, eq_comm]
  | cons text rest ih =>
    rw [checkFiles]
    simp only [bind_eq_ok, checkPath_eq_ok, ih, List.forall_mem_cons, List.map_cons]
    constructor
    · rintro ⟨_, ⟨bytes, held, rfl⟩, _, ⟨later, rfl⟩, same⟩
      exact ⟨⟨⟨bytes, held⟩, later⟩, (Except.ok.inj same).symm⟩
    · rintro ⟨⟨⟨bytes, held⟩, later⟩, rfl⟩
      exact ⟨_, ⟨bytes, held, rfl⟩, _, ⟨later, rfl⟩, rfl⟩

/-- Texts that name files still do after the files were rewritten. -/
theorem checkFiles_of_grown (grown : Disk.Grown output d d')
    (checked : checkFiles d texts = .ok paths) : checkFiles d' texts = .ok paths := by
  obtain ⟨files, rfl⟩ := checkFiles_eq_ok.1 checked
  refine checkFiles_eq_ok.2 ⟨fun text mem => ?_, rfl⟩
  obtain ⟨bytes, held⟩ := files text mem
  obtain ⟨e, held', isFile⟩ := lookupText_of_grown grown held
  cases e with
  | directory => cases isFile
  | file bytes => exact ⟨bytes, held'⟩

end Files

/-! ## Calls -/

section Calls

variable {verbose check : Bool} {d : Disk} {front words texts : List String} {given : List Given}

/-- The words of a call that normalizes, with the options of the program in front. -/
def normalizeCall (front words : List String) : List String :=
  front ++ Command.normalize.name :: words

/-- The words of the call that checks the same files. -/
def checkCall (front words : List String) : List String :=
  front ++ Command.normalize.name :: "--check" :: words

theorem read_normalize (read : Command.normalize.grammar.read words = .ok (givenFor check, texts))
    (d : Disk) :
    Command.normalize.read d words =
      if texts.isEmpty then .error (.usage (.argumentMissing filesLabel))
      else (checkFiles d texts).map fun files => .normalize files check := by
  have settled : settle (givenFor check) = givenFor check := by cases check <;> rfl
  have noHelp : flag? (givenFor check) .help = none := by cases check <;> rfl
  have noPaths : checkOptions d (givenFor check) = .ok () := by cases check <;> rfl
  have asked : (flag? (givenFor check) .check).getD false = check := by cases check <;> rfl
  rw [Command.read, read, mapError_ok, ok_bind]
  simp only [settled, noHelp, noPaths, ok_bind, Command.request, asked]
  cases texts with
  | nil => rfl
  | cons text rest => cases checkFiles d (text :: rest) <;> rfl

/-- What is done with the texts that name files. -/
def normalizeTexts (verbose check : Bool) (d : Disk) (texts : List String) : Report :=
  if texts.isEmpty then .usageFailure d (some .normalize) (.argumentMissing filesLabel)
  else match checkFiles d texts with
    | .ok files => normalizeFiles verbose check d 0 0 files
    | .error refusal => .ofRefusal d .normalize refusal

theorem runCommand_normalize
    (read : Command.normalize.grammar.read words = .ok (givenFor check, texts)) (verbose : Bool)
    (d : Disk) :
    runCommand verbose d (Command.normalize.name :: words) =
      normalizeTexts verbose check d texts := by
  have named : Command.ofName? Command.normalize.name = some .normalize := by decide
  rw [runCommand, named]
  simp only [read_normalize read, normalizeTexts]
  cases texts with
  | nil => rfl
  | cons text rest => cases checkFiles d (text :: rest) <;> rfl

/-- Texts of which some name no files are refused, and so are none; then nothing is done. -/
theorem normalizeTexts_of_refused (refused : texts = [] ∨ ∀ paths, checkFiles d texts ≠ .ok paths) :
    (normalizeTexts verbose check d texts).disk = d ∧
      (normalizeTexts verbose check d texts).exitCode ≠ 0 := by
  unfold normalizeTexts
  split
  · exact ⟨rfl, nofun⟩
  · next some =>
    split
    · next files checked =>
      rcases refused with rfl | refused
      · exact absurd rfl some
      · exact absurd checked (refused files)
    · next refusal _ => cases refusal <;> exact ⟨rfl, nofun⟩

theorem normalizeTexts_of_files {paths : List Path} (some : texts ≠ [])
    (checked : checkFiles d texts = .ok paths) :
    normalizeTexts verbose check d texts = normalizeFiles verbose check d 0 0 paths := by
  rw [normalizeTexts, if_neg (by simpa using some), checked]

/-- The options of the program say only whether details are told. -/
theorem run_normalize (options : outerGrammar.read front = .ok (given, []))
    (noHelp : flag? given .help = none) (d : Disk) (words : List String) :
    run d (front ++ Command.normalize.name :: words) =
      runCommand (flag? given .verbose).isSome d (Command.normalize.name :: words) := by
  have some : (front ++ Command.normalize.name :: words).isEmpty = false := by
    cases front <;> rfl
  rw [run, some, Grammar.read_append rfl options (by decide)]
  simp [noHelp]

theorem run_normalizeCall (options : outerGrammar.read front = .ok (given, []))
    (noHelp : flag? given .help = none)
    (files : Command.normalize.grammar.read words = .ok ([], texts)) (d : Disk) :
    run d (normalizeCall front words) =
      normalizeTexts (flag? given .verbose).isSome false d texts := by
  have noOptions : Command.normalize.grammar.read words = .ok (givenFor false, texts) := files
  rw [normalizeCall, run_normalize options noHelp, runCommand_normalize noOptions]

theorem run_checkCall (options : outerGrammar.read front = .ok (given, []))
    (noHelp : flag? given .help = none)
    (files : Command.normalize.grammar.read words = .ok ([], texts)) (d : Disk) :
    run d (checkCall front words) = normalizeTexts (flag? given .verbose).isSome true d texts := by
  rw [checkCall, run_normalize options noHelp, runCommand_normalize (read_check files)]

/-- **Checking agrees with normalizing.** Checking changes no file. It ends well if normalizing the
same files from the same disk would end well and tell that it changed none, and if the files hold
plain texts, only then. After a call that normalizes and ends well, checking ends well and tells
that it changed none. -/
theorem run_check_agrees (options : outerGrammar.read front = .ok (given, []))
    (noHelp : flag? given .help = none)
    (files : Command.normalize.grammar.read words = .ok ([], texts)) (d : Disk) :
    (run d (checkCall front words)).disk = d ∧
      ((run d (normalizeCall front words)).Tells texts.length 0 →
        (run d (checkCall front words)).exitCode = 0) ∧
      ((∀ text ∈ texts, SchemaFile.HoldsPlain d (.ofString text)) →
        (run d (checkCall front words)).exitCode = 0 →
        (run d (normalizeCall front words)).Tells texts.length 0) ∧
      ((run d (normalizeCall front words)).exitCode = 0 →
        (run (run d (normalizeCall front words)).disk (checkCall front words)).Tells
          texts.length 0) := by
  simp only [run_checkCall options noHelp files, run_normalizeCall options noHelp files]
  by_cases refused : texts = [] ∨ ∀ paths, checkFiles d texts ≠ .ok paths
  · obtain ⟨still, fails⟩ := normalizeTexts_of_refused refused
    obtain ⟨-, fails'⟩ := normalizeTexts_of_refused refused
    exact ⟨still, fun tells => absurd tells.1 fails', fun _ well => absurd well fails,
      fun well => absurd well fails'⟩
  · simp only [not_or, not_forall, not_not] at refused
    obtain ⟨some, paths, checked⟩ := refused
    have named := (checkFiles_eq_ok.1 checked).2
    have length : texts.length = paths.length := by rw [named, List.length_map]
    rw [normalizeTexts_of_files some checked, normalizeTexts_of_files some checked, length]
    refine ⟨disk_normalizeFiles_check .., fun tells => ?_, fun plain well => ?_, fun well => ?_⟩
    · exact exitCode_normalizeFiles_check.2 fun p mem => (tells_normalizeFiles_iff.1 tells p mem).1
    · have hold := exitCode_normalizeFiles_check.1 well
      refine tells_normalizeFiles_iff.2 fun p mem => ⟨hold p mem, ?_⟩
      obtain ⟨text, mem', rfl⟩ := List.mem_map.1 (named ▸ mem)
      exact (plain text mem').not_spoils true
    · have grown := grown_normalizeFiles [] (flag? given .verbose).isSome false d 0 0 paths
      rw [normalizeTexts_of_files some (checkFiles_of_grown grown checked)]
      exact tells_normalizeFiles_check (holdNormal_normalizeFiles (exitCode_normalizeFiles.1 well))

end Calls

/-! ## A file given twice, before and after it is normalized -/

def orderWords : List String := ["--", "order.json", "./order.json"]

/-- The disk with the normal form of the schema. -/
def orderedDisk : Disk where
  entries := [(["order.json"], .file (SchemaFile.text orderNormal).toUTF8)]

theorem storable_orderNormal : (Json.obj orderNormal).Storable :=
  normalForm_storable normalForm_orderSchema rfl

theorem holdsPlain_orderedDisk : SchemaFile.HoldsPlain orderedDisk orderPath :=
  .of_text storable_orderNormal (by decide) rfl

theorem holdsNormal_orderedDisk : SchemaFile.HoldsNormal orderedDisk orderPath :=
  ⟨orderNormal, SchemaFile.load_text storable_orderNormal rfl,
    normalForm_of_normalForm (show (Json.obj orderSchema).Distinct from rfl)
      normalForm_orderSchema⟩

/-- Checking fails, normalizing goes well, and checking goes well after it. Where the file is
normalized, both go well. -/
theorem run_check_agrees_order :
    outerGrammar.read ["-v"] = .ok ([.flag .verbose true], []) ∧
      Command.normalize.grammar.read orderWords = .ok ([], ["order.json", "./order.json"]) ∧
      (run orderDisk (checkCall ["-v"] orderWords)).exitCode ≠ 0 ∧
      (run orderDisk (normalizeCall ["-v"] orderWords)).exitCode = 0 ∧
      (run (run orderDisk (normalizeCall ["-v"] orderWords)).disk
        (checkCall ["-v"] orderWords)).Tells 2 0 ∧
      (run orderedDisk (checkCall ["-v"] orderWords)).exitCode = 0 ∧
      (run orderedDisk (normalizeCall ["-v"] orderWords)).Tells 2 0 := by
  have options : outerGrammar.read ["-v"] = .ok ([.flag .verbose true], []) := rfl
  have files : Command.normalize.grammar.read orderWords =
      .ok ([], ["order.json", "./order.json"]) := rfl
  have held : orderDisk.readBytes orderPath = .ok (SchemaFile.text orderSchema).toUTF8 := rfl
  have storable : (Json.obj orderSchema).Storable := rfl
  have checked : checkFiles orderDisk ["order.json", "./order.json"] =
      .ok [orderPath, orderPath] := rfl
  have checked' : checkFiles orderedDisk ["order.json", "./order.json"] =
      .ok [orderPath, orderPath] := rfl
  have well : (run orderDisk (normalizeCall ["-v"] orderWords)).exitCode = 0 := by
    rw [run_normalizeCall options rfl files, normalizeTexts_of_files (List.cons_ne_nil _ _) checked,
      exitCode_normalizeFiles]
    have reached := SchemaFile.normalizedFor_of_text storable held normalForm_orderSchema true
    simpa [AllNormalized] using ⟨_, reached⟩
  have passes : (run orderedDisk (checkCall ["-v"] orderWords)).exitCode = 0 := by
    rw [run_checkCall options rfl files, normalizeTexts_of_files (List.cons_ne_nil _ _) checked',
      exitCode_normalizeFiles_check]
    simpa using holdsNormal_orderedDisk
  have plain : ∀ text ∈ ["order.json", "./order.json"],
      SchemaFile.HoldsPlain orderedDisk (.ofString text) := by
    simp only [List.forall_mem_cons]
    exact ⟨holdsPlain_orderedDisk, holdsPlain_orderedDisk, nofun⟩
  obtain ⟨-, -, -, follows⟩ := run_check_agrees options rfl files orderDisk
  obtain ⟨-, -, only, -⟩ := run_check_agrees options rfl files orderedDisk
  refine ⟨options, files, fun passes => ?_, well, follows well, passes, only plain passes⟩
  rw [run_checkCall options rfl files, normalizeTexts_of_files (List.cons_ne_nil _ _) checked,
    exitCode_normalizeFiles_check] at passes
  obtain ⟨schema, loaded, h⟩ := passes orderPath List.mem_cons_self
  cases (SchemaFile.load_text storable held).symm.trans loaded
  exact absurd (Except.ok.inj (h.symm.trans normalForm_orderSchema)) (by decide)

end CommandLine
end ResourceApi
