import ResourceApi.Proofs.Compilation.OneMore
import ResourceApi.Proofs.Compilation.OwnEntries
import ResourceApi.Proofs.Compilation.RewrittenFiles

/-! # One verdict for each file

A run gives every path one verdict: its file is compiled, or its problem is noted. The
verdict is that of the file on its own, as it was before the run, also where the run has
rewritten the file by then and however often it is listed. Only a run that is broken off
gives no verdicts; `Broken` says which paths do that, if all files hold plain texts. -/

namespace ResourceApi

namespace Disk

variable {d : Disk} {p : Path}

theorem follow_ne_nullInName (d : Disk) (l : Location) (names : List String) :
    d.follow l names ≠ .error .nullInName := by
  induction names generalizing l with
  | nil => exact nofun
  | cons name rest ih =>
    rw [follow_cons]
    split
    · exact nofun
    · exact nofun
    · split
      · exact ih _
      · split
        · exact nofun
        · exact ih _

/-- Reading stops at a null character exactly if the text of the path has one. -/
theorem readBytes_eq_nullInName :
    d.readBytes p = .error .nullInName ↔ '\x00' ∈ p.toString.toList := by
  unfold readBytes lookup locate checkText
  by_cases null : '\x00' ∈ p.toString.toList
  · simp [null]
  · have plain : p.toString.toList.contains '\x00' = false := by simpa using null
    refine iff_of_false ?_ null
    rw [plain]
    simp only [Bool.false_eq_true, if_false]
    split
    · exact nofun
    · rw [Results.ok_bind]
      cases followed : d.follow (if p.isAbsolute = true then [] else d.home) p.names with
      | error reason =>
        rintro ⟨⟩
        exact follow_ne_nullInName _ _ _ followed
      | ok l =>
        rw [Results.ok_bind]
        cases d.find? l with
        | none => exact nofun
        | some e => cases e <;> exact nofun

end Disk

namespace Compilation

open SchemaFile (HoldsPlain load fragment)

variable {options : Options} {start : Document} {d : Disk} {c : Compilation} {p : Path}
  {paths : List Path}

/-! ## Paths that break a run off -/

/-- A path breaks a run off: there is a null character in it, or an integer of more digits than are
read in the text of its file. -/
def Broken (d : Disk) (p : Path) : Prop :=
  '\x00' ∈ p.toString.toList ∨ ∃ bytes content, d.readBytes p = .ok bytes ∧
    textOfBytes bytes = .ok content ∧ ¬ ShortIntegers content

theorem load_of_long {bytes : ByteArray} {content : String} (held : d.readBytes p = .ok bytes)
    (decoded : textOfBytes bytes = .ok content) (long : ¬ ShortIntegers content) :
    ∃ digits, load d p = .error (.longInt digits) := by
  simp only [ShortIntegers, not_forall, not_not] at long
  obtain ⟨⟨fault, line, column⟩, read, digits, rfl⟩ := long
  refine ⟨digits, ?_⟩
  rw [load, held]
  dsimp only
  rw [decoded]
  dsimp only
  rw [SchemaFile.parse, read]

/-- Every path whose file holds a plain text has its turn, if it does not break the run off. -/
theorem taken_iff_not_broken (plain : HoldsPlain d p) : Taken options d p ↔ ¬ Broken d p := by
  rw [taken_iff_load (plain.not_spoils options.writeNormalized)]
  constructor
  · rintro problems (null | ⟨bytes, content, held, decoded, long⟩)
    · obtain ⟨e, isProblem⟩ := problems (.disk .nullInName) (by
        rw [load, Disk.readBytes_eq_nullInName.2 null])
      cases isProblem
    · obtain ⟨digits, stopped⟩ := load_of_long held decoded long
      obtain ⟨e, isProblem⟩ := problems _ stopped
      cases isProblem
  · intro whole h unloaded
    cases held : d.readBytes p with
    | ok bytes =>
      obtain ⟨content, decoded, -⟩ := plain bytes held
      refine load_of_content held decoded ?_ unloaded
      by_contra long
      exact whole (.inr ⟨bytes, content, held, decoded, long⟩)
    | error reason =>
      rw [load, held] at unloaded
      cases reason with
      | nullInName => exact absurd (.inl (Disk.readBytes_eq_nullInName.1 held)) whole
      | _ => exact ⟨_, (Except.error.inj unloaded).symm⟩

/-! ## Verdicts -/

theorem noted_iff :
    (∃ note, noted options d p = some note) ↔ ∃ e, fragment options d p = .error (.schema e) := by
  rw [noted]
  cases fragment options d p with
  | ok f => simp [note?]
  | error h => cases h <;> simp [note?]

/-- A path that has its turn compiles, or its problem is noted, and not both. -/
theorem not_compiles_iff (taken : Taken options d p) :
    ¬ Compiles options d p ↔ ∃ note, noted options d p = some note := by
  rw [compiles_iff_fragment]
  refine ⟨taken.resolve_left, fun isNoted => ?_⟩
  obtain ⟨e, stopped⟩ := noted_iff.1 isNoted
  rw [SchemaFile.at?_eq_none stopped]
  exact nofun

open Classical in
/-- What a run has found of every path: the paths that compile on their own are compiled, in the
order and as often as they are listed, and the other paths are noted, each once. -/
structure Verdicts (options : Options) (d : Disk) (paths : List Path) (c : Compilation) : Prop where
  compiled : c.compiled = paths.filter fun p => Compiles options d p
  failed : ∀ name, name ∈ c.failed.names ↔
    ∃ p ∈ paths, ¬ Compiles options d p ∧ p.toString = name
  once : c.failed.names.Nodup
  apart : ∀ p ∈ c.compiled, p.toString ∉ c.failed.names

theorem mem_noted (taken : ∀ p ∈ paths, Taken options d p) {name : String} :
    name ∈ (paths.filterMap (noted options d)).flatMap Fields.names ↔
      ∃ p ∈ paths, ¬ Compiles options d p ∧ p.toString = name := by
  simp only [List.mem_flatMap, List.mem_filterMap]
  constructor
  · rintro ⟨note, ⟨p, mem, isNoted⟩, named⟩
    rw [noted_eq_some isNoted, List.mem_singleton] at named
    exact ⟨p, mem, (not_compiles_iff (taken p mem)).2 ⟨note, isNoted⟩, named.symm⟩
  · rintro ⟨p, mem, fails, rfl⟩
    obtain ⟨note, isNoted⟩ := (not_compiles_iff (taken p mem)).1 fails
    exact ⟨note, ⟨p, mem, isNoted⟩, noted_eq_some isNoted ▸ List.mem_singleton_self _⟩

open Classical in
theorem verdicts_afterAll (proper : ∀ p ∈ paths, p.Proper)
    (taken : ∀ p ∈ paths, Taken options d p) :
    Verdicts options d paths (afterAll options d { document := start } paths) := by
  have names : (afterAll options d { document := start } paths).failed.names =
      ((paths.filterMap (noted options d)).flatMap Fields.names).eraseDups := by
    rw [afterAll, Fields.names_foldl_merge]
    simp [Fields.newNames]
  have failed (name : String) :
      name ∈ (afterAll options d { document := start } paths).failed.names ↔
        ∃ p ∈ paths, ¬ Compiles options d p ∧ p.toString = name := by
    rw [names, List.mem_eraseDups, mem_noted taken]
  have compiled : (afterAll options d { document := start } paths).compiled =
      paths.filter fun p => Compiles options d p := by
    rw [afterAll, List.nil_append]
    refine List.filter_congr fun p _ => ?_
    rw [Bool.eq_iff_iff, Option.isSome_iff_exists, decide_eq_true_eq, compiles_iff_fragment]
  refine ⟨compiled, failed, names ▸ Required.nodup_eraseDups _, ?_⟩
  intro p mem named
  rw [compiled, List.mem_filter, decide_eq_true_eq] at mem
  obtain ⟨q, mem', fails, same⟩ := (failed _).1 named
  obtain rfl := (proper q mem').eq_of_toString (proper p mem.1) same
  exact fails mem.2

/-- A run finds that no file was compiled exactly if there are some, none compiles on its own, and
none stops the run. -/
theorem allFailed_iff :
    (∃ count, (ofFiles options start d paths).result = .error (.allFailed count)) ↔
      paths ≠ [] ∧ (∀ p ∈ paths, ¬ Compiles options d p) ∧ ∀ p ∈ paths, Taken options d p := by
  constructor
  · rintro ⟨count, stopped⟩
    rw [ofFiles_result] at stopped
    cases turned : paths.foldlM (turn options d) { document := start } with
    | error h =>
      rw [turned] at stopped
      cases stopped
      exact absurd turned (turns_ne_allFailed count)
    | ok last =>
      obtain ⟨taken, rfl⟩ := turns_eq_ok.1 turned
      rw [turned, Results.ok_bind] at stopped
      split at stopped
      · next none =>
        simp only [Bool.and_eq_true, Bool.not_eq_true', List.isEmpty_iff, afterAll, List.nil_append,
          List.filter_eq_nil_iff, List.isEmpty_eq_false_iff] at none
        refine ⟨none.1, fun p mem compiles => none.2 p mem ?_, taken⟩
        rw [Option.isSome_iff_exists]
        exact compiles_iff_fragment.1 compiles
      · cases stopped
  · rintro ⟨some, fail, taken⟩
    refine ⟨_, ofFiles_of_problems some fun p mem => ?_⟩
    exact noted_iff.1 ((not_compiles_iff (taken p mem)).1 (fail p mem))

/-- **Every path has one verdict.** If the listed files hold plain texts, a run fails because nothing
was compiled exactly if there are paths, none of them compiles on its own, and none breaks the run
off; it gives a result exactly if there are no paths or one compiles on its own, and none breaks the
run off. The result has the verdict of every path. -/
theorem ofFiles_verdicts (options : Options) (start : Document)
    (plain : ∀ p ∈ paths, HoldsPlain d p) (proper : ∀ p ∈ paths, p.Proper) :
    ((∃ count, (ofFiles options start d paths).result = .error (.allFailed count)) ↔
      paths ≠ [] ∧ (∀ p ∈ paths, ¬ Compiles options d p) ∧ ∀ p ∈ paths, ¬ Broken d p) ∧
    ((∃ c, (ofFiles options start d paths).result = .ok c) ↔
      (paths = [] ∨ ∃ p ∈ paths, Compiles options d p) ∧ ∀ p ∈ paths, ¬ Broken d p) ∧
    ∀ c, (ofFiles options start d paths).result = .ok c → Verdicts options d paths c := by
  have turns : (∀ p ∈ paths, Taken options d p) ↔ ∀ p ∈ paths, ¬ Broken d p :=
    forall₂_congr fun p mem => taken_iff_not_broken (plain p mem)
  refine ⟨?fails, ?gives, ?verdicts⟩
  case fails => rw [allFailed_iff, turns]
  case gives =>
    simp only [ofFiles_eq_ok, turns, Option.isSome_iff_exists, ← compiles_iff_fragment]
    exact ⟨fun ⟨_, whole, one, _⟩ => ⟨one, whole⟩, fun ⟨one, whole⟩ => ⟨_, whole, one, rfl⟩⟩
  case verdicts =>
    intro c finished
    obtain ⟨taken, -, rfl⟩ := ofFiles_eq_ok.1 finished
    exact verdicts_afterAll proper taken

/-! ## A run over three files, two of them twice -/

/-- A disk that holds a schema that compiles and one that does not. -/
def pollDisk : Disk where
  entries := [(["order.json"], .file (SchemaFile.text orderSchema).toUTF8),
    (["ballot.json"], .file (SchemaFile.text ballotSchema).toUTF8)]

def pollPaths : List Path := [orderPath, ballotPath, orderPath, missingPath, ballotPath]

theorem holdsPlain_pollDisk : ∀ p ∈ pollPaths, HoldsPlain pollDisk p := by
  have order : HoldsPlain pollDisk orderPath :=
    .of_text (show (Json.obj orderSchema).Storable from rfl) (by decide) rfl
  have ballot : HoldsPlain pollDisk ballotPath :=
    .of_text (show (Json.obj ballotSchema).Storable from rfl) (by decide) rfl
  have missing : HoldsPlain pollDisk missingPath := .of_unread rfl
  simp only [pollPaths, List.forall_mem_cons]
  exact ⟨order, ballot, order, missing, ballot, nofun⟩

/-- Both files that are there are rewritten before their second turns, which go as the first. -/
theorem ofFiles_verdicts_poll :
    (∀ p ∈ pollPaths, HoldsPlain pollDisk p) ∧ (∀ p ∈ pollPaths, p.Proper) ∧
      ∃ c, (ofFiles {} {} pollDisk pollPaths).result = .ok c ∧
        c.compiled = [orderPath, orderPath] ∧
        ∀ name, name ∈ c.failed.names ↔ name = "ballot.json" ∨ name = "missing.json" := by
  have proper : ∀ p ∈ pollPaths, p.Proper := by decide
  have order : Compiles {} pollDisk orderPath := compiles_iff_fragment.2
    ⟨_, SchemaFile.fragment_eq_ok.1 (fragment_of_orderSchema {} rfl)⟩
  have ballotFails : ∃ e, fragment {} pollDisk ballotPath = .error (.schema e) := by
    obtain ⟨-, e, -, fails⟩ := ballot_fails (d := pollDisk) (p := ballotPath) rfl
    exact ⟨e, fails⟩
  have missingFails : ∃ e, fragment {} pollDisk missingPath = .error (.schema e) := ⟨_, rfl⟩
  have taken : ∀ p ∈ pollPaths, Taken {} pollDisk p := by
    intro p mem
    simp only [pollPaths, List.mem_cons, List.not_mem_nil, or_false] at mem
    rcases mem with rfl | rfl | rfl | rfl | rfl
    · exact .inl (compiles_iff_fragment.1 order)
    · exact .inr (noted_iff.2 ballotFails)
    · exact .inl (compiles_iff_fragment.1 order)
    · exact .inr (noted_iff.2 missingFails)
    · exact .inr (noted_iff.2 ballotFails)
  have ballot : ¬ Compiles {} pollDisk ballotPath :=
    (not_compiles_iff (taken _ (by decide))).2 (noted_iff.2 ballotFails)
  have missing : ¬ Compiles {} pollDisk missingPath :=
    (not_compiles_iff (taken _ (by decide))).2 (noted_iff.2 missingFails)
  obtain ⟨-, gives, verdicts⟩ := ofFiles_verdicts {} {} holdsPlain_pollDisk proper
  obtain ⟨c, finished⟩ := gives.2 ⟨.inr ⟨orderPath, List.mem_cons_self, order⟩,
    fun p mem => (taken_iff_not_broken (holdsPlain_pollDisk p mem)).1 (taken p mem)⟩
  refine ⟨holdsPlain_pollDisk, proper, c, finished, ?compiled, fun name => ?failed⟩
  case compiled =>
    rw [(verdicts c finished).compiled, pollPaths]
    simp [order, ballot, missing]
  case failed =>
    rw [(verdicts c finished).failed]
    simp only [pollPaths, List.mem_cons, List.not_mem_nil, or_false, exists_eq_or_imp, order,
      ballot, missing, not_true, not_false_iff, false_and, true_and, false_or, exists_eq_left]
    constructor
    · rintro (rfl | rfl | rfl)
      · exact .inl rfl
      · exact .inr rfl
      · exact .inl rfl
    · rintro (rfl | rfl)
      · exact .inl rfl
      · exact .inr (.inl rfl)

end Compilation
end ResourceApi
