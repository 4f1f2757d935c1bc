import ResourceApi.Disk.Basic
import ResourceApi.Proofs.Results

/-! # Rewriting files

Giving a file that is there new bytes moves nothing: every path leads where it led.
The paths that lead to the file read the new bytes, and all others what they read
before. -/

namespace ResourceApi.Disk

variable {d : Disk} {l : Location} {p : Path} {old : ByteArray}

theorem readBytes_eq_ok :
    d.readBytes p = .ok old ↔ ∃ l, d.locate p = .ok l ∧ d.find? l = some (.file old) := by
  unfold readBytes lookup
  cases d.locate p with
  | error reason => simp
  | ok l =>
    simp only [Results.ok_bind, Except.ok.injEq, exists_eq_left']
    cases d.find? l with
    | none => simp
    | some e => cases e <;> simp

/-- Paths that lead to the same place read the same. -/
theorem readBytes_of_locate {p q : Path} (same : d.locate q = d.locate p) :
    d.readBytes q = d.readBytes p := by
  rw [readBytes, readBytes, lookup, lookup, same]

/-- The root is a directory, so a file stands elsewhere. -/
theorem ne_nil_of_file (held : d.find? l = some (.file old)) : l ≠ [] := by
  rintro rfl
  simp [find?] at held

/-- Names are followed through directories only, and these are all kept. -/
theorem follow_set (held : d.find? l = some (.file old)) (new : ByteArray) (names : List String)
    (k : Location) : (d.set l (.file new)).follow k names = d.follow k names := by
  induction names generalizing k with
  | nil => rfl
  | cons name rest ih =>
    rw [follow.eq_def, follow.eq_def d]
    dsimp only
    rw [find?_set d k _ (ne_nil_of_file held)]
    by_cases here : k = l
    · subst here
      rw [if_pos rfl, held]
    · rw [if_neg here, ih, ih]

theorem locate_set (held : d.find? l = some (.file old)) (new : ByteArray) (p : Path) :
    (d.set l (.file new)).locate p = d.locate p := by
  unfold locate
  rw [follow_set held]
  rfl

theorem readBytes_set (held : d.find? l = some (.file old)) (new : ByteArray) {p : Path}
    (leads : d.locate p = .ok l) : (d.set l (.file new)).readBytes p = .ok new := by
  refine readBytes_eq_ok.2 ⟨l, (locate_set held new p).trans leads, ?_⟩
  rw [find?_set d l _ (ne_nil_of_file held), if_pos rfl]

theorem readBytes_set_of_ne (held : d.find? l = some (.file old)) (new : ByteArray) {p : Path}
    (elsewhere : d.locate p ≠ .ok l) : (d.set l (.file new)).readBytes p = d.readBytes p := by
  unfold readBytes lookup
  rw [locate_set held]
  cases leads : d.locate p with
  | error reason => rfl
  | ok k =>
    have other : k ≠ l := fun same => elsewhere (same ▸ leads)
    simp only [Results.ok_bind]
    rw [find?_set d k _ (ne_nil_of_file held), if_neg other]

/-- **Writing over a file** never fails, and changes what a path reads exactly if the path leads
to that file. -/
theorem writeText_of_readBytes (held : d.readBytes p = .ok old) (text : String) :
    ∃ d', d.writeText p text = .ok d' ∧ ∀ q,
      (d.locate q = d.locate p → d.readBytes q = .ok old ∧ d'.readBytes q = .ok text.toUTF8) ∧
      (d.locate q ≠ d.locate p → d'.readBytes q = d.readBytes q) := by
  obtain ⟨l, leads, file⟩ := readBytes_eq_ok.1 held
  refine ⟨d.set l (.file text.toUTF8), ?_, fun q => ⟨fun same => ?_, fun other => ?_⟩⟩
  · rw [writeText, writeBytes, leads, Results.ok_bind, file]
  · rw [leads] at same
    exact ⟨readBytes_eq_ok.2 ⟨l, same, file⟩, readBytes_set file _ same⟩
  · rw [leads] at other
    exact readBytes_set_of_ne file _ other

end ResourceApi.Disk
