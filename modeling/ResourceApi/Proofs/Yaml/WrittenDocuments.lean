import ResourceApi.Proofs.Json.LineEnds
import ResourceApi.Proofs.OpenApi.Entries
import ResourceApi.Proofs.Yaml.BuiltValues

/-! # Written documents read back

The text that a finished document is written as is read as the document itself, with all
its keys in their order, if every key and every text in it is written so that it is kept.
A text loses a next-line character between single quotes, and gains a backslash between
double quotes where a line breaks on both sides of the start of a blank; a key that
stands before its value is found within 1024 characters only. -/

namespace ResourceApi

namespace Yaml

/-- Whether every key and text of a document is read back from where it is written. -/
def keepsDocument : Json → Bool
  | .obj fields => keepsFields 0 fields
  | _ => true

/-- **A written map is read back.** -/
theorem read_document {fields : Fields Json} (storable : (Json.obj fields).Storable)
    (filled : fields ≠ []) (kept : keepsFields 0 fields = true) :
    ∃ d, read (document (.obj fields)) = .ok (some d) ∧
      ∀ depth, depthOf (.obj fields) < depth → d.value depth = .ofJson (.obj fields) := by
  have printed := noSpecial_document storable filled
  have noReturn : '\r' ∉ (document (.obj fields)).toList := fun mem => by
    cases (printed '\r' mem).symm.trans (by decide : isSpecial '\r' = true)
  obtain ⟨d, built, value⟩ := Document.ofGraph_nodeOf storable
  refine ⟨d, ?_, value⟩
  rw [read, Text.unifyLineEnds_eq_self noReturn, tokens_document storable filled kept,
    ofTokens_tokensOf storable, Results.ok_bind]
  dsimp only
  rw [built]
  rfl

end Yaml

/-- **A finished document is read back from the text it is written as**, if each of its keys and
texts is kept. -/
theorem Document.read_written (d : Document) {v : Json} (finished : d.finish = .ok v)
    (storable : v.Storable) (kept : Yaml.keepsDocument v = true) :
    ∃ written, Yaml.read (Yaml.document v) = .ok (some written) ∧
      ∀ depth, Yaml.depthOf v < depth → written.value depth = .ofJson v := by
  obtain ⟨-, whole⟩ | ⟨-, _, _, _, failed⟩ := d.finish_eq
  · obtain rfl : d.toJson = v := Except.ok.inj (whole.symm.trans finished)
    exact Yaml.read_document storable (List.cons_ne_nil _ _) kept
  · cases failed.symm.trans finished

/-- A document with texts that look like something else. -/
def oddDocument : Document where
  info := { title := "Größe: 'x' # 3", description := "two\nlines\t", version := "2024-01-01" }
  schemas := [("null", .obj [("type", .str "string"),
    ("enum", .arr [.str "true", .str "1e3", .str "no: 'yes'", .null, .int (-7), .bool true])])]

theorem Document.read_written_odd : ∃ written,
    Yaml.read (Yaml.document oddDocument.toJson) = .ok (some written) ∧
      ∀ depth, 5 < depth → written.value depth = .ofJson oddDocument.toJson :=
  oddDocument.read_written rfl rfl (by decide +kernel)

end ResourceApi
