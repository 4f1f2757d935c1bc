import ResourceApi.Proofs.Json.Nesting
import ResourceApi.Proofs.Resource.StoredFile

/-! # Plain files

Programs that read JSON do not agree on what half of a surrogate pair is, nor on how deep
brackets may nest. A text is plain if neither matters: no half is read from it, and its
brackets do not nest deeper than all such programs can follow. A file that holds a plain
text is not spoilt. -/

namespace ResourceApi

/-- A depth that is far from every limit on calls within calls. -/
def Json.plainDepth : Nat := 200

/-- Every program reads the same from the text: it holds no half of a surrogate pair, whatever a
reader would make of that, and does not nest too deep. -/
structure Json.Plain (content : String) : Prop where
  whole : ∀ half, readWith half content = read content
  shallow : nesting content ≤ plainDepth

namespace SchemaFile

variable {d : Disk} {p : Path} {schema : Fields Json}

/-- The file at a path, if there is one, holds a plain text. -/
def HoldsPlain (d : Disk) (p : Path) : Prop :=
  ∀ bytes, d.readBytes p = .ok bytes → ∃ content, textOfBytes bytes = .ok content ∧
    Json.Plain content

theorem HoldsPlain.of_content {bytes : ByteArray} {content : String}
    (held : d.readBytes p = .ok bytes) (decoded : textOfBytes bytes = .ok content)
    (plain : Json.Plain content) : HoldsPlain d p := by
  intro bytes' read
  cases held.symm.trans read
  exact ⟨content, decoded, plain⟩

/-- A path that reads nothing holds nothing that is not plain. -/
theorem HoldsPlain.of_unread {reason : DiskError} (unread : d.readBytes p = .error reason) :
    HoldsPlain d p := by
  intro bytes read
  cases unread.symm.trans read

/-- A file that holds a plain text is not spoilt. -/
theorem HoldsPlain.not_spoils (plain : HoldsPlain d p) (write : Bool) : ¬ Spoils write d p := by
  rintro ⟨-, halved, normal, reached⟩
  obtain ⟨schema, loaded, -⟩ := normalized_eq_ok.1 reached
  obtain ⟨bytes, _, held, -, -⟩ := load_eq_ok.1 loaded
  obtain ⟨content, decoded, isPlain⟩ := plain bytes held
  rw [halved_eq held decoded, holdsHalf_of_whole isPlain.whole] at halved
  cases halved

/-- The text of a schema is plain if the schema does not nest too deep. -/
theorem plain_text (storable : (Json.obj schema).Storable)
    (shallow : (Json.obj schema).depth ≤ Json.plainDepth) : Json.Plain (text schema) where
  whole := whole_text storable
  shallow := (Json.nesting_indented (.obj schema)).trans_le shallow

theorem HoldsPlain.of_text (storable : (Json.obj schema).Storable)
    (shallow : (Json.obj schema).depth ≤ Json.plainDepth)
    (held : d.readBytes p = .ok (text schema).toUTF8) : HoldsPlain d p :=
  .of_content held (textOfBytes_toUTF8 (noReturn_text schema)) (plain_text storable shallow)

end SchemaFile
end ResourceApi
