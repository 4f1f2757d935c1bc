import ResourceApi.Proofs.Disk.Growth
import ResourceApi.Proofs.Resource.StoredFile

/-! # Schemas written and read

Schema files are overwritten in place, so what is lost between writing a schema and
reading it is lost for good. Nothing is: wherever a file can be written, a schema that can
be stored is read back as it was, with the order of its fields at every level, the kinds
of its numbers and every character of its texts. What cannot be stored and still be read is
an integer of more digits than are read. -/

namespace ResourceApi.SchemaFile

variable {d : Disk} {p : Path} {schema : Fields Json}

theorem store_of_takesFile (free : d.TakesFile p) (storable : (Json.obj schema).Storable) :
    ∃ d', store d p schema = ⟨d', [.normalized p.toString], .ok schema⟩ ∧
      d'.readBytes p = .ok (text schema).toUTF8 := by
  obtain ⟨l, leads, file⟩ := free
  have written : d.writeText p (text schema) = .ok (d.set l (.file (text schema).toUTF8)) :=
    Disk.writeText_iff.2 ⟨l, leads, file, rfl⟩
  exact ⟨_, store_of_writeText storable written, Disk.readBytes_of_writeText written⟩

/-- **A written schema is read back.** Wherever a file can be written, writing a schema that can be
stored succeeds, and so does reading it, which gives the very schema. -/
theorem load_store (free : d.TakesFile p) (storable : (Json.obj schema).Storable) :
    ∃ d', store d p schema = ⟨d', [.normalized p.toString], .ok schema⟩ ∧
      load d' p = .ok schema := by
  obtain ⟨d', stored, held⟩ := store_of_takesFile free storable
  exact ⟨d', stored, load_text storable held⟩

/-! ## One schema of everything, and one that is never read -/

/-- Values of every kind and characters of every sort, the fields in no order. -/
def motleySchema : Fields Json := [
  ("zone", .arr [.obj [], .arr [], .null, .bool true]),
  ("\"quoted\"", .str "C:\\ \x00\x08\x0c\t\r\n\r \x7f \u0085 \u2028 \ufeff 😀"),
  ("numbers", .arr [.int 1, .float (.finite false 4503599627370496 (-52)), .int (-98765432109876543210),
    .float (.finite true 0 (-1074)), .float .notANumber, .float (.infinite true)]),
  ("", .obj [("\n", .str ""), ("a", .int 0)])]

def motleyPath : Path := ⟨.here, ["motley.json"]⟩

theorem takesFile_motleyPath : Disk.TakesFile {} motleyPath := by
  refine ⟨["motley.json"], rfl, ?_⟩
  intro directory
  cases directory

theorem load_store_motley : ∃ d',
    store {} motleyPath motleySchema = ⟨d', [.normalized "motley.json"], .ok motleySchema⟩ ∧
      load d' motleyPath = .ok motleySchema :=
  load_store takesFile_motleyPath rfl

/-- A schema that holds one integer. -/
def integerSchema (n : Int) : Fields Json := [("n", .int n)]

/-- The integer of a schema that was loaded has no more digits than are read. -/
theorem lt_of_load_integerSchema {n : Int} (loaded : load d p = .ok (integerSchema n)) :
    n.natAbs < 10 ^ Numeral.mostDigits := by
  have storable := (Json.storable_obj.1 (load_storable loaded)).2 ("n", .int n) List.mem_cons_self
  have short : (Nat.toDigits 10 n.natAbs).length ≤ Numeral.mostDigits := of_decide_eq_true storable
  rwa [Nat.length_toDigits_le_iff (by decide) (by decide)] at short

/-- Whatever writing an integer of more digits leaves on the disk, it is not read back. -/
theorem load_ne_integerSchema :
    (Json.obj (integerSchema (10 ^ Numeral.mostDigits))).Distinct ∧
      Disk.TakesFile {} motleyPath ∧
      ∀ d, load d motleyPath ≠ .ok (integerSchema (10 ^ Numeral.mostDigits)) := by
  refine ⟨rfl, takesFile_motleyPath, ?_⟩
  intro d loaded
  have short := lt_of_load_integerSchema loaded
  rw [Int.natAbs_pow, show (10 : Int).natAbs = 10 from rfl] at short
  exact Nat.lt_irrefl _ short

end ResourceApi.SchemaFile
