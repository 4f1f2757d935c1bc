import ResourceApi.Proofs.Compilation.Scanning
import ResourceApi.Proofs.Compilation.Sources

/-! # Compiling a directory again

A run over a directory that finishes leaves a disk on which the next run finds the same
schema files, reads from them what it would have read before, writes the same document
to the same place, and changes nothing. Two things can spoil this: the output may be a
schema file of the directory itself, and what the first run adds to the directory may be
out of reach for the second one, since a path has only so many bytes. -/

namespace ResourceApi.Compilation

variable {options : Options} {document : Document} {d d' d'' : Disk} {output : Location}
  {dir p : Path} {paths : List Path} {c : Compilation}

/-! ## Schema files on a disk that has grown -/

/-- Schema files read the same on a disk that has only been extended where none of them is. -/
theorem readBytes_of_elsewhere (grown : Disk.Grown output d d')
    (extended : Disk.Extended output d' d'')
    (elsewhere : ∀ l name, d.locate dir = .ok l → name ∈ d.listed l →
      Path.suffix name = schemaSuffix → l ++ [name] ≠ output)
    (found : (find d dir).result = .ok paths) :
    ∀ p ∈ paths, d''.readBytes p = d'.readBytes p := by
  obtain ⟨l, leads, held, -, rfl⟩ := find_eq_ok.1 found
  intro p mem
  obtain ⟨name, among, rfl⟩ := List.mem_map.1 mem
  obtain ⟨listed, schema⟩ := List.mem_filter.1 (List.mem_mergeSort.1 among)
  obtain ⟨ending, file⟩ := isSchemaName_eq_true.1 schema
  have leads' := grown.locate leads
  have held' := grown.directory held
  have same := grown.locate_child leads held name
  have same' := extended.toGrown.locate_child leads' held' name
  cases place : d.locate (dir.child name) with
  | error reason =>
    rw [Disk.readBytes, Disk.readBytes, Disk.lookup, Disk.lookup, same', same, place]
    rfl
  | ok k =>
    obtain rfl := Disk.eq_of_locate_child leads held (down_of_schema ending) place
    obtain ⟨e, there⟩ := Disk.find?_of_listed listed
    rw [Disk.isDirectory_of_locate place, there] at file
    cases e with
    | directory => simp at file
    | file bytes =>
      obtain ⟨e', there', kind⟩ := grown.kept there
      cases e' with
      | directory => cases kind
      | file bytes' =>
        rw [extended.readBytes (elsewhere l name leads listed ending) (same.trans place) there']
        exact (Disk.readBytes_eq_ok.2 ⟨_, same.trans place, there'⟩).symm

/-- They do if the disk has only been extended by what is no schema file of the directory. -/
theorem readBytes_of_found (grown : Disk.Grown output d d') (extended : Disk.Extended output d' d'')
    (other : ∀ l name, d.locate dir = .ok l → output = l ++ [name] →
      Path.suffix name ≠ schemaSuffix)
    (found : (find d dir).result = .ok paths) :
    ∀ p ∈ paths, d''.readBytes p = d'.readBytes p :=
  readBytes_of_elsewhere grown extended
    (fun l name leads _ ending here => other l name leads here.symm ending) found

/-! ## Writing the document -/

variable {between : Disk} {v : Json}

theorem writeDocument_of_written
    (made : d.makeDirectories options.outputPath.parent = .ok between)
    (sound : document.finish = .ok v)
    (written : between.writeText options.outputPath (Yaml.document v) = .ok d') :
    writeDocument options d document =
      ⟨d', [.written options.outputPath.toString], .ok options.outputPath⟩ := by
  rw [writeDocument, made]
  dsimp only
  rw [sound]
  dsimp only
  rw [written]

theorem writeDocument_eq_ok (finished : (writeDocument options d document).result = .ok p) :
    ∃ between v after, d.makeDirectories options.outputPath.parent = .ok between ∧
      document.finish = .ok v ∧
      between.writeText options.outputPath (Yaml.document v) = .ok after := by
  rw [writeDocument] at finished
  cases made : d.makeDirectories options.outputPath.parent with
  | error reason =>
    rw [made] at finished
    cases finished
  | ok between =>
    rw [made] at finished
    cases sound : document.finish with
    | error problem =>
      rw [sound] at finished
      cases finished
    | ok v =>
      rw [sound] at finished
      dsimp only at finished
      cases written : between.writeText options.outputPath (Yaml.document v) with
      | error reason =>
        rw [written] at finished
        cases finished
      | ok after => exact ⟨between, v, after, rfl, rfl, written⟩

/-- A document that was written is written again to the same effect. -/
theorem writeDocument_again (finished : (writeDocument options d document).result = .ok p)
    (left : (writeDocument options d document).disk = d') :
    ∃ output, d'.locate options.outputPath = .ok output ∧ Disk.Extended output d d' ∧
      writeDocument options d' document = writeDocument options d document := by
  obtain ⟨between, v, after, made, sound, written⟩ := writeDocument_eq_ok finished
  have first := writeDocument_of_written made sound written
  rw [first] at left ⊢
  obtain rfl : after = d' := left
  obtain ⟨output, place, extended, again⟩ := Disk.writeText_eq_ok written
  obtain ⟨made', home⟩ := Disk.makeDirectories_eq_ok made output
  refine ⟨output, place, made'.trans extended, ?_⟩
  obtain ⟨e, home', kind⟩ := extended.toGrown.lookup home
  cases e with
  | file bytes => cases kind
  | directory =>
    exact writeDocument_of_written (Disk.makeDirectories_of_directory home') sound again

/-! ## Two runs -/

/-- A run finds its files, compiles them and writes the document. -/
theorem ofDirectory_of_ran (found : (find d options.schemaDir).result = .ok paths)
    (ran : (ofFiles options options.start d paths).result = .ok c) :
    (ofDirectory options d).disk =
        (writeDocument options (ofFiles options options.start d paths).disk c.document).disk ∧
      (ofDirectory options d).result =
        (writeDocument options (ofFiles options options.start d paths).disk c.document).result.map
          (c, ·) := by
  rw [ofDirectory, Outcome.andThen_ok _ found, find_disk, Outcome.andThen_ok _ ran]
  dsimp only
  cases written : (writeDocument options (ofFiles options options.start d paths).disk
      c.document).result with
  | error h =>
    rw [Outcome.andThen_error _ written]
    exact ⟨rfl, rfl⟩
  | ok p =>
    rw [Outcome.andThen_ok _ written]
    exact ⟨rfl, rfl⟩

theorem ofDirectory_eq_ok (finished : (ofDirectory options d).result = .ok (c, p)) :
    ∃ paths, (find d options.schemaDir).result = .ok paths ∧
      (ofFiles options options.start d paths).result = .ok c ∧
      (writeDocument options (ofFiles options options.start d paths).disk c.document).result =
        .ok p := by
  cases found : (find d options.schemaDir).result with
  | error h =>
    rw [ofDirectory, Outcome.andThen_error _ found] at finished
    cases finished
  | ok paths =>
    cases ran : (ofFiles options options.start d paths).result with
    | error h =>
      rw [ofDirectory, Outcome.andThen_ok _ found, find_disk, Outcome.andThen_error _ ran]
        at finished
      cases finished
    | ok c' =>
      rw [(ofDirectory_of_ran found ran).2] at finished
      obtain ⟨p', written, same⟩ := Results.map_eq_ok.1 finished
      obtain ⟨rfl, rfl⟩ := Prod.mk.inj same
      exact ⟨paths, rfl, ran, written⟩

/-- The output of a run is a schema file in the directory of the schemas. -/
def OutputAmongSchemas (options : Options) (d : Disk) : Prop :=
  ∃ l name, d.locate options.schemaDir = .ok l ∧
    d.locate options.outputPath = .ok (l ++ [name]) ∧ Path.suffix name = schemaSuffix

theorem not_outputAmongSchemas {l : Location} {name : String}
    (leads : d.locate options.schemaDir = .ok l)
    (place : d.locate options.outputPath = .ok (l ++ [name]))
    (ending : Path.suffix name ≠ schemaSuffix) : ¬ OutputAmongSchemas options d := by
  rintro ⟨l', name', leads', place', ending'⟩
  obtain rfl := Except.ok.inj (leads.symm.trans leads')
  have same := List.append_cancel_left (Except.ok.inj (place.symm.trans place'))
  rw [← (List.cons.inj same).1] at ending'
  exact ending ending'

/-- **A second run changes nothing.** It gives what the first run gave, and leaves every file as
the first run left it; unless the output is one of the schema files, or what the first run added
to their directory is out of reach there. -/
theorem ofDirectory_again (finished : (ofDirectory options d).result = .ok (c, p))
    (apart : ¬ OutputAmongSchemas options (ofDirectory options d).disk)
    (reach : AddedInReach d (ofDirectory options d).disk options.schemaDir) :
    (ofDirectory options (ofDirectory options d).disk).result = .ok (c, p) ∧
      (ofDirectory options (ofDirectory options d).disk).disk = (ofDirectory options d).disk := by
  obtain ⟨paths, found, ran, written⟩ := ofDirectory_eq_ok finished
  rw [(ofDirectory_of_ran found ran).1] at apart reach ⊢
  obtain ⟨output, place, extended, again⟩ := writeDocument_again written rfl
  generalize left :
    (writeDocument options (ofFiles options options.start d paths).disk c.document).disk = d'
    at apart reach place extended again ⊢
  have compiled := grown_ofFiles output options options.start d paths
  have grown := compiled.trans extended.toGrown
  have other : ∀ l name, d.locate options.schemaDir = .ok l → output = l ++ [name] →
      Path.suffix name ≠ schemaSuffix := fun l name leads here ending =>
    apart ⟨l, name, grown.locate leads, here ▸ place, ending⟩
  have kept := readBytes_of_found compiled extended other found
  have found' := find_of_grown grown reach other found
  have ran' := (ofFiles_result_again ran kept).trans ran
  have still := ofFiles_disk_of_still (still_of_ofFiles ran kept) options.start
  obtain ⟨disk, result⟩ := ofDirectory_of_ran found' ran'
  rw [disk, result, still, again, written]
  exact ⟨rfl, left⟩

/-! ## A directory that holds its output -/

/-- A directory with a schema and a file that is none. -/
def shopDisk : Disk where
  entries := [(["shop"], .directory), (["shop", "notes.txt"], .file ByteArray.empty),
    (["shop", "order.json"], .file (SchemaFile.text orderSchema).toUTF8)]

/-- The document goes where the schemas are. -/
def shopOptions : Options where
  schemaDir := ⟨.here, ["shop"]⟩
  outputDir := ⟨.here, ["shop"]⟩

def shopPath : Path := ⟨.here, ["shop", "order.json"]⟩

/-- The files of the shop when the schema has been normalized. -/
def shopNormal : Disk :=
  shopDisk.set ["shop", "order.json"] (.file (SchemaFile.text orderNormal).toUTF8)

def shopCompilation : Compilation where
  document := shopOptions.start.add (orderResource.fragment shopOptions)
  compiled := [shopPath]

theorem find_shop : (find shopDisk shopOptions.schemaDir).result = .ok [shopPath] := by
  have told : ∀ name ∈ ["notes.txt", "order.json"],
      shopDisk.isDirectory (shopOptions.schemaDir.child name) = .ok false := by
    simp only [List.forall_mem_cons]
    exact ⟨rfl, rfl, nofun⟩
  have chosen : (shopDisk.listed ["shop"]).filter (isSchemaName shopDisk shopOptions.schemaDir) =
      ["order.json"] := rfl
  refine find_eq_ok.2 ⟨["shop"], rfl, rfl, fun name mem => ⟨_, told name mem⟩, ?_⟩
  rw [chosen, List.mergeSort_singleton]
  rfl

theorem ofFiles_shop :
    (ofFiles shopOptions shopOptions.start shopDisk [shopPath]).result = .ok shopCompilation ∧
      (ofFiles shopOptions shopOptions.start shopDisk [shopPath]).disk = shopNormal := by
  have held : shopDisk.readBytes shopPath = .ok (SchemaFile.text orderSchema).toUTF8 := rfl
  have storable : (Json.obj orderSchema).Storable := rfl
  have turned : turn shopOptions shopDisk { document := shopOptions.start } shopPath =
      .ok shopCompilation := by
    rw [turn, fragment_of_orderSchema shopOptions held]
    rfl
  have stepped :=
    (step_of_rewritten shopOptions (.refl shopDisk) { document := shopOptions.start } shopPath).1
  constructor
  · rw [ofFiles_result, List.foldlM_cons, turned]
    rfl
  · have reached := SchemaFile.normalized_eq_ok.2
      ⟨_, SchemaFile.load_text storable held, normalForm_orderSchema⟩
    have left := SchemaFile.normalize_of_unhalved (l := ["shop", "order.json"]) reached
      (SchemaFile.halved_of_text storable held) rfl rfl
    have writes : shopOptions.writeNormalized = true := rfl
    have last (d : Disk) (c : Compilation) : (steps shopOptions d c []).disk = d := rfl
    rw [ofFiles_disk, steps_cons_disk (stepped.trans turned), writes, last, left, shopNormal]

theorem ofDirectory_again_shop : ∃ p,
    (ofDirectory shopOptions shopDisk).result = .ok (shopCompilation, p) ∧
    ¬ OutputAmongSchemas shopOptions (ofDirectory shopOptions shopDisk).disk ∧
    AddedInReach shopDisk (ofDirectory shopOptions shopDisk).disk shopOptions.schemaDir ∧
    (ofDirectory shopOptions (ofDirectory shopOptions shopDisk).disk).result =
      .ok (shopCompilation, p) ∧
    (ofDirectory shopOptions (ofDirectory shopOptions shopDisk).disk).disk =
      (ofDirectory shopOptions shopDisk).disk := by
  obtain ⟨ran, normal⟩ := ofFiles_shop
  obtain ⟨disk, result⟩ := ofDirectory_of_ran find_shop ran
  obtain ⟨v, sound⟩ : ∃ v, shopCompilation.document.finish = .ok v := ⟨_, rfl⟩
  -- the directory is there, and the document is a new file in it
  have written : writeDocument shopOptions shopNormal shopCompilation.document = _ :=
    writeDocument_of_written (Disk.makeDirectories_of_directory rfl) sound rfl
  rw [normal, written] at disk result
  have listed : (ofDirectory shopOptions shopDisk).disk.listed ["shop"] =
      ["notes.txt", "order.json", "openapi.gen.yaml"] := by
    rw [disk]
    rfl
  have apart : ¬ OutputAmongSchemas shopOptions (ofDirectory shopOptions shopDisk).disk := by
    rw [disk]
    have ending : Path.suffix "openapi.gen.yaml" ≠ schemaSuffix := by decide
    exact @not_outputAmongSchemas _ _ ["shop"] _ rfl rfl ending
  have reach : AddedInReach shopDisk (ofDirectory shopOptions shopDisk).disk
      shopOptions.schemaDir := by
    intro l name leads absent mem
    obtain rfl : ["shop"] = l := Except.ok.inj leads
    rw [listed] at mem
    rw [disk]
    simp only [List.mem_cons, List.not_mem_nil, or_false] at mem
    rcases mem with rfl | rfl | rfl
    · exact ⟨_, rfl⟩
    · exact ⟨_, rfl⟩
    · exact ⟨_, rfl⟩
  exact ⟨_, result, apart, reach, ofDirectory_again result apart reach⟩

/-! ## A directory whose entries are out of reach -/

/-- Names that lead into a directory and out of it again, a number of times, and then on. -/
def detour (onward : List String) : Nat → List String
  | 0 => onward
  | n + 1 => "s" :: ".." :: detour onward n

variable {onward : List String} {n : Nat}

theorem detour_append (more : List String) :
    detour onward n ++ more = detour (onward ++ more) n := by
  induction n with
  | zero => rfl
  | succ n ih => rw [detour, List.cons_append, List.cons_append, ih, detour]

theorem detour_ne_nil (named : onward ≠ []) : detour onward n ≠ [] := by
  cases n with
  | zero => exact named
  | succ n => nofun

theorem intercalate_detour (named : onward ≠ []) :
    "/".intercalate (detour onward (n + 1)) = "s/../" ++ "/".intercalate (detour onward n) := by
  obtain ⟨name, rest, whole⟩ := List.exists_cons_of_ne_nil (detour_ne_nil named)
  rw [detour, whole, String.intercalate_cons_cons, String.intercalate_cons_cons,
    ← String.append_assoc, ← String.append_assoc]
  rfl

/-- The text of a detour has five bytes for each time round, and those of the way on. -/
theorem checkText_detour (named : onward ≠ [])
    (plain : ¬ '\x00' ∈ ("/".intercalate onward).toList) :
    Disk.checkText ("/".intercalate (detour onward n)) =
      if Disk.longestPath < 5 * n + ("/".intercalate onward).utf8ByteSize then .error .nameTooLong
      else .ok () := by
  have measured : ¬ '\x00' ∈ ("/".intercalate (detour onward n)).toList ∧
      ("/".intercalate (detour onward n)).utf8ByteSize =
        5 * n + ("/".intercalate onward).utf8ByteSize := by
    induction n with
    | zero => exact ⟨plain, (Nat.zero_add _).symm⟩
    | succ n ih =>
      obtain ⟨plain', size⟩ := ih
      rw [intercalate_detour named, String.toList_append, List.mem_append,
        String.utf8ByteSize_append, size]
      refine ⟨fun mem => mem.elim (by decide) plain', ?_⟩
      have five : "s/../".utf8ByteSize = 5 := rfl
      omega
  rw [Disk.checkText, List.contains_eq_mem, decide_eq_false measured.1, measured.2]
  rfl

/-- A detour leads where the way on leads. -/
theorem follow_detour {d : Disk} (there : d.find? ["s"] = some .directory) :
    d.follow [] (detour onward n) = d.follow [] onward := by
  have root : d.find? [] = some .directory := rfl
  induction n with
  | zero => rfl
  | succ n ih =>
    rw [detour, Disk.follow, root]
    dsimp only
    rw [if_neg (by decide), if_neg (by decide), List.nil_append, Disk.follow, there]
    exact ih

theorem locate_detour {d : Disk} (there : d.find? ["s"] = some .directory) (start : d.home = [])
    (named : onward ≠ []) (plain : ¬ '\x00' ∈ ("/".intercalate onward).toList) :
    d.locate ⟨.here, detour onward n⟩ =
      if Disk.longestPath < 5 * n + ("/".intercalate onward).utf8ByteSize then .error .nameTooLong
      else d.follow [] onward := by
  have shown : (⟨.here, detour onward n⟩ : Path).toString = "/".intercalate (detour onward n) := by
    have more : (detour onward n).isEmpty = false := by
      rw [List.isEmpty_eq_false_iff]
      exact detour_ne_nil named
    rw [Path.toString, more]
    exact String.empty_append
  rw [Disk.locate, shown, checkText_detour named plain]
  have anchored : (⟨.here, detour onward n⟩ : Path).isAbsolute = false := rfl
  rw [anchored, start]
  split
  · rfl
  · exact follow_detour there

/-- A directory with nothing in it. -/
def farDisk : Disk where
  entries := [(["s"], .directory)]

/-- The schemas are looked for on a detour into the directory, and the document goes straight
there. The path of the detour is as long as a path may be, up to four bytes. -/
def farOptions : Options where
  schemaDir := ⟨.here, detour ["s"] 818⟩
  outputDir := ⟨.here, ["s"]⟩

/-- The directory with a document in it. -/
def farWritten (bytes : ByteArray) : Disk := farDisk.set ["s", "openapi.gen.yaml"] (.file bytes)

theorem locate_far {d : Disk} (there : d.find? ["s"] = some .directory) (start : d.home = []) :
    d.locate farOptions.schemaDir = .ok ["s"] := by
  rw [farOptions, locate_detour there start (by decide) (by decide)]
  rfl

theorem find_farDisk : (find farDisk farOptions.schemaDir).result = .ok [] := by
  have listed : farDisk.list farOptions.schemaDir = .ok [] :=
    Disk.list_eq_ok.2 ⟨["s"], locate_far rfl rfl, rfl, List.mergeSort_nil.symm⟩
  rw [find, listed]
  rfl

/-- The document is listed, but its path is too long to be looked up. -/
theorem find_farWritten (bytes : ByteArray) :
    (find (farWritten bytes) farOptions.schemaDir).result = .error (.disk .nameTooLong) := by
  have there : (farWritten bytes).find? ["s"] = some .directory := rfl
  have single : (farWritten bytes).listed ["s"] = ["openapi.gen.yaml"] := rfl
  have listed : (farWritten bytes).list farOptions.schemaDir = .ok ["openapi.gen.yaml"] :=
    Disk.list_eq_ok.2 ⟨["s"], locate_far there rfl, there,
      by rw [single, List.mergeSort_singleton]⟩
  have far : (farWritten bytes).locate (farOptions.schemaDir.child "openapi.gen.yaml") =
      .error .nameTooLong := by
    rw [farOptions, Path.child, detour_append, locate_detour there rfl (by decide) (by decide)]
    rfl
  rw [find, listed]
  dsimp only
  rw [schemaFiles, Disk.isDirectory_of_error far]
  rfl

theorem not_outputAmongSchemas_farWritten (bytes : ByteArray) :
    ¬ OutputAmongSchemas farOptions (farWritten bytes) := by
  have there : (farWritten bytes).find? ["s"] = some .directory := rfl
  have direct : (farWritten bytes).locate farOptions.outputPath =
      .ok (["s"] ++ ["openapi.gen.yaml"]) := rfl
  exact not_outputAmongSchemas (locate_far there rfl) direct (by decide)

/-- The first run finds nothing and writes the document; the second one stops at it. -/
theorem ofDirectory_out_of_reach : ∃ c p,
    (ofDirectory farOptions farDisk).result = .ok (c, p) ∧
    ¬ OutputAmongSchemas farOptions (ofDirectory farOptions farDisk).disk ∧
    (ofDirectory farOptions (ofDirectory farOptions farDisk).disk).result =
      .error (.disk .nameTooLong) := by
  obtain ⟨disk, result⟩ :=
    ofDirectory_of_ran find_farDisk (c := { document := farOptions.start }) rfl
  obtain ⟨v, sound⟩ : ∃ v, farOptions.start.finish = .ok v := ⟨_, rfl⟩
  have unchanged : (ofFiles farOptions farOptions.start farDisk []).disk = farDisk := rfl
  have written : writeDocument farOptions farDisk farOptions.start =
      ⟨farWritten (Yaml.document v).toUTF8, _, .ok farOptions.outputPath⟩ :=
    writeDocument_of_written (Disk.makeDirectories_of_directory rfl) sound rfl
  rw [unchanged, written] at disk result
  refine ⟨{ document := farOptions.start }, farOptions.outputPath, result, ?_⟩
  rw [disk]
  refine ⟨not_outputAmongSchemas_farWritten _, ?_⟩
  rw [ofDirectory, Outcome.andThen_error _ (find_farWritten _)]

end ResourceApi.Compilation
