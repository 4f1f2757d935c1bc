import ResourceApi.Proofs.Compilation.LastWrite
import ResourceApi.Proofs.Compilation.SecondRun
import ResourceApi.Proofs.Disk.Beside
import ResourceApi.Proofs.OpenApi.Entries
import ResourceApi.Proofs.Resource.PlainFile

/-! # One more file

A file that is added to a directory of schemas, whatever it holds, does not keep the
others from being compiled: the document has the entries it had, of which the new file
may replace some. That the document is written hangs on the entries that come from the
new file alone, since it is checked entry by entry, and the others have been checked
without it. -/

namespace ResourceApi

/-! ## Values that are written between others -/

/-- What there is now are the old values, of which new ones may have been written over some, and
new ones besides. -/
structure Fields.Overlaid {α : Type} (old new now : Fields α) : Prop where
  value : ∀ name v, now.get? name = some v → old.get? name = some v ∨ new.get? name = some v
  kept : ∀ name, new.get? name = none → now.get? name = old.get? name
  there : ∀ name v, old.get? name = some v → ∃ w, now.get? name = some w
  added : ∀ name v, new.get? name = some v → ∃ w, now.get? name = some w

theorem Fields.overlaid_nil {α : Type} (old : Fields α) : Overlaid old [] old where
  value _ _ := .inl
  kept _ _ := rfl
  there _ v held := ⟨v, held⟩
  added _ _ := nofun

/-- Values that are written in the middle are overlaid on the others. -/
theorem Fields.overlaid_foldl {α : Type} {before after : List (Fields α)} {new : Fields α}
    (nodup : ∀ fs ∈ before ++ new :: after, fs.names.Nodup) (first : Fields α) :
    Overlaid ((before ++ after).foldl merge first) new
      ((before ++ new :: after).foldl merge first) := by
  have without : ∀ fs ∈ before ++ after, fs.names.Nodup := by
    intro fs mem
    refine nodup fs (List.mem_append.2 ((List.mem_append.1 mem).imp id ?_))
    exact List.mem_cons_of_mem _
  have old (name : String) : ((before ++ after).foldl merge first).get? name =
      (after.reverse.findSome? (·.get? name)).or
        ((before.reverse.findSome? (·.get? name)).or (first.get? name)) := by
    rw [get?_foldl_merge without, List.reverse_append, List.findSome?_append, Option.or_assoc]
  have now (name : String) : ((before ++ new :: after).foldl merge first).get? name =
      (after.reverse.findSome? (·.get? name)).or ((new.get? name).or
        ((before.reverse.findSome? (·.get? name)).or (first.get? name))) := by
    rw [get?_foldl_merge nodup, List.reverse_append, List.reverse_cons, List.findSome?_append,
      List.findSome?_append, List.findSome?_singleton, Option.or_assoc, Option.or_assoc]
  constructor
  · intro name v
    rw [old, now]
    cases after.reverse.findSome? (·.get? name) with
    | some w => exact .inl
    | none => cases new.get? name with
      | some w => exact .inr
      | none => exact .inl
  · intro name absent
    rw [old, now, absent, Option.none_or]
  · intro name v
    rw [old, now]
    cases after.reverse.findSome? (·.get? name) with
    | some w => exact fun _ => ⟨w, rfl⟩
    | none => cases new.get? name with
      | some w => exact fun _ => ⟨w, rfl⟩
      | none => exact fun held => ⟨v, held⟩
  · intro name v held
    rw [now, held]
    cases after.reverse.findSome? (·.get? name) with
    | some w => exact ⟨w, rfl⟩
    | none => exact ⟨v, rfl⟩

/-! ## What runs leave alone -/

open Disk (kind)

variable {options : Options} {d d' : Disk} {p : Path} {l : Location} {name : String}

theorem SchemaFile.kind_normalize (d : Disk) (p : Path) (write : Bool) (k : Location) :
    (normalize d p write).disk.kind k = d.kind k := by
  generalize left : (normalize d p write).disk = d'
  have writing := left ▸ writing_normalize d p write
  cases writing with
  | nothing => rfl
  | stored _ _ _ _ held => exact Disk.kind_set_of_file held _ k
  | spoilt _ _ held => exact Disk.kind_set_of_file held _ k

namespace Compilation

open SchemaFile (fragment load)

/-- After a run, there are files and directories where there were before. -/
theorem kind_ofFiles (options : Options) (start : Document) (d : Disk) (paths : List Path)
    (k : Location) : (ofFiles options start d paths).disk.kind k = d.kind k := by
  rw [ofFiles_disk]
  exact steps_disk_induction (P := fun now => now.kind k = d.kind k) rfl fun now p _ same =>
    (SchemaFile.kind_normalize now p _ k).trans same

/-- Runs on disks that differ in one file leave disks that do. -/
theorem beside_ofFiles {place : Location} (beside : Disk.Beside place d d') (start : Document)
    (paths paths' : List Path) :
    Disk.Beside place (ofFiles options start d paths).disk
      (ofFiles options start d' paths').disk where
  home := by
    have home := (grown_ofFiles place options start d paths).home
    have home' := (grown_ofFiles place options start d' paths').home
    rw [home', beside.home, home]
  elsewhere k other := by rw [kind_ofFiles, kind_ofFiles, beside.elsewhere k other]
  file := by rw [kind_ofFiles, beside.file]
  free := by rw [kind_ofFiles]; exact beside.free

/-! ## Turns of files with any text -/

/-- The text has no integer of more digits than are read. -/
def ShortIntegers (content : String) : Prop :=
  ∀ e, Json.read content = .error e → ∀ digits, e.fault ≠ .longInt digits

/-- A file that holds a text is loaded, or has a problem, if its integers are short. -/
theorem load_of_content {bytes : ByteArray} {content : String} (held : d.readBytes p = .ok bytes)
    (decoded : textOfBytes bytes = .ok content) (short : ShortIntegers content) {h : Halt}
    (unloaded : load d p = .error h) : ∃ e, h = .schema e := by
  rw [load, held] at unloaded
  dsimp only at unloaded
  rw [decoded] at unloaded
  dsimp only at unloaded
  unfold SchemaFile.parse at unloaded
  split at unloaded
  · next long => exact absurd rfl (short _ long _)
  · exact ⟨_, (Except.error.inj unloaded).symm⟩
  · cases unloaded
  · exact ⟨_, (Except.error.inj unloaded).symm⟩

/-- A path that reads the same on another disk has the same turn there. -/
theorem taken_congr (same : d'.readBytes p = d.readBytes p) :
    Taken options d' p ↔ Taken options d p := by
  rw [taken_iff, taken_iff, fragment, fragment, SchemaFile.normalizedFor_congr same]

/-! ## What one more file adds -/

/-- What the file of a name adds to a document: what it contributes, if it is a schema file by its
name. -/
def addition (options : Options) (d : Disk) (name : String) : Fragment :=
  if Path.suffix name = schemaSuffix then
    (Fragment.at? options d (options.schemaDir.child name)).getD ⟨[], []⟩
  else ⟨[], []⟩

/-- The paths of a name that is that of a schema file. -/
def newPaths (dir : Path) (name : String) : List Path :=
  if Path.suffix name = schemaSuffix then [dir.child name] else []

/-- The addition is overlaid on what the other files contribute. -/
theorem overlaid_addition {part : Fragment → Fields Json} (empty : part ⟨[], []⟩ = [])
    (nodup : ∀ p f, Fragment.at? options d p = some f → (part f).names.Nodup)
    (before after : List Path) (first : Fields Json) :
    Fields.Overlaid
      (((before ++ after).filterMap fun p => (Fragment.at? options d p).map part).foldl
        Fields.merge first)
      (part (addition options d name))
      (((before ++ newPaths options.schemaDir name ++ after).filterMap fun p =>
        (Fragment.at? options d p).map part).foldl Fields.merge first) := by
  rw [addition, newPaths]
  split
  · cases found : Fragment.at? options d (options.schemaDir.child name) with
    | none =>
      simp only [List.filterMap_append, List.filterMap_cons, found, Option.map_none,
        List.filterMap_nil, List.append_nil, Option.getD_none, empty]
      exact Fields.overlaid_nil _
    | some f =>
      simp only [List.filterMap_append, List.filterMap_cons, found, Option.map_some,
        List.append_assoc, List.cons_append, List.nil_append, Option.getD_some]
      refine Fields.overlaid_foldl (fun fs mem => ?_) first
      have wrote : ∃ p g, Fragment.at? options d p = some g ∧ part g = fs := by
        simp only [List.mem_append, List.mem_cons, List.mem_filterMap,
          Option.map_eq_some_iff] at mem
        rcases mem with ⟨p, -, g, h, same⟩ | rfl | ⟨p, -, g, h, same⟩
        · exact ⟨p, g, h, same⟩
        · exact ⟨_, f, found, rfl⟩
        · exact ⟨p, g, h, same⟩
      obtain ⟨p, g, h, rfl⟩ := wrote
      exact nodup p g h
  · rw [empty, List.append_nil]
    exact Fields.overlaid_nil _

/-! ## Documents with one more file -/

/-- The entries of a fragment that a document holds have the shapes they should. -/
structure EntriesFit (document : Document) (f : Fragment) : Prop where
  paths : ∀ route v, f.paths.get? route = some v → document.paths.get? route = some v → FitsPath v
  schemas : ∀ name v, f.schemas.get? name = some v → document.schemas.get? name = some v →
    FitsSchema v

theorem entriesFit_nil (document : Document) : EntriesFit document ⟨[], []⟩ where
  paths _ _ absent := by cases absent
  schemas _ _ absent := by cases absent

/-- Where entries are overlaid on others that fit, all fit if the new ones among them do. -/
theorem fits_iff_of_overlaid {fits : Json → Prop} {old new now : Fields Json}
    (overlaid : Fields.Overlaid old new now) (nodup : now.names.Nodup)
    (fit : ∀ e ∈ old, fits e.2) :
    (∀ e ∈ now, fits e.2) ↔
      ∀ name v, new.get? name = some v → now.get? name = some v → fits v := by
  constructor
  · intro all name v _ held
    exact all _ (Fields.mem_of_get? held)
  · intro new ⟨name, v⟩ mem
    have held := Fields.get?_of_mem nodup mem
    rcases overlaid.value name v held with before | added
    · exact fit _ (Fields.mem_of_get? before)
    · exact new name v added held

theorem nodup_foldl_merge {writes : List (Fields Json)} {first : Fields Json}
    (nodup : first.names.Nodup) : (writes.foldl Fields.merge first).names.Nodup :=
  List.foldlRecOn writes Fields.merge (motive := fun fs => fs.names.Nodup) nodup
    fun _ holds new _ => Fields.nodup_merge holds new

variable {before after : List Path}

/-- The second document is the first one with a fragment overlaid on its entries. -/
structure Joined (old : Document) (f : Fragment) (now : Document) : Prop where
  bare : now.bare = old.bare
  paths : Fields.Overlaid old.paths f.paths now.paths
  schemas : Fields.Overlaid old.schemas f.schemas now.schemas
  nodup_paths : now.paths.names.Nodup
  nodup_schemas : now.schemas.names.Nodup

/-- The document of all files is that of the others with the addition of one overlaid. -/
theorem joined_afterAll (options : Options) (d : Disk) (name : String) (before after : List Path) :
    Joined (afterAll options d { document := options.start } (before ++ after)).document
      (addition options d name)
      (afterAll options d { document := options.start }
        (before ++ newPaths options.schemaDir name ++ after)).document := by
  rw [document_afterAll, document_afterAll]
  exact ⟨rfl, overlaid_addition rfl (fun _ _ found => (Fragment.nodup_of_at? found).1) _ _ _,
    overlaid_addition rfl (fun _ _ found => (Fragment.nodup_of_at? found).2) _ _ _,
    nodup_foldl_merge List.nodup_nil, nodup_foldl_merge List.nodup_nil⟩

/-- A document that joins a checked one and a fragment is checked by the entries of the fragment. -/
theorem Joined.findings_iff {old now : Document} {f : Fragment} (joined : Joined old f now)
    (sound : OpenApi.findings old.toJson = []) :
    OpenApi.findings now.toJson = [] ↔ EntriesFit now f := by
  obtain ⟨head, oldPaths, oldSchemas⟩ := old.findings_toJson.1 sound
  rw [now.findings_toJson, joined.bare,
    fits_iff_of_overlaid joined.paths joined.nodup_paths oldPaths,
    fits_iff_of_overlaid joined.schemas joined.nodup_schemas oldSchemas]
  exact ⟨fun ⟨_, fits, fits'⟩ => ⟨fits, fits'⟩, fun ⟨fits, fits'⟩ => ⟨head, fits, fits'⟩⟩

theorem mem_newPaths {dir : Path} (new : p ∈ newPaths dir name) : p = dir.child name := by
  rw [newPaths] at new
  split at new
  · exact List.mem_singleton.1 new
  · cases new

/-- A run with one more file, whose turn is taken, takes all its turns: it compiles what was
compiled, and joins the addition to the document. -/
theorem ofFiles_with_new {c : Compilation}
    (ran : (ofFiles options options.start d (before ++ after)).result = .ok c)
    (some : c.compiled ≠ [])
    (same : ∀ p ∈ before ++ after, d'.readBytes p = d.readBytes p)
    (new : Taken options d' (options.schemaDir.child name)) :
    ∃ c', (ofFiles options options.start d'
        (before ++ newPaths options.schemaDir name ++ after)).result = .ok c' ∧
      (∀ p ∈ c.compiled, p ∈ c'.compiled) ∧
      Joined c.document (addition options d' name) c'.document := by
  obtain ⟨taken, one, rfl⟩ := ofFiles_eq_ok.1 ran
  have at?_eq : ∀ p ∈ before ++ after, Fragment.at? options d' p = Fragment.at? options d p := by
    intro p mem
    rw [Fragment.at?, Fragment.at?, same p mem]
  have amid (p : Path) : p ∈ before ++ newPaths options.schemaDir name ++ after ↔
      p ∈ before ++ after ∨ p ∈ newPaths options.schemaDir name := by
    rw [List.mem_append, List.mem_append, List.mem_append, or_right_comm]
  have taken' : ∀ p ∈ before ++ newPaths options.schemaDir name ++ after, Taken options d' p := by
    intro p mem
    rcases (amid p).1 mem with old | isNew
    · exact (taken_congr (same p old)).2 (taken p old)
    · rwa [mem_newPaths isNew]
  obtain ⟨q, mem, compiles⟩ : ∃ q ∈ before ++ after, (Fragment.at? options d q).isSome := by
    refine one.resolve_left fun none => some ?_
    rw [none]
    rfl
  -- the document of the old files is the same on both disks
  have unchanged : (afterAll options d' { document := options.start } (before ++ after)).document =
      (afterAll options d { document := options.start } (before ++ after)).document := by
    have part (g : Fragment → Fields Json) :
        ((before ++ after).filterMap fun p => (Fragment.at? options d' p).map g) =
          (before ++ after).filterMap fun p => (Fragment.at? options d p).map g :=
      List.filterMap_congr fun p mem => by rw [at?_eq p mem]
    rw [document_afterAll, document_afterAll, part, part]
  have joined := joined_afterAll options d' name before after
  rw [unchanged] at joined
  refine ⟨_, ofFiles_eq_ok.2 ⟨taken', .inr ⟨q, (amid q).2 (.inl mem), ?_⟩, rfl⟩, ?_, joined⟩
  · rw [at?_eq q mem]
    exact compiles
  · intro p compiled
    simp only [afterAll, List.nil_append, List.mem_filter] at compiled ⊢
    exact ⟨(amid p).2 (.inl compiled.1), by rw [at?_eq p compiled.1]; exact compiled.2⟩

/-- A file of the name can be added to the directory of the schemas, which stands at `l`: it is
new there, its path leads there, and a run needs no directory in its place. -/
structure Addable (options : Options) (d : Disk) (l : Location) (name : String) : Prop where
  leads : d.locate options.schemaDir = .ok l
  fresh : d.find? (l ++ [name]) = none
  reach : d.locate (options.schemaDir.child name) = .ok (l ++ [name])
  free : (ofDirectory options d).disk.find? (l ++ [name]) ≠ some .directory

/-- The schema files that are found with one more file, and what they read. -/
theorem find_of_addable {paths : List Path} (addable : Addable options d l name)
    (found : (find d options.schemaDir).result = .ok paths) (bytes : ByteArray) :
    let d' := d.set (l ++ [name]) (.file bytes)
    ∃ before after, paths = before ++ after ∧
      (find d' options.schemaDir).result =
        .ok (before ++ newPaths options.schemaDir name ++ after) ∧
      (∀ p ∈ paths, d'.readBytes p = d.readBytes p) ∧
      d'.readBytes (options.schemaDir.child name) = .ok bytes := by
  intro d'
  have extended : Disk.Extended (l ++ [name]) d d' :=
    .set_file (by rw [addable.fresh]; nofun) bytes
  obtain ⟨before, after, split, found'⟩ :=
    find_set_file found addable.leads addable.fresh addable.reach bytes
  refine ⟨before, after, split, found', ?_, ?_⟩
  · refine readBytes_of_elsewhere (.refl _ d) extended ?_ found
    intro l' n leads listed _ here
    obtain rfl := Except.ok.inj (addable.leads.symm.trans leads)
    obtain ⟨e, there⟩ := Disk.find?_of_listed listed
    rw [here, addable.fresh] at there
    cases there
  · refine Disk.readBytes_eq_ok.2 ⟨_, extended.toGrown.locate addable.reach, ?_⟩
    rw [Disk.find?_set d _ _ (by simp), if_pos rfl]

/-- Where a run could write its document, any document that is finished can be written with one
more file. -/
theorem writeDocument_beside {place : Location} {document document' : Document} {out : Path}
    (finished : (writeDocument options d document).result = .ok out)
    (free : (writeDocument options d document).disk.find? place ≠ some .directory)
    (beside : Disk.Beside place d d') :
    (∀ v, document'.finish = .ok v → (writeDocument options d' document').result = .ok out ∧
      (writeDocument options d' document').disk.readBytes options.outputPath =
        .ok (Yaml.document v).toUTF8) ∧
    ∀ problem, document'.finish = .error problem →
      (writeDocument options d' document').result = .error (.schema ⟨problem, none⟩) := by
  obtain ⟨between, v, last, made, sound, written⟩ := writeDocument_eq_ok finished
  rw [writeDocument_of_written made sound written] at finished free
  obtain rfl : options.outputPath = out := Except.ok.inj finished
  obtain ⟨_, -, extended, -⟩ := Disk.writeText_eq_ok written
  obtain ⟨between', made', beside'⟩ := beside.makeDirectories made fun directory =>
    free (Disk.kind_eq_directory.1 (extended.kind_directory directory))
  constructor
  · intro v' sound'
    obtain ⟨last', written', held⟩ := beside'.writeText written (Yaml.document v')
    rw [writeDocument_of_written made' sound' written']
    exact ⟨rfl, held⟩
  · intro problem failed
    rw [writeDocument, made']
    dsimp only
    rw [failed]

theorem Addable.beside (addable : Addable options d l name) (bytes : ByteArray) :
    Disk.Beside (l ++ [name]) d (d.set (l ++ [name]) (.file bytes)) where
  home := rfl
  elsewhere k other := by rw [Disk.kind_set d _ (by simp), if_neg other]
  file := by rw [Disk.kind_set d _ (by simp), if_pos rfl]; rfl
  free := by rw [Disk.kind_eq_none.2 addable.fresh]; nofun

/-- What a run over the directory gives with one more file. -/
theorem ofDirectory_of_addable {c : Compilation} {out : Path} {bytes : ByteArray} {content : String}
    (finished : (ofDirectory options d).result = .ok (c, out)) (some : c.compiled ≠ [])
    (addable : Addable options d l name) (decoded : textOfBytes bytes = .ok content)
    (short : ShortIntegers content) (plain : Json.Plain content)
    (isNew : d' = d.set (l ++ [name]) (.file bytes)) :
    ∃ paths c', (find d' options.schemaDir).result = .ok paths ∧
      (ofFiles options options.start d' paths).result = .ok c' ∧
      (∀ p ∈ c.compiled, p ∈ c'.compiled) ∧
      Joined c.document (addition options d' name) c'.document ∧
      (EntriesFit c'.document (addition options d' name) →
        (ofDirectory options d').result = .ok (c', out) ∧
        (ofDirectory options d').disk.readBytes options.outputPath =
          .ok (Yaml.document c'.document.toJson).toUTF8) ∧
      (¬ EntriesFit c'.document (addition options d' name) →
        ∃ count place first, (ofDirectory options d').result =
          .error (.schema ⟨.badDocument count place first, none⟩)) := by
  obtain ⟨paths, found, ran, written⟩ := ofDirectory_eq_ok finished
  have free := addable.free
  rw [(ofDirectory_of_ran found ran).1] at free
  obtain ⟨before, after, rfl, found', same, held⟩ := find_of_addable addable found bytes
  have beside := addable.beside bytes
  rw [← isNew] at found' same held beside
  have unspoilt := (SchemaFile.HoldsPlain.of_content held decoded plain).not_spoils
  have new := (taken_iff_load (unspoilt options.writeNormalized)).2 fun _ =>
    load_of_content held decoded short
  obtain ⟨c', ran', compiled, joined⟩ := ofFiles_with_new ran some same new
  have sound : OpenApi.findings c.document.toJson = [] := by
    obtain ⟨_, _, _, _, finish, _⟩ := writeDocument_eq_ok written
    rcases Document.finish_eq c.document with ⟨sound, -⟩ | ⟨-, _, _, _, failed⟩
    · exact sound
    · cases failed.symm.trans finish
  obtain ⟨passes, fails⟩ :=
    writeDocument_beside written free (beside_ofFiles beside options.start (before ++ after) _)
  obtain ⟨disk, result⟩ := ofDirectory_of_ran found' ran'
  refine ⟨_, c', found', ran', compiled, joined, ?_⟩
  rw [← joined.findings_iff sound, disk, result]
  rcases Document.finish_eq c'.document with
    ⟨sound', finish⟩ | ⟨faulty, count, place, first, finish⟩
  · obtain ⟨wrote, reads⟩ := passes _ finish
    rw [wrote]
    exact ⟨fun _ => ⟨rfl, reads⟩, fun faulty => absurd sound' faulty⟩
  · rw [fails _ finish]
    exact ⟨fun sound' => absurd sound' faulty, fun _ => ⟨count, place, first, rfl⟩⟩

/-- **One more file does not take the others down.** Whatever plain text it holds, JSON or not, as
long as its integers are short, all files that were compiled still are, and the document has every
key that it had, with its value unless the new file contributes the key. The run gives the document,
and writes it, exactly if the entries that come from the new file have the shapes of an API
description; else the check of the document fails. -/
theorem ofDirectory_oneMore {c : Compilation} {out : Path} {bytes : ByteArray} {content : String}
    (finished : (ofDirectory options d).result = .ok (c, out)) (some : c.compiled ≠ [])
    (addable : Addable options d l name) (decoded : textOfBytes bytes = .ok content)
    (short : ShortIntegers content) (plain : Json.Plain content) :
    let d' := d.set (l ++ [name]) (.file bytes)
    let f := addition options d' name
    ∃ paths c', (find d' options.schemaDir).result = .ok paths ∧
      (ofFiles options options.start d' paths).result = .ok c' ∧
      (∀ p ∈ c.compiled, p ∈ c'.compiled) ∧
      Fields.Overlaid c.document.paths f.paths c'.document.paths ∧
      Fields.Overlaid c.document.schemas f.schemas c'.document.schemas ∧
      (EntriesFit c'.document f →
        (ofDirectory options d').result = .ok (c', out) ∧
        (ofDirectory options d').disk.readBytes options.outputPath =
          .ok (Yaml.document c'.document.toJson).toUTF8) ∧
      (¬ EntriesFit c'.document f → ∃ count place first, (ofDirectory options d').result =
        .error (.schema ⟨.badDocument count place first, none⟩)) := by
  intro d' f
  obtain ⟨paths, c', found, ran, compiled, joined, checked⟩ :=
    ofDirectory_of_addable finished some addable decoded short plain rfl
  exact ⟨paths, c', found, ran, compiled, joined.paths, joined.schemas, checked⟩

/-! ## A shop with one more file -/

theorem ofDirectory_shop : ∃ bytes,
    (ofDirectory shopOptions shopDisk).result = .ok (shopCompilation, shopOptions.outputPath) ∧
    (ofDirectory shopOptions shopDisk).disk =
      shopNormal.set ["shop", "openapi.gen.yaml"] (.file bytes) := by
  obtain ⟨ran, normal⟩ := ofFiles_shop
  obtain ⟨disk, result⟩ := ofDirectory_of_ran find_shop ran
  obtain ⟨v, sound⟩ : ∃ v, shopCompilation.document.finish = .ok v := ⟨_, rfl⟩
  have written : writeDocument shopOptions shopNormal shopCompilation.document = _ :=
    writeDocument_of_written (Disk.makeDirectories_of_directory rfl) sound rfl
  rw [normal, written] at disk result
  exact ⟨_, result, disk⟩

/-- A name that nothing in the shop has, before or after a run, is free for a file. -/
theorem addable_shop
    (reach : shopDisk.locate (shopOptions.schemaDir.child name) = .ok ["shop", name])
    (fresh : shopDisk.find? ["shop", name] = none) (other : name ≠ "openapi.gen.yaml") :
    Addable shopOptions shopDisk ["shop"] name where
  leads := rfl
  fresh := fresh
  reach := reach
  free := by
    obtain ⟨bytes, -, disk⟩ := ofDirectory_shop
    have elsewhere : ["shop", name] ≠ ["shop", "openapi.gen.yaml"] := by simp [other]
    have file : ["shop", name] ≠ ["shop", "order.json"] := by
      rintro same
      rw [same] at fresh
      cases fresh
    rw [disk, Disk.find?_set _ _ _ (by decide), List.singleton_append, if_neg elsewhere, shopNormal,
      Disk.find?_set _ _ _ (by decide), if_neg file, fresh]
    simp

/-- A file that is no JSON has nothing to add. -/
theorem ofDirectory_oneMore_shop : ∃ c,
    (ofDirectory shopOptions (shopDisk.set ["shop", "broken.json"] (.file "\x7b".toUTF8))).result =
      .ok (c, shopOptions.outputPath) ∧ shopPath ∈ c.compiled := by
  have decoded : textOfBytes "\x7b".toUTF8 = .ok "\x7b" :=
    SchemaFile.textOfBytes_toUTF8 (by decide)
  have unread (half : Char) : Json.readWith half "\x7b" = .error ⟨.expectingName, 1, 2⟩ := rfl
  have short : ShortIntegers "\x7b" := by
    intro e failed digits
    cases (unread '\ufffd').symm.trans failed
    simp
  have plain : Json.Plain "\x7b" :=
    ⟨fun half => (unread half).trans (unread '\ufffd').symm, by decide⟩
  have empty : addition shopOptions (shopDisk.set ["shop", "broken.json"] (.file "\x7b".toUTF8))
      "broken.json" = ⟨[], []⟩ := by
    have held : (shopDisk.set ["shop", "broken.json"] (.file "\x7b".toUTF8)).readBytes
        (shopOptions.schemaDir.child "broken.json") = .ok "\x7b".toUTF8 := rfl
    have nothing : Fragment.ofBytes? shopOptions "\x7b".toUTF8 = none := by
      rw [Fragment.ofBytes?, decoded]
      rfl
    rw [addition, if_pos (by decide), Fragment.at?, held]
    rw [Except.toOption, Option.bind_some, nothing]
    rfl
  have addable : Addable shopOptions shopDisk ["shop"] "broken.json" :=
    addable_shop rfl rfl (by decide)
  obtain ⟨bytes, finished, -⟩ := ofDirectory_shop
  obtain ⟨paths, c, -, -, compiled, -, -, fits, -⟩ :=
    ofDirectory_oneMore finished (List.cons_ne_nil _ _) addable decoded short plain
  rw [List.singleton_append, empty] at fits
  exact ⟨c, (fits (entriesFit_nil _)).1, compiled _ List.mem_cons_self⟩

/-- A resource with a property whose type is none of an API description. -/
def statusSchema : Fields Json := [
  ("x-documentConfig", .obj [("documentName", .str "Status"), ("interfaceName", .str "Status"),
    ("methods", .arr [.str "get"])]),
  ("type", .str "object"),
  ("properties", .obj [("state", .obj [("type", .str "enum")])])]

def statusNormal : Fields Json := statusSchema ++ [("required", .arr [])]

theorem normalForm_status : normalForm statusSchema = .ok statusNormal := rfl

/-- The resource registers a schema that does not have the shape of one. -/
theorem resource_status : ∃ r, Resource.ofSchema statusNormal = .ok r ∧
    ∃ v, (r.fragment shopOptions).schemas.get? "getStatusResponse" = some v ∧ ¬ FitsSchema v :=
  ⟨_, rfl, _, rfl, by decide⟩

theorem shortIntegers_text {schema : Fields Json} (storable : (Json.obj schema).Storable) :
    ShortIntegers (SchemaFile.text schema) := by
  intro e failed
  rw [SchemaFile.text, Json.read_indented storable] at failed
  cases failed

/-- The shop is compiled until a file with such a property is added. The file compiles, but what it
adds to the document does not have the shape of a schema. -/
theorem ofDirectory_taken_down :
    (∃ c out, (ofDirectory shopOptions shopDisk).result = .ok (c, out) ∧ c.compiled ≠ []) ∧
    shopDisk.find? ["shop", "status.json"] = none ∧
    ∃ count place first, (ofDirectory shopOptions (shopDisk.set ["shop", "status.json"]
      (.file (SchemaFile.text statusSchema).toUTF8))).result =
        .error (.schema ⟨.badDocument count place first, none⟩) := by
  obtain ⟨bytes, finished, -⟩ := ofDirectory_shop
  have compiles : shopCompilation.compiled ≠ [] := List.cons_ne_nil _ _
  refine ⟨⟨_, _, finished, compiles⟩, rfl, ?_⟩
  have storable : (Json.obj statusSchema).Storable := rfl
  generalize isNew : shopDisk.set ["shop", "status.json"]
    (.file (SchemaFile.text statusSchema).toUTF8) = d'
  obtain ⟨r, read, v, placed, unfit⟩ := resource_status
  have held : d'.readBytes (shopOptions.schemaDir.child "status.json") =
      .ok (SchemaFile.text statusSchema).toUTF8 := by
    rw [← isNew]
    rfl
  have contributed : Fragment.at? shopOptions d' (shopOptions.schemaDir.child "status.json") =
      some (r.fragment shopOptions) := by
    rw [← SchemaFile.fragment_eq_ok, SchemaFile.fragment_of_text storable held normalForm_status,
      Resource.fragment_eq, read]
    rfl
  have addable : Addable shopOptions shopDisk ["shop"] "status.json" :=
    addable_shop rfl rfl (by decide)
  obtain ⟨_, c, -, -, -, joined, -, fails⟩ := ofDirectory_of_addable finished compiles addable
    (SchemaFile.textOfBytes_toUTF8 (SchemaFile.noReturn_text statusSchema))
    (shortIntegers_text storable) (SchemaFile.plain_text storable (by decide)) isNew.symm
  have adds : addition shopOptions d' "status.json" = r.fragment shopOptions := by
    rw [addition, if_pos (by decide), contributed, Option.getD_some]
  rw [adds] at joined fails
  refine fails fun fit => unfit (fit.schemas _ v placed ?_)
  -- the shop had no such schema before
  obtain ⟨w, there⟩ := joined.schemas.added _ v placed
  rcases joined.schemas.value _ w there with before | new
  · cases before
  · rw [there, ← new, placed]

end Compilation
end ResourceApi
