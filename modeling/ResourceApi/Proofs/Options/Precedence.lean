import Mathlib.Tactic.MkIffOfInductiveProp
import Mathlib.Tactic.Tauto
import ResourceApi.Options.File
import ResourceApi.Proofs.Json.FieldLaws
import ResourceApi.Proofs.Results

/-! # Which source an option comes from

An option can stand apart from the file, in the file under either of its spellings and, if it
is the one about identifiers, in the section of older files. `ReadFrom` says what options the
settings of a file give, each from the source that counts, and `load` is that, with the
directories of the file placed and the options given apart put over it. -/

namespace ResourceApi

open Results

variable {α : Type}

/-- The value under the first of some names that is there. -/
def Fields.firstOf (fields : Fields α) (spellings : List String) : Option α :=
  spellings.findSome? fields.get?

/-- What a setting gives: the value that is read from it, and one of its own if it is not there. -/
def Setting.Gives (read : Setting → Except Fault α) (absent : α) : Option Setting → α → Prop
  | none, a => a = absent
  | some s, a => read s = .ok a

/-- What the setting of the `info` block gives. -/
def ApiInfo.GivenBy (info : ApiInfo) : Option Setting → Prop
  | none => info = {}
  | some (.scalar _) => False
  | some (.map inner) =>
    let absent : ApiInfo := {}
    Setting.Gives Setting.readText absent.title (Fields.get? inner "title") info.title ∧
    Setting.Gives Setting.readText absent.description (Fields.get? inner "description")
      info.description ∧
    Setting.Gives Setting.readText absent.version (Fields.get? inner "version") info.version

namespace Options

/-- The identifier option in the section of older files. -/
def sectionIdentifier? (settings : Fields Setting) : Option Setting :=
  match settings.get? sectionKey with
  | some (.map inner) => Fields.get? inner identifierKey
  | _ => none

/-- Where the identifier option is looked for in a file. The section comes between the two
spellings, for what it holds stands in for the first of them. -/
def identifier? (settings : Fields Setting) : Option Setting :=
  ((settings.get? "allowApiCreateUpdate_id").or (sectionIdentifier? settings)).or
    (settings.get? "allow_api_create_update_id")

/-- The options that settings give, each from the source that counts and its default if there is
none; `identifier` is the source of the identifier option. -/
@[mk_iff]
structure ReadFrom (settings : Fields Setting) (identifier : Option Setting) (o : Options) :
    Prop where
  schemaDir : Setting.Gives Setting.readPath ⟨.here, ["jsonSchema"]⟩
    (settings.firstOf ["jsonSchemaDir", "json_schema_dir"]) o.schemaDir
  outputDir : Setting.Gives Setting.readPath ⟨.here, ["openapi"]⟩
    (settings.firstOf ["openapiDir", "openapi_dir"]) o.outputDir
  outputFile : Setting.Gives Setting.readText "openapi.gen.yaml"
    (settings.firstOf ["openapiFile", "openapi_file"]) o.outputFile
  allowIdentifier : Setting.Gives Setting.readBool false identifier o.allowIdentifier
  routePrefix : Setting.Gives Setting.readText ""
    (settings.firstOf ["routePrefix", "route_prefix"]) o.routePrefix
  writeNormalized : Setting.Gives Setting.readBool true
    (settings.firstOf ["writeNormalized", "write_normalized"]) o.writeNormalized
  info : o.info.GivenBy (settings.get? "info")

/-- Where a directory lies: one that a file gives lies in the folder of the file, unless it starts
at a root. -/
def placed (folder : Path) (source : Option Setting) (dir : Path) : Path :=
  if source.isSome && !dir.isAbsolute then folder.join dir else dir

/-- The settings that the file at `path` holds. -/
def settingsAt (d : Disk) (path : Path) : Except OptionsProblem (Fields Setting) := do
  let bytes ← (d.readBytes path).mapError OptionsProblem.unreadable
  let text ← (textOfBytes bytes).mapError OptionsProblem.notUnicode
  settingsOfText path text

end Options

/-! ## What is read from settings -/

namespace Fields

theorem firstOf_singleton (fields : Fields α) (name : String) :
    fields.firstOf [name] = fields.get? name := by
  rw [firstOf, List.findSome?_singleton]

theorem firstOf_pair (fields : Fields α) (first second : String) :
    fields.firstOf [first, second] = (fields.get? first).or (fields.get? second) := by
  rw [firstOf, List.findSome?_cons, List.findSome?_singleton]
  cases fields.get? first <;> rfl

theorem firstOf_congr {fields fields' : Fields α} {spellings : List String}
    (same : ∀ name ∈ spellings, fields.get? name = fields'.get? name) :
    fields.firstOf spellings = fields'.firstOf spellings := by
  rw [firstOf, firstOf]
  induction spellings with
  | nil => rfl
  | cons name rest ih =>
    rw [List.forall_mem_cons] at same
    rw [List.findSome?_cons, List.findSome?_cons, same.1, ih same.2]

theorem isSome_firstOf (fields : Fields α) (spellings : List String) :
    (fields.firstOf spellings).isSome = spellings.any fields.has := by
  rw [firstOf, List.isSome_findSome?]
  rfl

end Fields

namespace Checked

variable {c : Checked α} {fields : Fields Setting} {spellings : List String} {absent a : α}
  {read : Setting → Except Fault α}

theorem toExcept_eq_ok : c.toExcept = .ok a ↔ c.value = a ∧ c.findings = [] := by
  rw [toExcept]
  cases c.findings with
  | nil => simp
  | cons f rest => simp

theorem field_eq_ok :
    (field fields spellings absent read).toExcept = .ok a ↔
      Setting.Gives read absent (fields.firstOf spellings) a := by
  have found : fields.firstOf spellings =
      (spellings.findSome? fun name => (fields.get? name).map (name, ·)).map (·.2) := by
    rw [List.map_findSome?, Fields.firstOf]
    congr 1
    funext name
    rw [Function.comp_apply, Option.map_map]
    exact Option.map_id'.symm
  rw [toExcept_eq_ok, found, field]
  cases spellings.findSome? fun name => (fields.get? name).map (name, ·) with
  | none => simp [Setting.Gives, eq_comm]
  | some there =>
    obtain ⟨name, s⟩ := there
    cases result : read s with
    | ok b => simp [Setting.Gives, result]
    | error f => simp [Setting.Gives, result]

end Checked

namespace ApiInfo

variable {fields : Fields Setting} {info : ApiInfo}

theorem ofFields_eq_ok :
    (ofFields fields).toExcept = .ok info ↔ info.GivenBy (some (.map fields)) := by
  simp only [GivenBy, ← Fields.firstOf_singleton, ← Checked.field_eq_ok]
  obtain ⟨title, description, version⟩ := info
  simp only [Checked.toExcept_eq_ok, ofFields, ApiInfo.mk.injEq, List.append_eq_nil_iff]
  tauto

theorem ofField_eq_ok :
    (ofField fields).toExcept = .ok info ↔ info.GivenBy (fields.get? "info") := by
  rw [ofField]
  cases fields.get? "info" with
  | none => rw [Checked.toExcept_eq_ok, GivenBy, and_iff_left rfl, eq_comm]
  | some s =>
    cases s with
    | scalar => simp [Checked.toExcept_eq_ok, GivenBy]
    | map inner =>
      rw [← ofFields_eq_ok, Checked.toExcept_eq_ok, Checked.toExcept_eq_ok, List.map_eq_nil_iff]

end ApiInfo

namespace Options

variable {settings : Fields Setting} {o : Options}

theorem ofFields_eq_ok :
    (ofFields settings).toExcept = .ok o ↔ ReadFrom settings
      (settings.firstOf ["allowApiCreateUpdate_id", "allow_api_create_update_id"]) o := by
  rw [readFrom_iff]
  simp only [← Checked.field_eq_ok, ← ApiInfo.ofField_eq_ok]
  obtain ⟨schemaDir, outputDir, outputFile, allowIdentifier, routePrefix, writeNormalized, info⟩ := o
  simp only [Checked.toExcept_eq_ok, ofFields, Options.mk.injEq, List.append_eq_nil_iff]
  tauto

/-! ## The section of older files -/

theorem liftSection_eq (settings : Fields Setting) :
    liftSection settings =
      match sectionIdentifier? settings with
      | some s =>
        if (settings.erase sectionKey).has identifierKey then settings.erase sectionKey
        else (settings.erase sectionKey).put identifierKey s
      | none => settings.erase sectionKey := by
  rw [liftSection, sectionIdentifier?]
  cases settings.get? sectionKey with
  | none => rfl
  | some s =>
    cases s with
    | scalar => rfl
    | map inner => rfl

/-- The section decides nothing but the identifier option. -/
theorem get?_liftSection {name : String} (isNoSection : name ≠ sectionKey)
    (isOther : name ≠ identifierKey) (settings : Fields Setting) :
    (liftSection settings).get? name = settings.get? name := by
  rw [liftSection_eq]
  split
  · split
    · exact Fields.get?_erase_of_ne isNoSection.symm settings
    · rw [Fields.get?_put_of_ne isOther.symm, Fields.get?_erase_of_ne isNoSection.symm]
  · exact Fields.get?_erase_of_ne isNoSection.symm settings

/-- The section stands in for the first spelling of the identifier option. -/
theorem get?_liftSection_identifier (settings : Fields Setting) :
    (liftSection settings).get? identifierKey =
      (settings.get? identifierKey).or (sectionIdentifier? settings) := by
  have own : (settings.erase sectionKey).get? identifierKey = settings.get? identifierKey :=
    Fields.get?_erase_of_ne (by decide) settings
  rw [liftSection_eq]
  cases sectionIdentifier? settings with
  | none => rw [own, Option.or_none]
  | some s =>
    rw [Fields.has, own]
    cases there : settings.get? identifierKey with
    | none => exact Fields.get?_put_self ..
    | some t => exact own.trans there

theorem firstOf_liftSection {spellings : List String} (areNoSection : sectionKey ∉ spellings)
    (areOther : identifierKey ∉ spellings) (settings : Fields Setting) :
    (liftSection settings).firstOf spellings = settings.firstOf spellings := by
  refine Fields.firstOf_congr fun name mem => get?_liftSection ?_ ?_ settings
  · rintro rfl
    exact areNoSection mem
  · rintro rfl
    exact areOther mem

theorem firstOf_liftSection_identifier (settings : Fields Setting) :
    (liftSection settings).firstOf ["allowApiCreateUpdate_id", "allow_api_create_update_id"] =
      identifier? settings := by
  rw [Fields.firstOf_pair, identifier?, ← identifierKey, get?_liftSection_identifier,
    get?_liftSection (by decide) (by decide)]

theorem ofFields_liftSection :
    (ofFields (liftSection settings)).toExcept = .ok o ↔
      ReadFrom settings (identifier? settings) o := by
  rw [ofFields_eq_ok, firstOf_liftSection_identifier, readFrom_iff, readFrom_iff]
  simp (disch := decide) only [firstOf_liftSection, get?_liftSection]

/-! ## Where directories lie -/

theorem directoryFrom_eq (base : Path) (settings : Fields Setting) (keys : List String)
    (dir : Path) :
    directoryFrom base settings keys dir = placed base (settings.firstOf keys) dir := by
  rw [directoryFrom, placed, ← Fields.isSome_firstOf]
  cases settings.firstOf keys with
  | none => rfl
  | some s =>
    cases absolute : dir.isAbsolute with
    | false => rfl
    | true => simp [Path.join, absolute]

theorem ofSettings_eq_ok {path : Path} :
    ofSettings path settings = .ok o ↔ ∃ file, ReadFrom settings (identifier? settings) file ∧
      o = { file with
        schemaDir := placed path.parent
          (settings.firstOf ["jsonSchemaDir", "json_schema_dir"]) file.schemaDir
        outputDir := placed path.parent
          (settings.firstOf ["openapiDir", "openapi_dir"]) file.outputDir } := by
  simp only [← ofFields_liftSection]
  rw [ofSettings]
  simp (disch := decide) only [directoryFrom_eq, schemaDirKeys, outputDirKeys, firstOf_liftSection]
  cases (ofFields (liftSection settings)).toExcept with
  | error findings => simp
  | ok file => simp [eq_comm]

/-- An old file that was given the option outside the section too, in the second spelling: the
section is what counts. Of the two directories, the one in the first spelling is. -/
example : ofSettings ⟨.here, ["conf", "options.yaml"]⟩
    [("openapi_dir", .scalar (.text "/old")), ("openapiDir", .scalar (.text "out")),
      ("allow_api_create_update_id", .scalar (.bool false)),
      ("app", .map [("allowApiCreateUpdate_id", .scalar (.bool true))])] =
    .ok { outputDir := ⟨.here, ["conf", "out"]⟩, allowIdentifier := true } := rfl

/-! ## All sources -/

theorem load_eq_ok {d : Disk} {path : Path} {given : Overrides} :
    load d path given = .ok o ↔ ∃ settings file, settingsAt d path = .ok settings ∧
      ofSettings path settings = .ok file ∧ file.override given = o := by
  simp only [load, settingsAt, bind_eq_ok, pure, Except.pure, Except.ok.injEq]
  constructor
  · rintro ⟨bytes, isRead, text, isText, settings, isMap, file, isFile, rfl⟩
    exact ⟨settings, file, ⟨bytes, isRead, text, isText, isMap⟩, isFile, rfl⟩
  · rintro ⟨settings, file, ⟨bytes, isRead, text, isText, isMap⟩, isFile, rfl⟩
    exact ⟨bytes, isRead, text, isText, settings, isMap, file, isFile, rfl⟩

/-- The section is the last source, except where it hides another value in the second spelling. -/
theorem identifier?_eq_iff (settings : Fields Setting) :
    identifier? settings = (settings.firstOf
        ["allowApiCreateUpdate_id", "allow_api_create_update_id"]).or
          (sectionIdentifier? settings) ↔
      (settings.get? "allowApiCreateUpdate_id").isSome ∨
        sectionIdentifier? settings = none ∨
        settings.get? "allow_api_create_update_id" = none ∨
        settings.get? "allow_api_create_update_id" = sectionIdentifier? settings := by
  rw [identifier?, Fields.firstOf_pair]
  cases settings.get? "allowApiCreateUpdate_id" with
  | some first => simp
  | none =>
    cases sectionIdentifier? settings with
    | none => simp
    | some s =>
      cases settings.get? "allow_api_create_update_id" with
      | none => simp
      | some second => simp [eq_comm]

/-- **An option comes from the first of its sources.** A file gives options if and only if it holds
settings that can all be read. Each option is then the one given apart from the file, if there is
one; else the one that the file has under the first spelling, or under the second if the first is
not there; else its default. Directories of the file are seen from its folder. The section of older
files has the identifier option for files that do not give it otherwise, but it goes before the
second spelling too, so that it is the last source exactly where the first spelling is there, the
section or the second spelling is not, or these two say the same. -/
theorem load_precedence (d : Disk) (path : Path) (given : Overrides) :
    (∀ o, load d path given = .ok o ↔
      ∃ settings file, settingsAt d path = .ok settings ∧
        ReadFrom settings (identifier? settings) file ∧
        o = {
          schemaDir := given.schemaDir.getD (placed path.parent
            (settings.firstOf ["jsonSchemaDir", "json_schema_dir"]) file.schemaDir)
          outputDir := given.outputDir.getD (placed path.parent
            (settings.firstOf ["openapiDir", "openapi_dir"]) file.outputDir)
          outputFile := given.outputFile.getD file.outputFile
          allowIdentifier := given.allowIdentifier.getD file.allowIdentifier
          routePrefix := given.routePrefix.getD file.routePrefix
          writeNormalized := given.writeNormalized.getD file.writeNormalized
          info := given.info.getD file.info }) ∧
    ∀ settings,
      identifier? settings = (settings.firstOf
          ["allowApiCreateUpdate_id", "allow_api_create_update_id"]).or
            (sectionIdentifier? settings) ↔
        (settings.get? "allowApiCreateUpdate_id").isSome ∨
          sectionIdentifier? settings = none ∨
          settings.get? "allow_api_create_update_id" = none ∨
          settings.get? "allow_api_create_update_id" = sectionIdentifier? settings := by
  refine ⟨fun o => ?_, identifier?_eq_iff⟩
  simp only [load_eq_ok, ofSettings_eq_ok]
  constructor
  · rintro ⟨settings, _, isRead, ⟨file, isFile, rfl⟩, rfl⟩
    exact ⟨settings, file, isRead, isFile, rfl⟩
  · rintro ⟨settings, file, isRead, isFile, rfl⟩
    exact ⟨settings, _, isRead, ⟨file, isFile, rfl⟩, rfl⟩

end Options

end ResourceApi
