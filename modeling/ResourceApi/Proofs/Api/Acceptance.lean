import ResourceApi.Proofs.Api.Fragment
import ResourceApi.Proofs.Resource.ShapeFaults

/-! # Which schemas compile

A schema compiles exactly if its configuration can be read, its root is an object, every
node that is reached from the root has properties that are objects, and every method it
names is known. The conditions are looked at in this order, and the first that fails
decides what kind of problem there is. Whatever is checked again on the way from the
schema to the document has been settled before, so no other problem comes up. -/

namespace ResourceApi

open Results Required

/-! ## The conditions -/

/-- The value of a field that has two spellings: that of the first, if it is there. -/
def spelled (block : Fields Json) (camel snake : String) : Json :=
  ((block.get? camel).or (block.get? snake)).getD .null

/-- The methods that the block of a schema names. -/
def namedMethods (schema : Fields Json) : List String :=
  names ((((schema.get? "x-documentConfig").bind (·.field? "methods"))).getD .null)

/-- The first of the names that is no method's. -/
def firstUnknown (names : List String) : Option String :=
  names.find? fun name => !(Method.all.map Method.name).contains name

/-! ## Kinds of problem -/

/-- Whatever problem there is, it is of the kind. -/
def FailsAs {α : Type} (kind : ProblemKind) (x : Except Problem α) : Prop :=
  ∀ problem, x = .error problem → problem.kind = kind

namespace FailsAs

variable {α β : Type} {kind : ProblemKind}

theorem ok (a : α) : FailsAs kind (.ok a : Except Problem α) := nofun

theorem error {problem : Problem} (h : problem.kind = kind) :
    FailsAs kind (.error problem : Except Problem α) := by
  rintro _ ⟨⟩
  exact h

theorem bind {x : Except Problem α} {f : α → Except Problem β} (first : FailsAs kind x)
    (next : ∀ a, x = .ok a → FailsAs kind (f a)) : FailsAs kind (x >>= f) := by
  cases x with
  | error problem => exact error (first problem rfl)
  | ok a => exact next a rfl

theorem map {x : Except Problem α} (h : FailsAs kind x) (f : α → β) : FailsAs kind (x.map f) := by
  cases x with
  | error problem => exact error (h problem rfl)
  | ok a => exact ok _

end FailsAs

/-! ## Reading the configuration -/

namespace DocumentConfig

theorem text_eq_ok {path : List String} {v : Json} {s : String} :
    text path v = .ok s ↔ v = .str s := by
  cases v <;> simp [text, fault]

theorem texts_eq_ok {key : String} {items : List Json} {position : Nat} {found : List String} :
    texts key position items = .ok found ↔ items = found.map .str := by
  induction items generalizing position found with
  | nil => cases found <;> simp [texts]
  | cons v rest ih =>
    simp only [texts, bind_eq_ok, text_eq_ok, ih, pure, Except.pure, Except.ok.injEq]
    constructor
    · rintro ⟨s, rfl, ss, rfl, rfl⟩
      rfl
    · intro same
      cases found with
      | nil => cases same
      | cons s ss =>
        obtain ⟨rfl, rfl⟩ := List.cons.inj same
        exact ⟨s, rfl, ss, rfl, rfl⟩

theorem readMethods_eq_ok {v : Json} {found : List String} :
    readMethods v = .ok found ↔ v = .arr (found.map .str) := by
  cases v <;> simp [readMethods, fault, texts_eq_ok]

/-- A field is read under the spelling that counts. -/
theorem get?_spelling (block : Fields Json) (camel snake : String) :
    (block.get? (spelling block camel snake)).getD .null = spelled block camel snake := by
  rw [spelling, spelled, Fields.has, Fields.has]
  cases h : block.get? camel with
  | some v => simp [h]
  | none => cases h' : block.get? snake <;> simp [h, h']

/-- What the fields of a block, its methods filled in, have to be for it to be read. -/
theorem ofBlock_eq_ok {block : Fields Json} {methods : List String} :
    (∃ config, ofBlock block = .ok config ∧ config.methods = methods) ↔
      (∃ s, spelled block "documentName" "document_name" = .str s) ∧
      (∃ s, spelled block "interfaceName" "interface_name" = .str s) ∧
      (block.get? "methods").getD .null = .arr (methods.map .str) ∧
      (∃ type, readType (spelling block "documentType" "document_type")
        (spelled block "documentType" "document_type") = .ok type) ∧
      ∃ keyPrefix, readKeyPrefix (spelling block "keyPrefix" "key_prefix")
        (spelled block "keyPrefix" "key_prefix") = .ok keyPrefix := by
  simp only [ofBlock, get?_spelling, bind_eq_ok, text_eq_ok, readMethods_eq_ok]
  constructor
  · rintro ⟨config, ⟨s, isDocument, t, isInterface, ms, areMethods, type, hasType, p, hasPrefix,
      built⟩, rfl⟩
    cases built
    exact ⟨⟨s, isDocument⟩, ⟨t, isInterface⟩, areMethods, ⟨type, hasType⟩, p, hasPrefix⟩
  · rintro ⟨⟨s, isDocument⟩, ⟨t, isInterface⟩, areMethods, ⟨type, hasType⟩, p, hasPrefix⟩
    exact ⟨_, ⟨s, isDocument, t, isInterface, methods, areMethods, type, hasType, p, hasPrefix,
      rfl⟩, rfl⟩

/-- The methods of a completed block are those it names, or all of them if it leaves them open. -/
theorem methods_iff {b : Fields Json} {names : List String} :
    ((completeBlock b).get? "methods").getD .null = .arr (names.map .str) ↔
      (b.get? "methods" = none ∨ b.get? "methods" = some .null) ∧
          names = Method.all.map Method.name ∨
        b.get? "methods" = some (.arr (names.map .str)) := by
  have all : allMethods = .arr (names.map .str) ↔ names = Method.all.map Method.name := by
    have spelt : allMethods = .arr ((Method.all.map Method.name).map .str) := rfl
    rw [spelt, Json.arr.injEq, List.map_inj_right fun _ _ => Json.str.inj, eq_comm]
  rw [completeBlock, lacksMethods, Fields.nonNull?]
  cases h : b.get? "methods" with
  | none => simp [all]
  | some v => cases v <;> simp [Json.isNull, all, h]

/-- Of the methods that a configuration has, those are unknown that its schema names. -/
theorem firstUnknown_methods {schema : Fields Json} {config : DocumentConfig}
    (read : ofSchema schema = .ok config) :
    firstUnknown config.methods = firstUnknown (namedMethods schema) := by
  obtain ⟨b, isBlock, read⟩ := bind_eq_ok.1 read
  obtain ⟨-, -, areMethods, -⟩ := ofBlock_eq_ok.1 ⟨config, read, rfl⟩
  have found : schema.get? "x-documentConfig" = some (.obj b) := (block_eq_ok.1 isBlock).1
  rw [namedMethods, found, Option.bind_some, Json.field?_obj]
  rcases methods_iff.1 areMethods with ⟨open' | null, all⟩ | names
  · rw [open', all]
    rfl
  · rw [null, all]
    rfl
  · rw [names, Option.getD_some, ← listJson, names_listJson]

end DocumentConfig

/-! ## Flattening -/

namespace Required

end Required

/-! ## Normal forms -/

/-- A name is that of a method if it is listed among the names of methods. -/
theorem Method.isSome_ofName? (name : String) :
    (Method.ofName? name).isSome = (Method.all.map Method.name).contains name := by
  rw [Bool.eq_iff_iff, Method.ofName?, List.find?_isSome]
  simp

/-- The methods of a list are known if no name of it is unknown, and else the first that is
unknown is the problem. -/
theorem knownMethods_eq (names : List String) :
    match firstUnknown names with
    | none => ∃ methods, knownMethods names = .ok methods
    | some name => knownMethods names = .error (.unknownMethod (.str name)) := by
  induction names with
  | nil => exact ⟨[], rfl⟩
  | cons name rest ih =>
    rw [firstUnknown, List.find?_cons, ← Method.isSome_ofName?, ← firstUnknown]
    cases named : Method.ofName? name with
    | none =>
      simp only [Option.isSome_none, Bool.not_false]
      rw [knownMethods, Method.ofToken, Json.str?, Option.bind_some, named]
      rfl
    | some m =>
      have read : Method.ofToken (.str name) = .ok m := by
        rw [Method.ofToken, Json.str?, Option.bind_some, named]
      simp only [Option.isSome_some, Bool.not_true]
      rw [knownMethods, read, ok_bind]
      cases unknown : firstUnknown rest with
      | none =>
        obtain ⟨methods, known⟩ : ∃ methods, knownMethods rest = .ok methods := by
          rwa [unknown] at ih
        exact ⟨m :: methods, by rw [known]; rfl⟩
      | some other =>
        rw [unknown] at ih
        simp only [ih]
        rfl

/-! ## Acceptance -/

/-- What is left to go wrong after normalizing is the methods. -/
theorem addResource_normalForm {schema normal : Fields Json} (distinct : (Json.obj schema).Distinct)
    (h : normalForm schema = .ok normal) (d : Document) (options : Options) :
    match firstUnknown (namedMethods schema) with
    | none => ∃ d', d.addResource normal options = .ok d'
    | some name => d.addResource normal options = .error (.unknownMethod (.str name)) := by
  obtain ⟨⟨config, read⟩, -⟩ := normalForm_eq_ok.1 h
  have read' : DocumentConfig.ofSchema normal = .ok config :=
    (DocumentConfig.ofSchema_normalForm h).trans read
  obtain ⟨ps, found, -⟩ := (settled_of_normalForm h distinct .refl).properties
  have isProperties : properties normal = .ok ps := by
    rw [properties, ← Json.field?_obj, found]
    rfl
  have known := knownMethods_eq config.methods
  rw [DocumentConfig.firstUnknown_methods read] at known
  rw [Document.addResource_eq, Resource.fragment_eq, Resource.ofSchema, read', ok_bind,
    isProperties, ok_bind]
  split at known
  · obtain ⟨methods, known⟩ := known
    rw [known]
    exact ⟨_, rfl⟩
  · rw [known]
    rfl

theorem firstUnknown_eq_none {names : List String} :
    firstUnknown names = none ↔ ∀ name ∈ names, name ∈ Method.all.map Method.name := by
  simp only [firstUnknown, List.find?_eq_none, Bool.not_eq_true', Bool.not_eq_false,
    List.contains_eq_mem, decide_eq_true_eq]

end ResourceApi
