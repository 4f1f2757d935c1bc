import ResourceApi.Proofs.Api.Variants
import ResourceApi.Proofs.Compilation.OwnEntries
import ResourceApi.Proofs.Compilation.TwoRuns
import ResourceApi.Proofs.Json.Entrywise

/-! # The option for identifiers

Clients may be allowed to give the identifier of what they create or replace. The option
for it reaches the bodies of these two requests and nothing else: two runs that differ in
it come to the same paths and to the same names of components in the same order, also
where resources share names and one overwrites the other. In the bodies it reaches the
top alone, where the identifier is a property and perhaps required. -/

namespace ResourceApi

open Required

/-! ## Bodies without the identifier -/

/-- A body and the same without the identifier: it is no property at the top and not among the
required names, whose list is left out if it becomes empty. All below the other properties is the
same. -/
structure LacksIdentifier (full bare : Fields Json) : Prop where
  shapes : ∃ (properties : Fields Json) (required : List String),
    full = objectShape properties (required.map .str) ∧
    bare = objectShape (withoutIdentifierName properties)
      ((required.filter (· ≠ identifierName)).map .str)
  nested : ∀ name way, name ≠ identifierName →
    at? (.obj bare) (.property name :: way) = at? (.obj full) (.property name :: way)

/-- A name that only bodies have that create or replace. -/
def IsWriteBody (name : String) : Prop :=
  ∃ verb ∈ ["post", "put"], ∃ interfaceName, name = bodyName verb interfaceName

/-- Components of one name that are the same, but for the identifier in bodies that create or
replace. -/
structure SameButIdentifier (name : String) (v v' : Json) : Prop where
  other : ¬ IsWriteBody name → v' = v
  body : IsWriteBody name → ∃ full bare, v = .obj full ∧ v' = .obj bare ∧ LacksIdentifier full bare

/-- Of another name, the verb or the ending is another. -/
theorem not_isWriteBody {verb ending : String} (isVerb : verb ∈ componentVerbs)
    (isEnding : ending ∈ componentEndings) (other : verb ∉ ["post", "put"] ∨ ending ≠ "Body")
    (interfaceName : String) : ¬ IsWriteBody (verb ++ interfaceName ++ ending) := by
  intro isBody
  obtain ⟨verb', writes, interfaceName', same⟩ := isBody
  have isVerb' : ∀ v ∈ ["post", "put"], v ∈ componentVerbs := by decide
  obtain ⟨rfl, -, rfl⟩ := component_inj isVerb (isVerb' _ writes) isEnding (by decide) same
  exact other.elim (fun absent => absent writes) (fun differs => differs rfl)

theorem SameButIdentifier.of_other {verb interfaceName ending : String}
    (isVerb : verb ∈ componentVerbs) (isEnding : ending ∈ componentEndings)
    (other : verb ∉ ["post", "put"] ∨ ending ≠ "Body") (v : Json) :
    SameButIdentifier (verb ++ interfaceName ++ ending) v v where
  other _ := rfl
  body isBody := absurd isBody (not_isWriteBody isVerb isEnding other interfaceName)

namespace Resource

variable {r : Resource} {options : Options}

theorem lacksIdentifier (r : Resource) :
    LacksIdentifier r.fullBody (withoutIdentifier r.fullBody) := by
  have bare : withoutIdentifier r.fullBody = objectShape _ _ :=
    withoutIdentifier_bodyShape r.properties r.required
  refine ⟨⟨bodyRemoval.cleanEach r.properties, r.required, rfl, bare⟩, ?_⟩
  intro name way other
  rw [bare, fullBody, bodyShape]
  show (Fields.get? (List.filter _ _) name).bind _ = (Fields.get? _ name).bind _
  rw [Fields.get?_filter (p := (· != identifierName)) (bne_iff_ne.2 other)]

/-- The bodies that create or replace, as they are registered with the option and without it. -/
theorem body_sameButIdentifier {verb : String} (writes : verb ∈ ["post", "put"]) :
    SameButIdentifier (bodyName verb r.config.interfaceName) (.obj (r.shapes true).write)
      (.obj (r.shapes false).write) where
  other absent := absurd ⟨verb, writes, _, rfl⟩ absent
  body _ := ⟨_, _, rfl, rfl, r.lacksIdentifier⟩

/-- A method registers the same with the option and without it, but for the identifier. -/
theorem registered_entrywise (m : Method) :
    Fields.Entrywise SameButIdentifier ((r.shapes true).registered r.config.interfaceName m)
      ((r.shapes false).registered r.config.interfaceName m) := by
  have response {verb : String} (isVerb : verb ∈ componentVerbs) (v : Json) :
      SameButIdentifier (responseName verb r.config.interfaceName) v v :=
    .of_other isVerb (by decide) (.inr (by decide)) v
  have list (v : Json) : SameButIdentifier (listName "get" r.config.interfaceName) v v := by
    rw [listName, responseName, String.append_assoc]
    show SameButIdentifier ("get" ++ r.config.interfaceName ++ "ResponseList") v v
    exact .of_other (by decide) (by decide) (.inr (by decide)) v
  have change (v : Json) : SameButIdentifier (bodyName "patch" r.config.interfaceName) v v :=
    .of_other (by decide) (by decide) (.inl (by decide)) v
  cases m with
  | get => exact .cons (response (by decide) _) .nil
  | getList => exact .cons (response (by decide) _) (.cons (list _) .nil)
  | patch => exact .cons (change _) (.cons (response (by decide) _) .nil)
  | post | put =>
    exact .cons (body_sameButIdentifier (by decide)) (.cons (response (by decide) _) .nil)
  | delete | options | head | trace => exact .nil

/-- The components of a resource with the option and without it. -/
theorem schemas_entrywise (r : Resource) :
    Fields.Entrywise SameButIdentifier (r.schemas true) (r.schemas false) :=
  .merge .nil (.flatMap fun m _ => registered_entrywise m)

end Resource

/-! ## Runs with the option and without it -/

/-- Documents that are the same, but for the identifier in bodies that create or replace. -/
structure Document.AlikeButIdentifier (document document' : Document) : Prop where
  openapi : document'.openapi = document.openapi
  info : document'.info = document.info
  paths : document'.paths = document.paths
  schemas : document.schemas.Entrywise SameButIdentifier document'.schemas

theorem Document.AlikeButIdentifier.add {document document' : Document}
    (alike : document.AlikeButIdentifier document') (options : Options) (r : Resource) :
    (document.add (r.fragment { options with allowIdentifier := true })).AlikeButIdentifier
      (document'.add (r.fragment { options with allowIdentifier := false })) where
  openapi := alike.openapi
  info := alike.info
  paths := congrArg (·.merge (r.paths options.routePrefix)) alike.paths
  schemas := alike.schemas.merge r.schemas_entrywise

namespace Compilation

variable {options : Options} {d : Disk} {files : List Path} {c : Compilation} {name : String}

/-- A file registers a body that creates or replaces under the name. -/
def RegistersBody (d : Disk) (files : List Path) (name : String) : Prop :=
  ∃ p ∈ files, ∃ r, Resource.at? d p = some r ∧ ∃ m ∈ r.methods, m ∈ [Method.post, .put] ∧
    name = bodyName m.verb r.config.interfaceName

/-- Compilations that are the same, but for the identifier in what is registered as a body that
creates or replaces. -/
structure ApartInBodies (d : Disk) (files : List Path) (c c' : Compilation) : Prop where
  compiled : c'.compiled = c.compiled
  failed : c'.failed = c.failed
  openapi : c'.document.openapi = c.document.openapi
  info : c'.document.info = c.document.info
  paths : c'.document.paths = c.document.paths
  names : c'.document.schemas.names = c.document.schemas.names
  others : ∀ name, ¬ RegistersBody d files name →
    c'.document.schemas.get? name = c.document.schemas.get? name
  bodies : ∀ name, RegistersBody d files name → ∃ full bare,
    c.document.schemas.get? name = some (.obj full) ∧
    c'.document.schemas.get? name = some (.obj bare) ∧ LacksIdentifier full bare

theorem RegistersBody.isWriteBody (registers : RegistersBody d files name) : IsWriteBody name := by
  obtain ⟨p, -, r, -, m, -, writes, rfl⟩ := registers
  have isVerb : ∀ m ∈ [Method.post, .put], m.verb ∈ ["post", "put"] := by decide
  exact ⟨m.verb, isVerb m writes, _, rfl⟩

/-- What is registered is there when all files are compiled. -/
theorem RegistersBody.mem_names (registers : RegistersBody d files name)
    (finished : (ofFiles options options.start d files).result = .ok c) :
    name ∈ c.document.schemas.names := by
  obtain ⟨p, mem, r, isResource, m, listed, writes, rfl⟩ := registers
  have hasBody : ∀ m ∈ [Method.post, .put], m.hasBody = true := by decide
  obtain ⟨body, held⟩ : ∃ body, (r.schemas options.allowIdentifier).get?
      (bodyName m.verb r.config.interfaceName) = some body :=
    Resource.exists_body listed (hasBody m writes)
  exact (mem_names_schemas finished).2 ⟨p, mem, r, isResource, Fields.mem_names_of_get? held⟩

/-- What has such a name and is there was registered as such a body. -/
theorem registersBody_of_isWriteBody (isBody : IsWriteBody name)
    (finished : (ofFiles options options.start d files).result = .ok c)
    (named : name ∈ c.document.schemas.names) : RegistersBody d files name := by
  obtain ⟨p, mem, r, isResource, named⟩ := (mem_names_schemas finished).1 named
  obtain ⟨m, listed, named⟩ := r.mem_names_schemas.1 named
  obtain ⟨⟨name, v⟩, registered, rfl⟩ := List.mem_map.1 named
  obtain ⟨isVerb, ending, isEnding, rfl, -⟩ := Shapes.registered_component registered
  have writes : ∀ m : Method, m.verb ∈ ["post", "put"] → m ∈ [Method.post, .put] := by
    intro m
    cases m <;> decide
  refine ⟨p, mem, r, isResource, m, listed, ?_⟩
  by_contra other
  refine not_isWriteBody isVerb isEnding ?_ _ isBody
  by_contra body
  rw [not_or, not_not, not_not] at body
  exact other ⟨writes m body.1, by rw [body.2]; rfl⟩

/-- **The option for identifiers reaches only the bodies that create or replace.** A run over any
files with the option and the run without it leave the same disk and the same notices, and stop for
the same reason or come to the same compiled paths, the same messages and the same document, but for
what the files register as such bodies: without the option these lack the identifier at the top. -/
theorem ofFiles_allowIdentifier (options : Options) (d : Disk) (files : List Path) :
    (ofFiles { options with allowIdentifier := true } options.start d files).Alike
      (ApartInBodies d files)
      (ofFiles { options with allowIdentifier := false } options.start d files) := by
  have first : options.start.AlikeButIdentifier options.start := ⟨rfl, rfl, rfl, .nil⟩
  have adds (document document' : Document) (r : Resource)
      (alike : document.AlikeButIdentifier document') := alike.add options r
  have alike := ofFiles_alike (d := d) (by rfl) adds first files
  refine alike.imp fun c c' finished _ abreast => ?_
  obtain ⟨openapi, info, paths, schemas⟩ := abreast.document
  refine ⟨abreast.compiled, abreast.failed, openapi, info, paths, schemas.names, ?others, ?bodies⟩
  case others =>
    intro name unregistered
    have related := schemas.get? name
    generalize there : c.document.schemas.get? name = held, c'.document.schemas.get? name = held'
      at related
    cases related with
    | none => rfl
    | some same =>
      have named := Fields.mem_names_of_get? there
      rw [same.other fun isBody =>
        unregistered (registersBody_of_isWriteBody isBody finished named)]
  case bodies =>
    intro name registers
    obtain ⟨v, there⟩ := Fields.exists_of_mem_names (registers.mem_names finished)
    have related := schemas.get? name
    rw [there] at related
    generalize c'.document.schemas.get? name = held' at related
    cases related with
    | some same =>
      obtain ⟨full, bare, rfl, rfl, lacks⟩ := same.body registers.isWriteBody
      exact ⟨full, bare, there, rfl, lacks⟩

end Compilation
end ResourceApi
