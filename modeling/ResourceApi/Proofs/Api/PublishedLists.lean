import ResourceApi.Proofs.Api.ComponentNames
import ResourceApi.Proofs.Api.RequiredInBodies

/-! # The lists that are published

The bodies of requests are made of a normal form in steps: the properties are cleaned,
the list of the root is put beside them, and the identifier is taken out of both unless
it may be given. Through all of them a node keeps the list that normalizing gave it, or
loses it if it is empty; so what a body requires are properties that it has. A body of
which any part may be missing requires nothing anywhere. -/

namespace ResourceApi

open Required

/-- A node has the list, which is left out if it is empty, and the list names its properties. -/
structure Publishes (node : Json) (list : List String) : Prop where
  required : node.field? "required" = if list.isEmpty then none else some (listJson list)
  nodup : list.Nodup
  properties : ∀ name ∈ list, ∃ p, property? node name = some p

/-- The list that is published for the node at a position: that of the root does not name the
identifier, unless it may be given. -/
def publishedList (allowIdentifier : Bool) (way : List Step) (list : List String) : List String :=
  if way = [] ∧ allowIdentifier = false then list.filter (· ≠ identifierName) else list

theorem mem_publishedList {allowIdentifier : Bool} {way : List Step} {list : List String}
    {name : String} : name ∈ publishedList allowIdentifier way list ↔
      name ∈ list ∧ (way = [] → allowIdentifier = true ∨ name ≠ identifierName) := by
  rw [publishedList]
  split
  · next root =>
    rw [List.mem_filter, decide_eq_true_eq, root.2]
    simp [root.1]
  · next other =>
    refine (and_iff_left fun root => .inl ?_).symm
    simpa [root] using other

theorem nodup_publishedList {allowIdentifier : Bool} {way : List Step} {list : List String}
    (nodup : list.Nodup) : (publishedList allowIdentifier way list).Nodup := by
  rw [publishedList]
  split
  · exact nodup.filter _
  · exact nodup

/-! ## Shapes of objects -/

theorem property?_objectShape (properties : Fields Json) (required : List Json) (name : String) :
    property? (.obj (objectShape properties required)) name = properties.get? name := rfl

theorem required_objectShape (properties : Fields Json) (required : List Json) :
    (Json.obj (objectShape properties required)).field? "required" =
      if required.isEmpty then none else some (.arr required) := by
  cases required <;> rfl

/-- Taking the identifier out of a body takes it out of its properties and out of its list. -/
theorem withoutIdentifier_bodyShape (properties : Fields Json) (list : List String) :
    withoutIdentifier (bodyShape properties (list.map .str)) =
      objectShape ((bodyRemoval.cleanEach properties).filter fun p => p.1 != identifierName)
        ((list.filter (· ≠ identifierName)).map .str) := by
  have shown : shapeRequired (bodyShape properties (list.map .str)) = list.map .str := by
    cases list <;> rfl
  rw [withoutIdentifier, shown, List.filter_map]
  congr 2
  refine List.filter_congr fun name _ => ?_
  rw [Bool.eq_iff_iff, Function.comp_apply, bne_iff_ne, decide_eq_true_eq, ne_eq, Json.str.injEq]

/-! ## Cleaned nodes -/

/-- A cleaned node keeps its list, or loses it if it is empty. -/
theorem publishes_cleaned {node : Json} {list : List String} (distinct : node.Distinct)
    (lists : Lists node list) : Publishes (bodyRemoval.cleanProperty node) list where
  required := by
    rw [Removal.field?_cleanProperty distinct, lists.written, Option.bind_some]
    cases list <;> rfl
  nodup := lists.nodup
  properties name named := by
    obtain ⟨p, found, -⟩ := lists.listed name named
    refine ⟨bodyRemoval.cleanProperty p, ?_⟩
    rw [Removal.property?_cleanProperty keepsNodes_bodyRemoval distinct, found]
    rfl

/-! ## The bodies of a resource -/

theorem mem_of_knownMethods {listed : List String} {methods : List Method} {m : Method}
    (known : knownMethods listed = .ok methods) (mem : m.name ∈ listed) : m ∈ methods := by
  induction listed generalizing methods with
  | nil => cases mem
  | cons name rest ih =>
    obtain ⟨first, isFirst, known⟩ := Results.bind_eq_ok.1 known
    obtain ⟨others, areOthers, known⟩ := Results.bind_eq_ok.1 known
    cases known
    rcases List.mem_cons.1 mem with rfl | later
    · rw [Method.ofToken, Json.str?, Option.bind_some, Method.ofName?_name] at isFirst
      cases isFirst
      exact List.mem_cons_self
    · exact List.mem_cons_of_mem _ (ih areOthers later)

namespace Resource

variable {r : Resource} {allowIdentifier : Bool}

/-- Where the parts of a resource come from. -/
theorem parts_of_ofSchema {schema : Fields Json} (h : ofSchema schema = .ok r) :
    DocumentConfig.ofSchema schema = .ok r.config ∧
      schema.get? "properties" = some (.obj r.properties) ∧
      r.required = names ((schema.get? "required").getD .null) ∧
      knownMethods r.config.methods = .ok r.methods := by
  obtain ⟨config, isConfig, h⟩ := Results.bind_eq_ok.1 h
  obtain ⟨ps, isProperties, h⟩ := Results.bind_eq_ok.1 h
  obtain ⟨methods, known, h⟩ := Results.bind_eq_ok.1 h
  cases h
  refine ⟨isConfig, ?_, rfl, known⟩
  rw [ResourceApi.properties] at isProperties
  split at isProperties
  · next found =>
    cases isProperties
    exact propertiesOf_eq_some.1 found
  · cases isProperties

/-- A method with a body registers it. -/
theorem exists_body {m : Method} (listed : m ∈ r.methods) (hasBody : m.hasBody = true) :
    ∃ body, (r.schemas allowIdentifier).get? (bodyName m.verb r.config.interfaceName) =
      some body := by
  cases m with
  | post | put | patch => exact ⟨_, get?_schemas listed List.mem_cons_self⟩
  | get | getList | delete | options | head | trace => cases hasBody

theorem eq_writeBody {m : Method} {body : Json} (writes : m ∈ [Method.post, .put])
    (held : (r.schemas allowIdentifier).get? (bodyName m.verb r.config.interfaceName) = some body) :
    body = .obj (r.writeBody allowIdentifier) := by
  cases m with
  | post | put => exact body_of_get?_schemas (by decide) held
  | get | getList | patch | delete | options | head | trace => exact absurd writes (by decide)

theorem eq_changeBody {body : Json}
    (held : (r.schemas allowIdentifier).get?
      (bodyName Method.patch.verb r.config.interfaceName) = some body) :
    body = .obj r.changeBody :=
  body_of_get?_schemas (by decide) held

/-- A body that creates or replaces has every property, but for the identifier if it may not be
given. -/
theorem property?_writeBody {name : String}
    (given : allowIdentifier = true ∨ name ≠ identifierName) :
    property? (.obj (r.writeBody allowIdentifier)) name =
      (r.properties.get? name).map bodyRemoval.cleanProperty := by
  rw [writeBody, fullBody]
  split
  · exact property?_body name
  · next not =>
    rw [withoutIdentifier_bodyShape, property?_objectShape,
      Fields.get?_filter (p := (· != identifierName)) (bne_iff_ne.2 (given.resolve_left not))]
    exact Removal.get?_cleanEach r.properties name

theorem required_writeBody :
    (Json.obj (r.writeBody allowIdentifier)).field? "required" =
      if (publishedList allowIdentifier [] r.required).isEmpty then none
      else some (listJson (publishedList allowIdentifier [] r.required)) := by
  cases allowIdentifier with
  | true =>
    rw [writeBody, if_pos rfl, fullBody, bodyShape, required_objectShape, List.isEmpty_map]
    rfl
  | false =>
    rw [writeBody, if_neg (by decide), fullBody, withoutIdentifier_bodyShape, required_objectShape,
      List.isEmpty_map]
    rfl

/-- The root of a body publishes the list of the resource. -/
theorem publishes_writeBody (nodup : r.required.Nodup)
    (named : ∀ name ∈ r.required, ∃ p, r.properties.get? name = some p) :
    Publishes (.obj (r.writeBody allowIdentifier))
      (publishedList allowIdentifier [] r.required) where
  required := required_writeBody
  nodup := nodup_publishedList nodup
  properties name mem := by
    obtain ⟨listed, given⟩ := mem_publishedList.1 mem
    obtain ⟨p, found⟩ := named name listed
    exact ⟨_, by rw [property?_writeBody (given rfl), found, Option.map_some]⟩

/-- Nothing is required anywhere in a body that changes parts. -/
theorem required_changeBody {way : List Step} {n : Json}
    (there : at? (.obj r.changeBody) way = some n) : n.field? "required" = none := by
  match way with
  | [] =>
    cases there
    rfl
  | .property name :: rest =>
    obtain ⟨p, found, onward⟩ := Option.bind_eq_some_iff.1 there
    have cleaned : Fields.get? (Removal.cleanEach ⟨["required"], []⟩ _) name = some p := found
    rw [Removal.get?_cleanEach] at cleaned
    obtain ⟨q, -, rfl⟩ := Option.map_eq_some_iff.1 cleaned
    obtain ⟨m, rfl⟩ := Removal.cleaned_of_at? onward
    exact Removal.field?_cleanProperty_of_key List.mem_cons_self m
  | .items :: rest => cases there

end Resource

/-! ## What is published -/

/-- **The bodies of a resource publish the lists of its normal form.** Every listed method that has
a body registers one. A body that creates or replaces has every node that normalizing follows the
way to, and publishes the list of that node, for the root without the identifier unless it may be
given. In a body that changes parts nothing is required. -/
theorem buildComponents_publishes {schema normal : Fields Json}
    (distinct : (Json.obj schema).Distinct) (h : normalForm schema = .ok normal)
    {options : Options} {components : Components}
    (built : buildComponents normal options.allowIdentifier options.routePrefix =
      .ok components) :
    ∃ config, DocumentConfig.ofSchema normal = .ok config ∧
      (∀ m : Method, m.hasBody = true → m.name ∈ config.methods →
        ∃ body, components.schemas.get? (bodyName m.verb config.interfaceName) = some body) ∧
      (∀ m ∈ [Method.post, .put], ∀ body,
        components.schemas.get? (bodyName m.verb config.interfaceName) = some body →
        ∀ way, Follows (.obj normal) way →
          (options.allowIdentifier = true ∨ way.head? ≠ some (.property identifierName)) →
          ∃ n list n', at? (.obj normal) way = some n ∧
            n.field? "required" = some (listJson list) ∧ at? body way = some n' ∧
            Publishes n' (publishedList options.allowIdentifier way list)) ∧
      ∀ body, components.schemas.get? (bodyName Method.patch.verb config.interfaceName) = some body →
        ∀ way n, at? body way = some n → n.field? "required" = none := by
  rw [Resource.buildComponents_eq, Results.map_eq_ok] at built
  obtain ⟨r, isResource, rfl⟩ := built
  obtain ⟨isConfig, isProperties, isRequired, known⟩ := Resource.parts_of_ofSchema isResource
  refine ⟨r.config, isConfig, fun m hasBody listed => ?_,
    fun m writes body held way follows given => ?_, fun body held way n there => ?_⟩
  · exact Resource.exists_body (mem_of_knownMethods known listed) hasBody
  · have distinct' := normalForm_distinct h distinct
    obtain ⟨n, list, there, lists⟩ := lists_of_follows distinct h follows
    obtain rfl := Resource.eq_writeBody writes held
    match way with
    | [] =>
      cases there
      have root : r.required = list := by
        rw [isRequired, ← Json.field?_obj, lists.written, Option.getD_some, names_listJson]
      refine ⟨_, list, _, rfl, lists.written, rfl, ?_⟩
      rw [← root]
      refine Resource.publishes_writeBody (root ▸ lists.nodup) fun name named => ?_
      obtain ⟨p, found, -⟩ := lists.listed name (root ▸ named)
      exact ⟨p, property?_of_get? isProperties name ▸ found⟩
    | .property name :: rest =>
      refine ⟨n, list, bodyRemoval.cleanProperty n, there, lists.written, ?_, ?_⟩
      · have other : options.allowIdentifier = true ∨ name ≠ identifierName := by
          simpa using given
        rw [at?_of_property? distinct' isProperties (Resource.property?_writeBody other), there]
        rfl
      · exact publishes_cleaned (distinct_at? distinct' there) lists
    | .items :: rest =>
      exact absurd follows
        (not_follows_of_not_isArrayOfObjects (not_isArrayOfObjects (isObject_of_normalForm h)))
  · obtain rfl := Resource.eq_changeBody held
    exact Resource.required_changeBody there

/-- Replacing an order requires the number of each of its lines, and changing one does not. -/
theorem buildComponents_publishes_order : ∃ components replacing changing lines n,
    buildComponents orderNormal false "" = .ok components ∧
    components.schemas.get? "putOrderBody" = some replacing ∧
    components.schemas.get? "patchOrderBody" = some changing ∧
    at? replacing [.property "lines", .items] = some lines ∧ Publishes lines ["sku"] ∧
    at? changing [.property "lines", .items] = some n ∧ n.field? "required" = none := by
  obtain ⟨config, isConfig, -, writes, changes⟩ :=
    buildComponents_publishes (by decide) normalForm_orderSchema
      (show buildComponents orderNormal (Options.allowIdentifier {}) (Options.routePrefix {}) =
        .ok _ from rfl)
  cases isConfig
  have follows : Follows (.obj orderNormal) [.property "lines", .items] :=
    .property (show isObject (.obj orderNormal) = true from rfl) rfl (.items rfl rfl (.here rfl))
  obtain ⟨n, list, lines, there, written, published, publishes⟩ :=
    writes .put (by decide) _ rfl _ follows (.inr (by decide))
  cases there
  obtain rfl : ["sku"] = list := listJson_injective (Option.some.inj written)
  have unlisted := changes _ rfl [.property "lines", .items] _ rfl
  exact ⟨_, _, _, lines, _, rfl, rfl, rfl, published, publishes, rfl, unlisted⟩

end ResourceApi
