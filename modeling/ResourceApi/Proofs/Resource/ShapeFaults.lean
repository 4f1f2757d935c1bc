import ResourceApi.Proofs.Resource.Positions

/-! # Where the shape of a schema is wrong

A schema may lack the properties of an object, or have a property that is no object. Each
such fault stands at a position, and positions have an order: of two that part, the one
that goes on to the earlier property comes first. Flattening stops at the first fault of
all the nodes that it goes to, and names the words of its position with points between
them; where there is no fault it comes to a result. -/

namespace ResourceApi.Required

open Results

/-! ## Faults and their order -/

/-- A fault in the shape of a schema. -/
structure ShapeFault where
  /-- The way to the node. -/
  way : List Step
  /-- The property of the node that is no object; none if the node has no object of properties. -/
  property : Option String

/-- What is wrong with a node that has a fault. -/
def Misshapen (node : Json) : Option String → Prop
  | none => ∀ properties, node.field? "properties" ≠ some (.obj properties)
  | some name => ∃ v, property? node name = some v ∧ v.isObj = false

/-- The words with which a step is written. -/
def Step.words : Step → List String
  | property name => ["properties", name]
  | items => ["items"]

/-- One property of a node stands before the other. -/
def Sooner (node : Json) (a b : String) : Prop :=
  ∃ properties : Fields Json, node.field? "properties" = some (.obj properties) ∧
    [a, b].Sublist properties.names

/-- At the node where two positions part, the one goes on to a property before the other's. -/
def Precedes (root : Json) (p q : List Step) : Prop :=
  ∃ way n a b, at? root way = some n ∧ Sooner n a b ∧
    way ++ [.property a] <+: p ∧ way ++ [.property b] <+: q

namespace ShapeFault

/-- Where the fault stands: at the property, or else at the node. -/
def position (f : ShapeFault) : List Step := f.way ++ (f.property.map Step.property).toList

def words (f : ShapeFault) : List String :=
  f.way.flatMap Step.words ++ "properties" :: f.property.toList

/-- The words of the position with points between them. -/
def field (f : ShapeFault) : String := ".".intercalate f.words

/-- The problem that points at the fault. -/
def problem (f : ShapeFault) : Problem :=
  match f.property with
  | none => .noProperties f.field
  | some _ => .propertyNotObject f.field

/-- The fault is that of a node that flattening goes to from the root. -/
def In (root : Json) (f : ShapeFault) : Prop :=
  Follows root f.way ∧ ∃ n, at? root f.way = some n ∧ Misshapen n f.property

/-- The fault that comes before all others. -/
def First (root : Json) (f : ShapeFault) : Prop :=
  f.In root ∧ ∀ g : ShapeFault, g.In root → g ≠ f → Precedes root f.position g.position

/-- A fault as it is seen from the start of a way to its root. -/
def behind (way : List Step) (f : ShapeFault) : ShapeFault := { f with way := way ++ f.way }

theorem behind_behind (f : ShapeFault) (way way' : List Step) :
    (f.behind way').behind way = f.behind (way ++ way') := by
  simp [behind]

@[simp] theorem position_behind (f : ShapeFault) (way : List Step) :
    (f.behind way).position = way ++ f.position := by
  simp [behind, position]

/-! ## Faults below a node -/

variable {node p : Json} {name : String} {f g : ShapeFault}

theorem In.property (within : f.In p) (object : isObject node = true)
    (isProperty : property? node name = some p) : (f.behind [.property name]).In node := by
  obtain ⟨follows, n, there, misshapen⟩ := within
  exact ⟨.property object isProperty follows, n, (at?_property isProperty).trans there, misshapen⟩

theorem In.items {inner : Json} (within : f.In inner) (array : isArrayOfObjects node = true)
    (isItems : node.field? "items" = some inner) : (f.behind [.items]).In node := by
  obtain ⟨follows, n, there, misshapen⟩ := within
  exact ⟨.items array isItems follows, n, (at?_items isItems).trans there, misshapen⟩

/-- Only objects have faults. -/
theorem In.isObj (within : f.In node) : node.isObj = true := by
  obtain ⟨way, property⟩ := f
  obtain ⟨follows, -⟩ := within
  cases node with
  | obj fields => rfl
  | null | bool | int | float | str | arr =>
    cases follows with
    | here object | property object => cases object
    | items array => cases array

/-- A fault in an object that has properties stands at one of them: this is no object, or has the
fault itself. -/
theorem in_properties {properties : Fields Json} (object : isObject node = true)
    (isProperties : node.field? "properties" = some (.obj properties)) (within : f.In node) :
    ∃ name p, property? node name = some p ∧
      (p.isObj = false ∧ f = ⟨[], some name⟩ ∨
        ∃ g : ShapeFault, g.In p ∧ f = g.behind [.property name]) := by
  obtain ⟨follows, n, there, misshapen⟩ := within
  obtain ⟨way, property⟩ := f
  cases follows with
  | here _ =>
    cases there
    cases property with
    | none => exact absurd isProperties (misshapen _)
    | some name =>
      obtain ⟨p, isProperty, notObj⟩ := misshapen
      exact ⟨name, p, isProperty, .inl ⟨notObj, rfl⟩⟩
  | @property _ p name rest _ isProperty onward =>
    rw [at?_property isProperty] at there
    exact ⟨name, p, isProperty, .inr ⟨⟨rest, property⟩, ⟨onward, n, there, misshapen⟩, rfl⟩⟩
  | items array =>
    rw [not_isArrayOfObjects object] at array
    cases array

/-- An object without an object of properties has no other fault. -/
theorem in_bare (object : isObject node = true) (bare : Misshapen node none) (within : f.In node) :
    f = ⟨[], none⟩ := by
  have none (name : String) : property? node name = none := by
    cases found : property? node name with
    | none => rfl
    | some p =>
      obtain ⟨_, _, rfl, isProperties, -⟩ := property?_eq_some.1 found
      exact absurd isProperties (bare _)
  obtain ⟨follows, n, there, misshapen⟩ := within
  obtain ⟨way, property⟩ := f
  cases follows with
  | here _ =>
    cases there
    cases property with
    | none => rfl
    | some name =>
      obtain ⟨p, isProperty, -⟩ := misshapen
      rw [none name] at isProperty
      cases isProperty
  | property _ isProperty =>
    rw [none] at isProperty
    cases isProperty
  | items array =>
    rw [not_isArrayOfObjects object] at array
    cases array

/-- A fault in an array of objects is one of its items. -/
theorem in_items {inner : Json} (array : isArrayOfObjects node = true)
    (isItems : node.field? "items" = some inner) (within : f.In node) :
    ∃ g : ShapeFault, g.In inner ∧ f = g.behind [.items] := by
  obtain ⟨follows, n, there, misshapen⟩ := within
  obtain ⟨way, property⟩ := f
  cases follows with
  | here object | property object =>
    rw [not_isArrayOfObjects object] at array
    cases array
  | @items _ _ rest _ found onward =>
    obtain rfl := Option.some.inj (isItems.symm.trans found)
    rw [at?_items isItems] at there
    exact ⟨⟨rest, property⟩, ⟨onward, n, there, misshapen⟩, rfl⟩

/-- What can be flattened has no fault. -/
theorem not_in_of_flatten {location : String} {flattened : Flattened}
    (h : flatten location node = .ok flattened) (f : ShapeFault) : ¬ f.In node := by
  obtain ⟨way, property⟩ := f
  intro within
  obtain ⟨follows, n, there, misshapen⟩ := within
  dsimp only at follows there misshapen
  induction follows generalizing location flattened with
  | here object =>
    cases there
    cases property with
    | none =>
      obtain ⟨_, _, _, _, rfl, found, -, -⟩ := object_of_flatten h object
      exact misshapen _ found
    | some name =>
      obtain ⟨v, isProperty, notObj⟩ := misshapen
      obtain ⟨isObj, -⟩ := property?_of_flatten h object isProperty
      rw [isObj] at notObj
      cases notObj
  | property object isProperty _ ih =>
    obtain ⟨-, _, below, -⟩ := property?_of_flatten h object isProperty
    exact ih below ((at?_property isProperty).symm.trans there)
  | items array isItems _ ih =>
    obtain ⟨_, _, below, -⟩ := items_of_flatten h array isItems
    exact ih below ((at?_items isItems).symm.trans there)

end ShapeFault

/-! ## The first fault -/

variable {node n : Json} {name : String} {f g : ShapeFault}

theorem Precedes.below {step : Step} {p q : List Step} (h : Precedes n p q)
    (found : below? node step = some n) : Precedes node (step :: p) (step :: q) := by
  obtain ⟨way, m, a, b, there, sooner, first, second⟩ := h
  refine ⟨step :: way, m, a, b, ?_, sooner, ?_, ?_⟩
  · rw [at?, found]
    exact there
  · exact List.cons_prefix_cons.2 ⟨rfl, first⟩
  · exact List.cons_prefix_cons.2 ⟨rfl, second⟩

/-- The properties of an object in two parts: those before a property, which have no fault, and the
property with those behind it. -/
structure SoundBefore (node : Json) (sound : Fields Json) (name : String) (v : Json)
    (later : Fields Json) : Prop where
  object : isObject node = true
  properties : node.field? "properties" = some (.obj (sound ++ (name, v) :: later))
  nodup : (Fields.names (sound ++ (name, v) :: later)).Nodup
  noFault : ∀ p ∈ sound, p.2.isObj = true ∧ ∀ f : ShapeFault, ¬ f.In p.2

namespace SoundBefore

variable {sound later : Fields Json} {v : Json}

theorem property? (s : SoundBefore node sound name v later) : property? node name = some v := by
  rw [Required.property?, s.properties]
  exact Fields.get?_of_mem s.nodup (by simp)

/-- A fault in the object stands at the property, or comes behind everything there. -/
theorem here_or_precedes (s : SoundBefore node sound name v later) (within : g.In node) :
    (v.isObj = false ∧ g = ⟨[], some name⟩ ∨
        ∃ g' : ShapeFault, g'.In v ∧ g = g'.behind [.property name]) ∨
      ∀ way, Precedes node (.property name :: way) g.position := by
  obtain ⟨m, p, isProperty, faulty⟩ := ShapeFault.in_properties s.object s.properties within
  have found : Fields.get? (sound ++ (name, v) :: later) m = some p := by
    rw [Required.property?, s.properties] at isProperty
    exact isProperty
  cases List.mem_append.1 (Fields.mem_of_get? found) with
  | inl before =>
    obtain ⟨isObj, noFault⟩ := s.noFault _ before
    cases faulty with
    | inl own => rw [isObj] at own; cases own.1
    | inr below =>
      obtain ⟨g', within', -⟩ := below
      exact absurd within' (noFault g')
  | inr onward =>
    cases onward with
    | head => exact .inl faulty
    | tail _ after =>
      right
      intro way
      have sooner : Sooner node name m := by
        refine ⟨_, s.properties, ?_⟩
        unfold Fields.names
        rw [List.map_append]
        have later : [m].Sublist (Fields.names later) :=
          List.singleton_sublist.2 (List.mem_map_of_mem after)
        exact List.sublist_append_of_sublist_right (later.cons_cons name)
      have position : [Step.property m] <+: g.position := by
        cases faulty with
        | inl own => simp [own.2, ShapeFault.position]
        | inr below =>
          obtain ⟨g', -, rfl⟩ := below
          simp
      exact ⟨[], node, name, m, rfl, sooner, ⟨way, rfl⟩, position⟩

/-- The property is the first fault if it is no object. -/
theorem first_here (s : SoundBefore node sound name v later) (notObj : v.isObj = false) :
    ShapeFault.First node ⟨[], some name⟩ := by
  refine ⟨⟨.here s.object, node, rfl, v, s.property?, notObj⟩, ?_⟩
  intro g within other
  rcases s.here_or_precedes within with (own | below) | behind
  · exact absurd own.2 other
  · obtain ⟨g', within', -⟩ := below
    rw [within'.isObj] at notObj
    cases notObj
  · exact behind []

/-- The first fault of the property is the first of all if the property is an object. -/
theorem first_below (s : SoundBefore node sound name v later) (first : f.First v) :
    (f.behind [.property name]).First node := by
  obtain ⟨within, before⟩ := first
  refine ⟨within.property s.object s.property?, ?_⟩
  intro g within' other
  rw [ShapeFault.position_behind]
  rcases s.here_or_precedes within' with (own | below) | behind
  · rw [within.isObj] at own
    cases own.1
  · obtain ⟨g', within'', rfl⟩ := below
    have differ : g' ≠ f := by
      intro same
      exact other (same ▸ rfl)
    rw [ShapeFault.position_behind]
    exact (before g' within'' differ).below s.property?
  · exact behind f.position

end SoundBefore

/-- An object without an object of properties is its own first fault. -/
theorem first_bare (object : isObject node = true) (bare : Misshapen node none) :
    ShapeFault.First node ⟨[], none⟩ := by
  refine ⟨⟨.here object, node, rfl, bare⟩, ?_⟩
  intro g within other
  exact absurd (ShapeFault.in_bare object bare within) other

/-- The first fault of the items of an array of objects is the first of the array. -/
theorem first_items {inner : Json} (array : isArrayOfObjects node = true)
    (isItems : node.field? "items" = some inner) (first : f.First inner) :
    (f.behind [.items]).First node := by
  obtain ⟨within, before⟩ := first
  refine ⟨within.items array isItems, ?_⟩
  intro g within' other
  obtain ⟨g', within'', rfl⟩ := ShapeFault.in_items array isItems within'
  have differ : g' ≠ f := by
    intro same
    exact other (same ▸ rfl)
  rw [ShapeFault.position_behind, ShapeFault.position_behind]
  exact (before g' within'' differ).below isItems

/-! ## Places -/

/-- The words with points between them. -/
abbrev dotted (words : List String) : String := ".".intercalate words

/-- The text starts with a character that is no point. -/
def Lettered (s : String) : Prop := ∃ c rest, s.toList = c :: rest ∧ c ≠ '.'

theorem Lettered.append {s : String} (lettered : Lettered s) (t : String) : Lettered (s ++ t) := by
  obtain ⟨c, rest, spelt, letter⟩ := lettered
  exact ⟨c, rest ++ t.toList, by simp [spelt], letter⟩

theorem Lettered.place {s : String} (lettered : Lettered s) (t : String) : place s t = s ++ t := by
  obtain ⟨c, rest, spelt, letter⟩ := lettered
  have stops : (c == '.') = false := beq_eq_false_iff_ne.2 letter
  rw [Required.place, String.toList_append, spelt, List.cons_append, List.dropWhile_cons, stops,
    ← List.cons_append, ← spelt]
  simp [← String.toList_append]

theorem lettered_dotted {word : String} (lettered : Lettered word) (rest : List String) :
    Lettered (dotted (word :: rest)) := by
  cases rest with
  | nil => simpa [dotted] using lettered
  | cons next rest =>
    rw [dotted, String.intercalate_cons_cons, String.append_assoc]
    exact lettered.append _

/-- The words of a step start with a letter. -/
theorem lettered_step (step : Step) (rest : List String) :
    Lettered (dotted (step.words ++ rest)) := by
  cases step with
  | property name => exact lettered_dotted ⟨'p', "roperties".toList, rfl, by decide⟩ _
  | items => exact lettered_dotted ⟨'i', "tems".toList, rfl, by decide⟩ _

/-- Points at the start of a location may be dropped before something is added to it. -/
theorem place_place (location s t : String) :
    place (place location s) t = place location (s ++ t) := by
  have again (l m : List Char) :
      (l.dropWhile (· == '.') ++ m).dropWhile (· == '.') = (l ++ m).dropWhile (· == '.') := by
    induction l with
    | nil => rfl
    | cons c rest ih =>
      rw [List.dropWhile_cons]
      split
      · next point => rw [ih, List.cons_append, List.dropWhile_cons, if_pos point]
      · rfl
  unfold place
  rw [String.toList_append, String.toList_ofList, again, ← String.toList_append,
    String.append_assoc]

/-- A location is the words of a way, but for the points that it starts with. -/
def Located (location : String) (way : List Step) : Prop :=
  place location "" = dotted (way.flatMap Step.words)

theorem located_root : Located "" [] := by
  rfl

/-- What is added to a location is added to its words. -/
theorem Located.place {location : String} {way : List Step} (located : Located location way)
    {words : List String} (some : words ≠ []) (lettered : Lettered (dotted words)) :
    place location ("." ++ dotted words) = dotted (way.flatMap Step.words ++ words) := by
  have added : Required.place location ("." ++ dotted words) =
      Required.place (dotted (way.flatMap Step.words)) ("." ++ dotted words) := by
    rw [← located, place_place, String.empty_append]
  rw [added]
  cases way with
  | nil =>
    -- the point in front of the first words is dropped
    calc Required.place "" ("." ++ dotted words)
        = Required.place "" (dotted words) := (place_place "" "." (dotted words)).symm
      _ = Required.place (dotted words) "" := by simp [Required.place]
      _ = dotted words := by rw [lettered.place, String.append_empty]
  | cons step rest =>
    have before : (step :: rest).flatMap Step.words ≠ [] := by
      cases step <;> simp [Step.words]
    rw [List.flatMap_cons, (lettered_step step _).place, ← List.flatMap_cons, dotted, dotted,
      String.append_assoc.symm, ← String.intercalate_append_of_ne_nil before some]

theorem Located.property {location : String} {way : List Step} (located : Located location way)
    (name : String) :
    placeOf location name = dotted (way.flatMap Step.words ++ ["properties", name]) := by
  have added := located.place (List.cons_ne_nil "properties" [name])
    (lettered_step (.property name) [])
  rw [← added, dotted, String.intercalate_cons_cons, String.intercalate_singleton,
    ← String.append_assoc, ← String.append_assoc]
  rfl

theorem Located.bare {location : String} {way : List Step} (located : Located location way) :
    Required.place location ".properties" = dotted (way.flatMap Step.words ++ ["properties"]) := by
  have lettered : Lettered (dotted ["properties"]) :=
    lettered_dotted ⟨'p', "roperties".toList, rfl, by decide⟩ []
  have added := located.place (List.cons_ne_nil "properties" []) lettered
  rw [← added, dotted, String.intercalate_singleton]
  rfl

theorem Located.below_property {location : String} {way : List Step}
    (located : Located location way) (name : String) :
    Located (placeOf location name) (way ++ [.property name]) := by
  have again : Required.place (placeOf location name) "" = placeOf location name := by
    rw [placeOf, place_place, String.append_empty]
  rw [Located, again, located.property name, List.flatMap_append, List.flatMap_singleton,
    Step.words]

theorem Located.below_items {location : String} {way : List Step}
    (located : Located location way) : Located (location ++ ".items") (way ++ [.items]) := by
  have added := located.place (List.cons_ne_nil "items" []) (lettered_step .items [])
  rw [dotted, String.intercalate_singleton] at added
  rw [Located, List.flatMap_append, List.flatMap_singleton, Step.words, ← added]
  simp [Required.place]

/-! ## Where flattening stops -/

/-- How flattening a node comes to a problem, one case for each kind of node that is flattened, and
one for an object that has no object of properties. -/
inductive Stopping (location : String) (problem : Problem) (node : Json) : Prop
  | items {inner : Json} : isArrayOfObjects node = true → node.field? "items" = some inner →
    flatten (location ++ ".items") inner = .error problem → Stopping location problem node
  | bare : isObject node = true → Misshapen node none →
    problem = .noProperties (place location ".properties") → Stopping location problem node
  | each {properties : Fields Json} : isObject node = true →
    node.field? "properties" = some (.obj properties) →
    flattenEach location properties = .error problem → Stopping location problem node

theorem stopping_of_flatten {location : String} {problem : Problem}
    (h : flatten location node = .error problem) : Stopping location problem node := by
  cases array : isArrayOfObjects node with
  | true =>
    obtain ⟨_, inner, isItems, _⟩ := isArrayOfObjects_eq_true.1 array
    obtain ⟨fields, rfl, found⟩ := Json.field?_eq_some.1 isItems
    rw [flatten_of_array location array, flattenItems_eq found] at h
    exact .items array isItems (map_eq_error.1 (map_eq_error.1 h))
  | false =>
    cases object : isObject node with
    | false =>
      rw [flatten_of_other location array object] at h
      cases h
    | true =>
      obtain ⟨fields, rfl, _⟩ := Json.field?_eq_some.1 (isObject_eq_true.1 object)
      rw [flatten_of_object location object, flattenProperties_eq, map_eq_error] at h
      cases found : propertiesOf fields with
      | none =>
        rw [found] at h
        cases h
        refine .bare object ?_ rfl
        intro properties isProperties
        rw [propertiesOf_eq_some.2 isProperties] at found
        cases found
      | some properties =>
        rw [found] at h
        exact .each object (propertiesOf_eq_some.1 found) (map_eq_error.1 h)

/-- Properties that cannot be flattened are so up to one that is no object, or that cannot be
flattened itself. -/
theorem flattenEach_eq_error {location : String} {properties : Fields Json} {problem : Problem}
    (h : flattenEach location properties = .error problem) :
    ∃ sound name v later, properties = sound ++ (name, v) :: later ∧
      (∀ p ∈ sound, p.2.isObj = true ∧ ∃ f, flatten (placeOf location p.1) p.2 = .ok f) ∧
      (v.isObj = false ∧ problem = .propertyNotObject (placeOf location name) ∨
        flatten (placeOf location name) v = .error problem) := by
  induction properties with
  | nil => cases h
  | cons p rest ih =>
    obtain ⟨name, v⟩ := p
    rw [flattenEach] at h
    split at h
    · next isObj =>
      cases bind_eq_error.1 h with
      | inl stopped => exact ⟨[], name, v, rest, rfl, by simp, .inr stopped⟩
      | inr onward =>
        obtain ⟨f, flattened, h⟩ := onward
        cases bind_eq_error.1 h with
        | inr ended =>
          obtain ⟨r, -, ended⟩ := ended
          cases ended
        | inl stopped =>
          obtain ⟨sound, name', v', later, rfl, before, here⟩ := ih stopped
          refine ⟨(name, v) :: sound, name', v', later, rfl, ?_, here⟩
          intro p mem
          cases mem with
          | head => exact ⟨isObj, f, flattened⟩
          | tail _ mem => exact before p mem
    · next notObj =>
      cases h
      exact ⟨[], name, v, rest, rfl, by simp, .inl ⟨eq_false_of_ne_true notObj, rfl⟩⟩

/-- Flattening stops at the first fault, with the problem that points at it. -/
theorem first_of_flatten {location : String} {way : List Step} (located : Located location way)
    {node : Json} (distinct : node.Distinct) {problem : Problem}
    (h : flatten location node = .error problem) :
    ∃ f : ShapeFault, f.First node ∧ problem = (f.behind way).problem := by
  cases stopping_of_flatten h with
  | items array isItems below =>
    obtain ⟨fields, rfl, found⟩ := Json.field?_eq_some.1 isItems
    have smaller := Json.sizeOf_lt_of_get? found
    obtain ⟨f, first, rfl⟩ := first_of_flatten located.below_items (distinct.get? found) below
    exact ⟨f.behind [.items], first_items array isItems first, by rw [ShapeFault.behind_behind]⟩
  | bare object bare isProblem =>
    refine ⟨⟨[], none⟩, first_bare object bare, ?_⟩
    rw [isProblem, located.bare]
    simp [ShapeFault.problem, ShapeFault.behind, ShapeFault.field, ShapeFault.words]
  | each object isProperties each =>
    obtain ⟨fields, rfl, found⟩ := Json.field?_eq_some.1 isProperties
    obtain ⟨sound, name, v, later, rfl, before, here⟩ := flattenEach_eq_error each
    have distinct' := distinct.get? found
    have split : SoundBefore (.obj fields) sound name v later :=
      { object, properties := isProperties, nodup := distinct'.nodup
        noFault := by
          intro p mem
          obtain ⟨isObj, f, flattened⟩ := before p mem
          exact ⟨isObj, ShapeFault.not_in_of_flatten flattened⟩ }
    cases here with
    | inl notObject =>
      obtain ⟨notObj, rfl⟩ := notObject
      refine ⟨⟨[], some name⟩, split.first_here notObj, ?_⟩
      rw [located.property]
      simp [ShapeFault.problem, ShapeFault.behind, ShapeFault.field, ShapeFault.words]
    | inr below =>
      have mem : (name, v) ∈ sound ++ (name, v) :: later := by simp
      have smaller := Json.sizeOf_lt_of_get? found
      have smallest := Json.sizeOf_lt_of_mem mem
      obtain ⟨f, first, rfl⟩ := first_of_flatten (located.below_property name)
        ((Json.distinct_obj.1 distinct').2 _ mem) below
      exact ⟨f.behind [.property name], split.first_below first, by rw [ShapeFault.behind_behind]⟩
termination_by sizeOf node
decreasing_by
  all_goals
    subst_vars
    omega

/-- **A problem of shape points at the first offending place.** Flattening a node fails exactly if a
node that it goes to has no object of properties, or a property that is no object; and then the
problem is one of shape, has the source, and points at the first of these faults: at the words of
its position with points between them. -/
theorem flatten_firstFault {node : Json} (distinct : node.Distinct) (source : Option String) :
    let answer := (flatten "" node).mapError (SchemaError.mk · source)
    ((∃ e, answer = .error e) ↔ ∃ f : ShapeFault, f.In node) ∧
      ∀ e, answer = .error e → e.source = source ∧ e.problem.kind = .shape ∧
        ∃ f : ShapeFault, f.First node ∧ e.problem = f.problem ∧
          e.problem.field? = some (".".intercalate
            (f.way.flatMap Step.words ++ "properties" :: f.property.toList)) := by
  intro answer
  have points {e : SchemaError} (failed : answer = .error e) : e.source = source ∧
      ∃ f : ShapeFault, f.First node ∧ e.problem = f.problem := by
    obtain ⟨problem, stopped, rfl⟩ := mapError_eq_error.1 failed
    obtain ⟨f, first, rfl⟩ := first_of_flatten located_root distinct stopped
    exact ⟨rfl, f, first, rfl⟩
  refine ⟨⟨?_, ?_⟩, ?_⟩
  · intro failed
    obtain ⟨e, failed⟩ := failed
    obtain ⟨-, f, first, -⟩ := points failed
    exact ⟨f, first.1⟩
  · intro faulty
    obtain ⟨f, within⟩ := faulty
    cases flattened : flatten "" node with
    | ok result => exact absurd within (ShapeFault.not_in_of_flatten flattened f)
    | error problem => exact ⟨⟨problem, source⟩, by simp [answer, flattened]⟩
  · intro e failed
    obtain ⟨isSource, f, first, isProblem⟩ := points failed
    refine ⟨isSource, ?_, f, first, isProblem, ?_⟩
    · rw [isProblem, ShapeFault.problem]
      cases f.property <;> rfl
    · rw [isProblem, ShapeFault.problem]
      cases property : f.property <;>
        simp [Problem.field?, ShapeFault.field, ShapeFault.words, property]

/-- An order whose lines have a number that is no object, and whose seller has no properties. -/
def misshapenOrder : Json := .obj [
  ("type", .str "object"),
  ("properties", .obj [
    ("buyer", .obj [("type", .str "object"), ("properties", .obj [])]),
    ("lines", .obj [("type", .str "array"), ("items", .obj [("type", .str "object"),
      ("properties", .obj [("note", .obj []), ("sku", .bool true)])])]),
    ("seller", .obj [("type", .str "object")])])]

/-- The problem points at the number of the lines, which stands before the seller. -/
theorem flatten_firstFault_misshapenOrder : misshapenOrder.Distinct ∧
    ∃ e, (flatten "" misshapenOrder).mapError (SchemaError.mk · (some "order.json")) = .error e ∧
      e.source = some "order.json" ∧ e.problem.kind = .shape ∧
      e.problem.field? = some "properties.lines.items.properties.sku" ∧
      ∃ f : ShapeFault, f.First misshapenOrder ∧ e.problem = f.problem ∧
        (⟨[.property "seller"], none⟩ : ShapeFault).In misshapenOrder := by
  have distinct : misshapenOrder.Distinct := by decide
  obtain ⟨fails, points⟩ := flatten_firstFault distinct (some "order.json")
  have seller : (⟨[.property "seller"], none⟩ : ShapeFault).In misshapenOrder :=
    ⟨.property rfl rfl (.here rfl), _, rfl, fun properties given => nomatch given⟩
  obtain ⟨e, failed⟩ := fails.2 ⟨_, seller⟩
  obtain ⟨isSource, isShape, f, first, isProblem, -⟩ := points e failed
  refine ⟨distinct, e, failed, isSource, isShape, ?_, f, first, isProblem, seller⟩
  cases failed
  decide

end ResourceApi.Required
