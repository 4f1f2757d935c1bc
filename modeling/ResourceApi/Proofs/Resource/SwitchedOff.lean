import ResourceApi.Proofs.Resource.LostNames

/-! # Switching a flag off

The flag of a property puts its name in the list of its object, and a list that is not
empty puts the name of its object in the list above. When the flag is switched off
after normalizing, the name of the property is dropped when the schema is normalized
again; but the lists above are kept, as their names are not switched off themselves.
When it is switched off from the start, nothing comes up from it, and the objects that
were listed only because of it are not listed. `normalForm_switchOff` says exactly
which names the two leave. -/

namespace ResourceApi

namespace Required

/-! ## Chains of properties -/

/-- A chain of names leads from a node through objects to a property that is no object. -/
inductive Leaf : Json → List String → Prop
  | last {node p : Json} {name : String} :
    property? node name = some p → isObject p = false → Leaf node [name]
  | through {node p : Json} {name next : String} {rest : List String} :
    property? node name = some p → isObject p = true → Leaf p (next :: rest) →
    Leaf node (name :: next :: rest)

/-- The fields of a node when the property at the end of a chain of names is switched off. -/
def switchOff : List String → Fields Json → Fields Json
  | [], fields => fields.put "required" (.bool false)
  | name :: rest, fields =>
    match propertiesOf fields with
    | none => fields
    | some properties =>
      match (properties.get? name).bind Json.fields? with
      | none => fields
      | some p => fields.put "properties" (.obj (properties.put name (.obj (switchOff rest p))))

theorem switchOff_cons {fields properties p : Fields Json} {name : String}
    (found : fields.get? "properties" = some (.obj properties))
    (here : properties.get? name = some (.obj p)) (rest : List String) :
    switchOff (name :: rest) fields =
      fields.put "properties" (.obj (properties.put name (.obj (switchOff rest p)))) := by
  rw [switchOff, propertiesOf_eq_some.2 found]
  simp only [here, Option.bind_some, Json.fields?]

/-- Below a node, switching off touches its properties only. -/
theorem get?_switchOff {fields : Fields Json} {name key : String} (rest : List String)
    (other : key ≠ "properties") : (switchOff (name :: rest) fields).get? key = fields.get? key := by
  rw [switchOff]
  split
  · rfl
  · split
    · rfl
    · exact Fields.get?_put_of_ne (Ne.symm other) ..

/-! ## One run -/

/-- Switching off what is no object changes nothing below it. -/
theorem flatten_off {location : String} {p : Fields Json} {g : Flattened}
    (other : isObject (.obj p) = false) (h : flatten location (.obj p) = .ok g) :
    ∃ g', flatten location (.obj (p.put "required" (.bool false))) = .ok g' ∧ g'.list = none ∧
      g'.attached.field? "items" = g.attached.field? "items" := by
  have object : isObject (.obj (p.put "required" (.bool false))) = false :=
    (isObject_put (by decide) _).trans other
  have items : (p.put "required" (.bool false)).get? "items" = p.get? "items" :=
    Fields.get?_put_of_ne (by decide) ..
  have array : isArrayOfObjects (.obj (p.put "required" (.bool false))) =
      isArrayOfObjects (.obj p) := by
    rw [isArrayOfObjects, isArrayOfObjects, Json.field?_obj, Json.field?_obj, Json.field?_obj,
      Json.field?_obj, items, Fields.get?_put_of_ne (by decide)]
  cases flatten_eq_ok.1 h with
  | items kind found below =>
    refine ⟨_, flatten_eq_ok.2 (.items (array.trans kind) (items.trans found) below), rfl, ?_⟩
    exact (Fields.get?_put_self ..).trans (Fields.get?_put_self ..).symm
  | object object' => rw [object'] at other; cases other
  | other kind => exact ⟨_, flatten_of_other location (array.trans kind) object, rfl, items⟩

open Classical in
/-- What switching off does to an object, given what it does to the property on the chain. The name
of that property is lost if it is not kept from the list that was there and no longer demands to
be listed. -/
theorem flatten_switchOff_cons {location name : String} {rest : List String}
    {fields v : Fields Json} {f g g' : Flattened} {gone : List Step → Prop}
    (object : isObject (.obj fields) = true) (distinct : (Json.obj fields).Distinct)
    (h : flatten location (.obj fields) = .ok f)
    (here : property? (.obj fields) name = some (.obj v))
    (hg : flatten (placeOf location name) (.obj v) = .ok g)
    (hg' : flatten (placeOf location name) (.obj (switchOff rest v)) = .ok g')
    (off : isSwitchedOff (.obj v) = true → isSwitchedOff (.obj (switchOff rest v)) = true)
    (less : g'.demands (hasFlag (.obj (switchOff rest v))) = true →
      g.demands (hasFlag (.obj v)) = true ∧
        (isSwitchedOff (.obj (switchOff rest v)) = true → isSwitchedOff (.obj v) = true))
    (loses : Requires f.attached name → (¬ gone [.property name] ↔
      (Requires (.obj fields) name ∧ isSwitchedOff (.obj (switchOff rest v)) = false) ∨
        g'.demands (hasFlag (.obj (switchOff rest v))) = true))
    (aside : ∀ m way, m ≠ name → ¬ gone (.property m :: way))
    (below : Without g.attached (fun way => gone (.property name :: way)) g'.attached) :
    ∃ f', flatten location (.obj (switchOff (name :: rest) fields)) = .ok f' ∧
      Without f.attached gone f'.attached := by
  have attached : isObject f.attached = true := (isObject_attached h).trans object
  obtain ⟨list, isList, written⟩ := required_of_isObject h object
  obtain ⟨_, properties, properties', demanding, ⟨⟩, found, each, rfl⟩ := object_of_flatten h object
  cases isList
  rw [property?_of_get? found] at here
  obtain ⟨isObj, k, hk, here', -⟩ := flattenEach_get? each here
  obtain rfl : g = k := Except.ok.inj (hg.symm.trans hk)
  have nodup := (distinct.get? found).nodup
  have demanded := mem_demanding nodup each here hg
  rw [switchOff_cons found here]
  generalize v'_eq : Json.obj (switchOff rest v) = v' at *
  have isObj' : v'.isObj = true := by rw [← v'_eq]; rfl
  have each' := flattenEach_put nodup each here isObj' hg' fun demands =>
    demanded.2 (less demands).1
  have object' : isObject (.obj (fields.put "properties" (.obj (properties.put name v')))) = true :=
    (isObject_put (by decide) _).trans object
  refine ⟨_, flatten_eq_ok.2 (.object object' (Fields.get?_put_self ..) each'), ?_⟩
  rw [Flattening.attached_object, Flattening.attached_object, Fields.put_put]
  refine Without.of_property attached written ?_
    ((property?_attached name).trans here')
    ((property?_attached name).trans (Fields.get?_put_self ..)) ?_ aside below
  · rw [combine_put (r := fun n => ¬ gone [.property n]) here isObj isObj' off fun again =>
      (less again).2]
    · exact Fields.get?_put_self ..
    · exact fun n other => decide_eq_true (aside n [] other)
    · intro named
      rw [decide_eq_true_eq, loses ((requires_iff written).2 named)]
  · intro m other
    rw [property?_attached, property?_attached, Fields.get?_put_of_ne (Ne.symm other)]

open Classical in
/-- What has no list has its items as they were. -/
theorem Without.of_items {c c' : Json} {gone : List Step → Prop} (kind : isObject c = false)
    (same : c'.field? "items" = c.field? "items") (none : ∀ way, ¬ gone (.items :: way)) :
    Without c gone c' := by
  intro way list follows isList
  cases follows with
  | here object => rw [object] at kind; cases kind
  | property object => rw [object] at kind; cases kind
  | @items _ items rest _ found onward =>
    have all : (list.filter fun n => ¬ gone (.items :: rest ++ [.property n])) = list :=
      List.filter_eq_self.2 fun n _ => decide_eq_true (none _)
    rw [all, ← isList, requiredAt, requiredAt, at?_items found, at?_items (same.trans found)]

/-- A property that is switched off is no longer listed. -/
theorem flatten_switchOff_last {location name : String} {fields : Fields Json} {p : Json}
    {f : Flattened} (object : isObject (.obj fields) = true)
    (distinct : (Json.obj fields).Distinct) (h : flatten location (.obj fields) = .ok f)
    (here : property? (.obj fields) name = some p) (other : isObject p = false) :
    ∃ f', flatten location (.obj (switchOff [name] fields)) = .ok f' ∧
      Without f.attached (· = [.property name]) f'.attached := by
  obtain ⟨isObj, g, hg, -⟩ := property?_of_flatten h object here
  obtain ⟨p, rfl⟩ := Json.isObj_eq_true.1 isObj
  obtain ⟨g', hg', none, items⟩ := flatten_off other hg
  have written : (Json.obj (switchOff [] p)).field? "required" = some (.bool false) :=
    Fields.get?_put_self ..
  have off := isSwitchedOff_eq_true.2 written
  have quiet : g'.demands (hasFlag (.obj (switchOff [] p))) = false := by
    rw [Flattened.demands, none, hasFlag, written]
    rfl
  refine flatten_switchOff_cons object distinct h here hg hg' (fun _ => off) ?_ ?_ ?_ ?_
  · intro demands
    rw [quiet] at demands
    cases demands
  · simp [quiet, off]
  · rintro m way other ⟨⟩
    exact other rfl
  · refine .of_items ((isObject_attached hg).trans other) items ?_
    rintro way ⟨⟩

/-! ## What is listed only because of one property -/

/-- A node asks for a property itself: the property has the flag, or the node lists it and it is
not switched off. -/
def Asks (node : Json) (name : String) : Prop :=
  ∃ p, property? node name = some p ∧ (p.field? "required" = some (.bool true) ∨
    Requires node name ∧ p.field? "required" ≠ some (.bool false))

theorem asks_iff {node p : Json} {name : String} (here : property? node name = some p) :
    Asks node name ↔ (Requires node name ∧ isSwitchedOff p = false) ∨ hasFlag p = true := by
  rw [Asks, hasFlag_eq_true, ← Bool.not_eq_true, isSwitchedOff_eq_true, or_comm]
  constructor
  · rintro ⟨q, found, asks⟩
    obtain rfl := Option.some.inj (here.symm.trans found)
    exact asks
  · exact fun asks => ⟨p, here, asks⟩

theorem demands_iff {g : Flattened} {list : List String} (isList : g.list = some list)
    (flag : Bool) : g.demands flag = true ↔ flag = true ∨ list ≠ [] := by
  rw [Flattened.demands, isList]
  simp

/-- A property is listed because the node asks for it, or because of a list of its own. -/
theorem asks_or_of_requires {location name : String} {fields : Fields Json} {v : Json}
    {f g : Flattened} {list : List String} (object : isObject (.obj fields) = true)
    (distinct : (Json.obj fields).Distinct) (h : flatten location (.obj fields) = .ok f)
    (here : property? (.obj fields) name = some v)
    (hg : flatten (placeOf location name) v = .ok g) (isList : g.list = some list)
    (required : Requires f.attached name) : Asks (.obj fields) name ∨ list ≠ [] := by
  rw [asks_iff here, or_assoc, ← demands_iff isList]
  obtain ⟨listed, isListed, written⟩ := required_of_isObject h object
  have named := (requires_iff written).1 required
  obtain ⟨_, _, _, _, ⟨⟩, found, each, rfl⟩ := object_of_flatten h object
  cases isListed
  rw [property?_of_get? found] at here
  obtain ⟨isObj, -⟩ := flattenEach_get? each here
  rcases mem_combine.1 named with old | new
  · exact Or.inl ((mem_kept_of_get? here isObj).1 old)
  · exact Or.inr ((mem_demanding (distinct.get? found).nodup each here hg).1 new)

/-- The positions of the properties that the normal form of a node lists only because of the one at
the end of a chain: that property itself, and an object on the chain that lists nothing but the
next such property, and for which the node above it does not ask itself. -/
inductive OnlyFor : Json → Json → List String → List Step → Prop
  | itself {node normal : Json} {name : String} : OnlyFor node normal [name] [.property name]
  | above {node normal p q : Json} {name next : String} {rest : List String} :
    property? node name = some p → property? normal name = some q →
    OnlyFor p q (next :: rest) [.property next] →
    q.field? "required" = some (listJson [next]) → ¬ Asks node name →
    OnlyFor node normal (name :: next :: rest) [.property name]
  | onward {node normal p q : Json} {name : String} {rest : List String} {step : Step}
    {way : List Step} :
    property? node name = some p → property? normal name = some q →
    OnlyFor p q rest (step :: way) → OnlyFor node normal (name :: rest) (.property name :: step :: way)

theorem OnlyFor.head {node normal : Json} {name m : String} {rest : List String}
    {way : List Step} (only : OnlyFor node normal (name :: rest) (.property m :: way)) : m = name := by
  cases only <;> rfl

theorem eq_singleton_of_forall {list : List String} {name : String} (nodup : list.Nodup)
    (some : list ≠ []) (all : ∀ n ∈ list, n = name) : list = [name] := by
  cases list with
  | nil => exact absurd rfl some
  | cons n rest =>
    obtain rfl := all n List.mem_cons_self
    cases rest with
    | nil => rfl
    | cons m rest =>
      obtain rfl := all m (List.mem_cons_of_mem _ List.mem_cons_self)
      exact absurd List.mem_cons_self (List.nodup_cons.1 nodup).1

section Chain

variable {node normal p q : Json} {name : String} {rest : List String}
  (here : property? node name = some p) (here' : property? normal name = some q)
include here here'

theorem onlyFor_onward {step : Step} {way : List Step} :
    OnlyFor node normal (name :: rest) (.property name :: step :: way) ↔
      OnlyFor p q rest (step :: way) := by
  constructor
  · intro only
    cases only with
    | onward found found' only =>
      obtain rfl := Option.some.inj (here.symm.trans found)
      obtain rfl := Option.some.inj (here'.symm.trans found')
      exact only
  · exact .onward here here'

/-- An object on the chain is listed only because of the end of it if all that it lists is, and the
node above does not ask for it. -/
theorem onlyFor_above {next : String} {list : List String} (nodup : list.Nodup)
    (written : q.field? "required" = some (listJson list)) :
    OnlyFor node normal (name :: next :: rest) [.property name] ↔
      ¬ Asks node name ∧ list ≠ [] ∧ ∀ n ∈ list, OnlyFor p q (next :: rest) [.property n] := by
  constructor
  · intro only
    cases only with
    | above found found' only only' asks =>
      obtain rfl := Option.some.inj (here.symm.trans found)
      obtain rfl := Option.some.inj (here'.symm.trans found')
      obtain rfl := listJson_injective (Option.some.inj (written.symm.trans only'))
      refine ⟨asks, List.cons_ne_nil next [], fun n mem => ?_⟩
      rw [List.mem_singleton.1 mem]
      exact only
  · rintro ⟨asks, some, all⟩
    obtain rfl := eq_singleton_of_forall nodup some fun n mem => (all n mem).head
    exact .above here here' (all next (List.mem_singleton_self next)) written asks

end Chain

/-! ## Whole runs -/

/-- An object on the chain keeps its own declaration, and demands to be listed as long as something
is left of its list. -/
theorem flatten_switchOff_through {location name next : String} {rest : List String}
    {fields v : Fields Json} {f g g' : Flattened} {gone below : List Step → Prop}
    {list : List String}
    (object : isObject (.obj fields) = true) (distinct : (Json.obj fields).Distinct)
    (h : flatten location (.obj fields) = .ok f)
    (here : property? (.obj fields) name = some (.obj v)) (object' : isObject (.obj v) = true)
    (hg : flatten (placeOf location name) (.obj v) = .ok g)
    (hg' : flatten (placeOf location name) (.obj (switchOff (next :: rest) v)) = .ok g')
    (without : Without g.attached below g'.attached)
    (onward : ∀ step way, gone (.property name :: step :: way) ↔ below (step :: way))
    (aside : ∀ m way, m ≠ name → ¬ gone (.property m :: way))
    (isList : g.list = some list)
    (loses : Requires f.attached name → (gone [.property name] ↔
      ¬ Asks (.obj fields) name ∧ list ≠ [] ∧ ∀ n ∈ list, below [.property n])) :
    ∃ f', flatten location (.obj (switchOff (name :: next :: rest) fields)) = .ok f' ∧
      Without f.attached gone f'.attached := by
  have declared : (Json.obj (switchOff (next :: rest) v)).field? "required" =
      (Json.obj v).field? "required" := get?_switchOff rest (by decide)
  have same : isSwitchedOff (.obj (switchOff (next :: rest) v)) = isSwitchedOff (.obj v) := by
    rw [isSwitchedOff, isSwitchedOff, declared]
  have flag : hasFlag (.obj (switchOff (next :: rest) v)) = hasFlag (.obj v) := by
    rw [hasFlag, hasFlag, declared]
  have kind : isObject (.obj (switchOff (next :: rest) v)) = true := by
    rw [← object', isObject, isObject, Json.field?_obj, get?_switchOff rest (by decide)]
    rfl
  obtain ⟨list', isList', written'⟩ := required_of_isObject hg' kind
  have left : list' = [] ↔ ∀ n ∈ list, below [.property n] := by
    obtain ⟨l, isL, written⟩ := required_of_isObject hg object'
    obtain rfl := Option.some.inj (isList.symm.trans isL)
    have same := without [] list (.here ((isObject_attached hg).trans object')) written
    obtain rfl := listJson_injective (Option.some.inj (written'.symm.trans same))
    simp
  refine flatten_switchOff_cons object distinct h here hg hg' (same ▸ id) ?_ ?_ aside ?_
  · rw [flag, demands_iff isList', demands_iff isList, same]
    refine fun demands => ⟨demands.imp_right fun some none => some (left.2 ?_), id⟩
    simp [none]
  · intro required
    have listed := asks_or_of_requires object distinct h here hg isList required
    rw [loses required, same, flag, demands_iff isList', ← or_assoc, ← asks_iff here, ← left]
    by_cases asks : Asks (.obj fields) name
    · simp [asks]
    · simp [asks, listed.resolve_left asks]
  · exact without.congr fun step way => (onward step way).symm

/-- **Switched off from the start**, a flag takes with it all that is listed only because of it. -/
theorem flatten_switchOff {location : String} {fields : Fields Json} {f : Flattened}
    {chain : List String} (leaf : Leaf (.obj fields) chain)
    (object : isObject (.obj fields) = true) (distinct : (Json.obj fields).Distinct)
    (h : flatten location (.obj fields) = .ok f) :
    ∃ f', flatten location (.obj (switchOff chain fields)) = .ok f' ∧
      Without f.attached (OnlyFor (.obj fields) f.attached chain) f'.attached := by
  generalize node_eq : Json.obj fields = node at *
  induction leaf generalizing location fields f with
  | @last node p name here other =>
    subst node_eq
    obtain ⟨f', hf', without⟩ := flatten_switchOff_last object distinct h here other
    refine ⟨f', hf', without.congr fun step way => ?_⟩
    constructor
    · rintro ⟨⟩
      exact .itself
    · rintro ⟨⟩
      · rfl
      · contradiction
  | @through node p name next rest here object' leaf ih =>
    subst node_eq
    obtain ⟨isObj, g, hg, here'⟩ := property?_of_flatten h object here
    obtain ⟨v, rfl⟩ := Json.isObj_eq_true.1 isObj
    obtain ⟨g', hg', without⟩ := ih rfl object' (distinct_property? distinct here) hg
    obtain ⟨list, isList, written⟩ := required_of_isObject hg object'
    have nodup : list.Nodup := by
      obtain ⟨l, lists⟩ := (settled_attached (distinct_property? distinct here) hg object').lists
      obtain rfl := listJson_injective (Option.some.inj (lists.written.symm.trans written))
      exact lists.nodup
    exact flatten_switchOff_through object distinct h here object' hg hg' without
      (fun _ _ => onlyFor_onward here here') (fun m way other only => other only.head) isList
      fun _ => onlyFor_above here here' nodup written

/-- A settled node asks for whatever it lists. -/
theorem Settled.asks {node : Json} {name : String} (settled : Settled node)
    (required : Requires node name) : Asks node name := by
  obtain ⟨list, lists⟩ := settled.lists
  obtain ⟨p, found, -, on⟩ := lists.listed name ((requires_iff lists.written).1 required)
  exact ⟨p, found, .inr ⟨required, on⟩⟩

/-- **Switched off in a settled tree**, a flag takes nothing with it. -/
theorem flatten_switchOff_settled {location : String} {fields : Fields Json} {chain : List String}
    (leaf : Leaf (.obj fields) chain) (object : isObject (.obj fields) = true)
    (distinct : (Json.obj fields).Distinct)
    (settled : ∀ n, Reached (.obj fields) n → Settled n) :
    ∃ f', flatten location (.obj (switchOff chain fields)) = .ok f' ∧
      Without (.obj fields) (· = chain.map .property) f'.attached := by
  obtain ⟨f, hf, same, -⟩ := stable_of_settled object distinct settled location
  generalize node_eq : Json.obj fields = node at *
  induction leaf generalizing location fields f with
  | @last node p name here other =>
    subst node_eq
    obtain ⟨f', hf', without⟩ := flatten_switchOff_last object distinct hf here other
    exact ⟨f', hf', same ▸ without⟩
  | @through node p name next rest here object' leaf ih =>
    subst node_eq
    obtain ⟨isObj, g, hg, here'⟩ := property?_of_flatten hf object here
    obtain ⟨v, rfl⟩ := Json.isObj_eq_true.1 isObj
    rw [same] at here'
    have unchanged := Option.some.inj (here'.symm.trans here)
    obtain ⟨g', hg', without⟩ := ih g rfl object' (distinct_property? distinct here)
      (fun n reached => settled n (.head (.property here object') reached)) hg unchanged
    obtain ⟨list, isList, -⟩ := required_of_isObject hg object'
    suffices ∃ f', flatten location (.obj (switchOff (name :: next :: rest) fields)) = .ok f' ∧
        Without f.attached (· = (name :: next :: rest).map .property) f'.attached from same ▸ this
    refine flatten_switchOff_through object distinct hf here object' hg hg'
      (unchanged.symm ▸ without) ?_ ?_ isList ?_
    · intro step way
      rw [List.map_cons, List.cons.injEq]
      simp
    · rintro m way other ⟨⟩
      exact other rfl
    · intro required
      rw [same] at required
      simp [(settled _ .refl).asks required]

/-! ## The chain in the normal form -/

theorem Leaf.congr {node node' : Json} {chain : List String} (leaf : Leaf node chain)
    (same : ∀ name, property? node' name = property? node name) : Leaf node' chain := by
  cases leaf with
  | last found other => exact .last ((same _).trans found) other
  | through found object leaf => exact .through ((same _).trans found) object leaf

theorem OnlyFor.congr {node node' normal : Json} {chain : List String} {way : List Step}
    (only : OnlyFor node normal chain way)
    (properties : ∀ name, property? node' name = property? node name)
    (required : node'.field? "required" = node.field? "required") :
    OnlyFor node' normal chain way := by
  cases only with
  | itself => exact .itself
  | @above _ _ p _ name _ _ found found' only list asks =>
    refine .above ((properties _).trans found) found' only list ?_
    rwa [Asks, properties, Requires, required]
  | onward found found' only => exact .onward ((properties _).trans found) found' only

theorem Leaf.attached {location : String} {node : Json} {f : Flattened} {chain : List String}
    (leaf : Leaf node chain) (object : isObject node = true) (h : flatten location node = .ok f) :
    Leaf f.attached chain := by
  induction leaf generalizing location f with
  | last found other =>
    obtain ⟨-, g, hg, found'⟩ := property?_of_flatten h object found
    exact .last found' ((isObject_attached hg).trans other)
  | through found object' leaf ih =>
    obtain ⟨-, g, hg, found'⟩ := property?_of_flatten h object found
    exact .through found' ((isObject_attached hg).trans object') (ih object' hg)

theorem OnlyFor.whole {node normal : Json} {chain : List String} (leaf : Leaf node chain)
    (leaf' : Leaf normal chain) : OnlyFor node normal chain (chain.map .property) := by
  induction leaf generalizing normal with
  | last => exact .itself
  | through found _ _ ih =>
    cases leaf' with
    | through found' _ leaf' => exact .onward found found' (ih leaf')

end Required

/-! ## Normal forms -/

open Required

theorem switchOff_put {fields : Fields Json} {key : String} (other : key ≠ "properties") (v : Json)
    (name : String) (rest : List String) :
    switchOff (name :: rest) (fields.put key v) = (switchOff (name :: rest) fields).put key v := by
  rw [switchOff, switchOff, propertiesOf, Fields.get?_put_of_ne other, ← propertiesOf]
  cases found : propertiesOf fields with
  | none => rfl
  | some properties =>
    simp only
    split
    · rfl
    · have there := Fields.mem_names_of_get? (propertiesOf_eq_some.1 found)
      exact (Fields.put_comm there (Ne.symm other) ..).symm

theorem withRootType_switchOff (fields : Fields Json) (name : String) (rest : List String) :
    withRootType (switchOff (name :: rest) fields) = switchOff (name :: rest) (withRootType fields) := by
  have properties : ((switchOff (name :: rest) fields).get? "properties").map Json.isObj =
      (fields.get? "properties").map Json.isObj := by
    rw [switchOff]
    cases found : propertiesOf fields with
    | none => rfl
    | some properties =>
      simp only
      split
      · rfl
      · rw [Fields.get?_put_self, propertiesOf_eq_some.1 found]
        rfl
  rw [withRootType, withRootType, properties, Fields.has, get?_switchOff rest (by decide),
    ← Fields.has]
  split
  · exact (switchOff_put (by decide) ..).symm
  · rfl

/-- What is prepared does not hang on a flag below the root. -/
theorem prepared_switchOff (schema : Fields Json) (name : String) (rest : List String) :
    prepared (switchOff (name :: rest) schema) = switchOff (name :: rest) (prepared schema) := by
  have completed : DocumentConfig.complete (switchOff (name :: rest) schema) =
      switchOff (name :: rest) (DocumentConfig.complete schema) := by
    rw [DocumentConfig.complete, DocumentConfig.complete,
      DocumentConfig.block_congr (get?_switchOff rest (by decide))]
    cases DocumentConfig.block schema with
    | error e => rfl
    | ok b =>
      simp only
      split
      · exact (switchOff_put (by decide) ..).symm
      · rfl
  rw [prepared, prepared, completed, withRootType_switchOff]

/-- A schema with a flag switched off has a normal form if what is flattened of it comes to a
result. -/
theorem normalForm_of_flatten_switchOff {schema normal : Fields Json} {chain : List String}
    {f : Flattened} (h : normalForm schema = .ok normal) (leaf : Leaf (.obj schema) chain)
    (hf : flatten "" (.obj (switchOff chain (prepared schema))) = .ok f) :
    ∃ result, normalForm (switchOff chain schema) = .ok result ∧ f.attached = .obj result := by
  obtain ⟨name, rest, rfl⟩ : ∃ name rest, chain = name :: rest := by
    cases leaf with
    | last => exact ⟨_, _, rfl⟩
    | through => exact ⟨_, _, rfl⟩
  obtain ⟨⟨config, isConfig⟩, object, -⟩ := normalForm_eq_ok.1 h
  obtain ⟨result, attached⟩ := Json.isObj_eq_true.1 (isObj_attached hf)
  refine ⟨result, normalForm_eq_ok.2 ⟨⟨config, ?_⟩, ?_, f, ?_, attached⟩, attached⟩
  · rw [DocumentConfig.ofSchema, DocumentConfig.block_congr (get?_switchOff rest (by decide))]
    exact isConfig
  · rw [prepared_switchOff, isObject, Json.field?_obj, get?_switchOff rest (by decide)]
    exact object
  · rw [prepared_switchOff]
    exact hf

/-- **A flag that is switched off.** Normalizing once more after a flag was switched off leaves the
lists of the normal form but for the name of the property itself. Normalizing with the flag off
from the start leaves them but for what is listed only because of the property. So the two agree
at every node that lists no object only because of it. -/
theorem normalForm_switchOff {schema normal : Fields Json} (distinct : (Json.obj schema).Distinct)
    (h : normalForm schema = .ok normal) {chain : List String} (leaf : Leaf (.obj schema) chain) :
    ∃ again fresh, normalForm (switchOff chain normal) = .ok again ∧
      normalForm (switchOff chain schema) = .ok fresh ∧
      Without (.obj normal) (· = chain.map .property) (.obj again) ∧
      Without (.obj normal) (OnlyFor (.obj schema) (.obj normal) chain) (.obj fresh) ∧
      ∀ way, Follows (.obj normal) way →
        (∀ name, OnlyFor (.obj schema) (.obj normal) chain (way ++ [.property name]) →
          way ++ [.property name] = chain.map .property) →
        requiredAt (.obj again) way = requiredAt (.obj fresh) way := by
  obtain ⟨-, object, f, hf, attached⟩ := normalForm_eq_ok.1 h
  have distinct' := prepared_throughout onNames_namesDistinct distinct
  have leaf₀ : Leaf (.obj (prepared schema)) chain := leaf.congr (property?_prepared schema)
  have leaf' : Leaf (.obj normal) chain := attached ▸ leaf₀.attached object hf
  -- from the start
  obtain ⟨g, hg, fromStart⟩ := flatten_switchOff leaf₀ object distinct' hf
  obtain ⟨fresh, isFresh, attached'⟩ := normalForm_of_flatten_switchOff h leaf hg
  -- after normalizing
  obtain ⟨k, hk, afterwards⟩ := flatten_switchOff_settled leaf' (isObject_of_normalForm h)
    (normalForm_distinct h distinct) (fun _ => settled_of_normalForm h distinct)
  have normal' := normalForm_of_normalForm distinct h
  obtain ⟨again, isAgain, attached''⟩ := normalForm_of_flatten_switchOff normal' leaf'
    ((prepared_of_normalForm h).symm ▸ hk)
  rw [attached, attached'] at fromStart
  rw [attached''] at afterwards
  have without : Without (.obj normal) (OnlyFor (.obj schema) (.obj normal) chain) (.obj fresh) := by
    refine fromStart.congr fun step way => ?_
    have required := prepared_get? schema "required" (by decide) (by decide)
    exact ⟨fun only => only.congr (fun m => (property?_prepared schema m).symm) required.symm,
      fun only => only.congr (property?_prepared schema) required⟩
  refine ⟨again, fresh, isAgain, isFresh, afterwards, without, fun way follows only => ?_⟩
  obtain ⟨n, list, there, lists⟩ := lists_of_follows distinct h follows
  have written : requiredAt (.obj normal) way = some (listJson list) := by
    rw [requiredAt, there]
    exact lists.written
  rw [afterwards way list follows written, without way list follows written]
  congr 3
  funext m
  refine decide_eq_decide.2 (not_congr ⟨fun same => ?_, only m⟩)
  rw [same]
  exact .whole leaf leaf'

/-- An item whose owner is listed only because of an address. -/
def itemSchema : Fields Json := [
  ("type", .str "object"),
  ("x-documentConfig", .obj [("documentName", .str "Item"), ("interfaceName", .str "Item"),
    ("methods", .arr [.str "get"])]),
  ("properties", .obj [
    ("owner", .obj [("type", .str "object"), ("properties", .obj [
      ("mail", .obj [("type", .str "string"), ("required", .bool true)])])])])]

/-- The lists of the owner agree, whenever the address is switched off. -/
theorem normalForm_switchOff_owner : ∃ normal again fresh, normalForm itemSchema = .ok normal ∧
    normalForm (switchOff ["owner", "mail"] normal) = .ok again ∧
    normalForm (switchOff ["owner", "mail"] itemSchema) = .ok fresh ∧
    requiredAt (.obj normal) [.property "owner"] = some (listJson ["mail"]) ∧
    requiredAt (.obj again) [.property "owner"] = requiredAt (.obj fresh) [.property "owner"] := by
  have leaf : Leaf (.obj itemSchema) ["owner", "mail"] :=
    .through (show property? _ "owner" = _ from rfl) rfl
      (.last (show property? _ "mail" = _ from rfl) rfl)
  obtain ⟨again, fresh, isAgain, isFresh, -, -, agree⟩ :=
    normalForm_switchOff (by decide) (show normalForm itemSchema = .ok _ from rfl) leaf
  refine ⟨_, again, fresh, rfl, isAgain, isFresh, rfl, agree _ ?_ ?_⟩
  · exact .property rfl rfl (.here rfl)
  · intro name only
    cases only with
    | onward _ _ only =>
      cases only
      rfl

/-- The item goes on listing its owner when the address is switched off after normalizing, and
does not list it when that is switched off from the start. -/
theorem normalForm_switchOff_keeps_owner : ∃ normal again fresh,
    normalForm itemSchema = .ok normal ∧ Leaf (.obj itemSchema) ["owner", "mail"] ∧
    normalForm (switchOff ["owner", "mail"] normal) = .ok again ∧
    normalForm (switchOff ["owner", "mail"] itemSchema) = .ok fresh ∧
    Follows (.obj normal) [] ∧ requiredAt (.obj again) [] = some (listJson ["owner"]) ∧
    requiredAt (.obj fresh) [] = some (listJson []) := by
  refine ⟨_, _, _, rfl, ?_, rfl, rfl, .here rfl, rfl, rfl⟩
  exact .through (show property? _ "owner" = _ from rfl) rfl
    (.last (show property? _ "mail" = _ from rfl) rfl)

end ResourceApi
