import ResourceApi.Proofs.Json.Throughout
import ResourceApi.Proofs.Results
import ResourceApi.Resource.Required

/-! # What flattening a node does

Flattening follows three kinds of node: an object gets a list and its properties are
flattened, an array of objects has its items flattened, and every other node stays as
it is. `Flattening` says so without the walk over the fields; `flatten_eq_ok` states
that it is what flattening does, and everything else about required names is read off
from it. What holds of a whole flattened tree is shown by `flatten_induction`, which
goes where flattening goes. -/

namespace ResourceApi.Required

open Results

/-! ## Kinds of node -/

/-- The property of that name of a node. -/
def property? (node : Json) (name : String) : Option Json :=
  (node.field? "properties").bind (·.field? name)

theorem property?_eq_some {node p : Json} {name : String} :
    property? node name = some p ↔ ∃ fields properties : Fields Json, node = .obj fields ∧
      fields.get? "properties" = some (.obj properties) ∧ properties.get? name = some p := by
  constructor
  · intro h
    obtain ⟨v, isProperties, isProperty⟩ := Option.bind_eq_some_iff.1 h
    obtain ⟨fields, rfl, found⟩ := Json.field?_eq_some.1 isProperties
    obtain ⟨properties, rfl, found'⟩ := Json.field?_eq_some.1 isProperty
    exact ⟨fields, properties, rfl, found, found'⟩
  · rintro ⟨fields, properties, rfl, found, found'⟩
    rw [property?, Json.field?_obj, found]
    exact found'

theorem property?_of_get? {fields properties : Fields Json}
    (found : fields.get? "properties" = some (.obj properties)) (name : String) :
    property? (.obj fields) name = properties.get? name := by
  rw [property?, Json.field?_obj, found]
  rfl

theorem distinct_property? {node p : Json} {name : String} (distinct : node.Distinct)
    (found : property? node name = some p) : p.Distinct := by
  obtain ⟨properties, isProperties, isProperty⟩ := Option.bind_eq_some_iff.1 found
  exact (distinct.field? isProperties).field? isProperty

theorem sizeOf_lt_of_property? {node p : Json} {name : String}
    (found : property? node name = some p) : sizeOf p < sizeOf node := by
  obtain ⟨properties, isProperties, isProperty⟩ := Option.bind_eq_some_iff.1 found
  exact Nat.lt_trans (Json.sizeOf_lt_of_field? isProperty) (Json.sizeOf_lt_of_field? isProperties)

theorem isObject_eq_true {node : Json} :
    isObject node = true ↔ node.field? "type" = some (.str "object") := by
  rw [isObject, decide_eq_true_eq]

theorem isArrayOfObjects_eq_true {node : Json} :
    isArrayOfObjects node = true ↔ node.field? "type" = some (.str "array") ∧
      ∃ items, node.field? "items" = some items ∧ isObject items = true := by
  rw [isArrayOfObjects, Bool.and_eq_true, decide_eq_true_eq]
  cases node.field? "items" with
  | none => simp
  | some items => simp

/-- A node is not both an object and an array. -/
theorem not_isArrayOfObjects {node : Json} (h : isObject node = true) :
    isArrayOfObjects node = false := by
  rw [isObject_eq_true] at h
  simp [isArrayOfObjects, h]

/-- The kind of a node does not hang on its properties. -/
theorem isObject_put {fields : Fields Json} {name : String} (h : name ≠ "type") (v : Json) :
    isObject (.obj (fields.put name v)) = isObject (.obj fields) := by
  rw [isObject, isObject, Json.field?_obj, Json.field?_obj, Fields.get?_put_of_ne h]

theorem hasFlag_eq_true {node : Json} :
    hasFlag node = true ↔ node.field? "required" = some (.bool true) := by
  rw [hasFlag]
  cases node.field? "required" with
  | none => simp
  | some value => simp [isFlag]

theorem isSwitchedOff_eq_true {node : Json} :
    isSwitchedOff node = true ↔ node.field? "required" = some (.bool false) := by
  rw [isSwitchedOff, decide_eq_true_eq]

/-- A name stays if its property is an object that is not switched off. -/
theorem stays_eq_true {properties : Fields Json} {name : String} :
    stays properties name = true ↔ ∃ p, properties.get? name = some p ∧ p.isObj = true ∧
      p.field? "required" ≠ some (.bool false) := by
  rw [stays]
  cases properties.get? name with
  | none => simp
  | some p =>
    rw [Bool.and_eq_true, Bool.not_eq_true', ← Bool.not_eq_true, isSwitchedOff_eq_true]
    simp

/-! ## The walk over the fields of a node -/

theorem flattenItems_eq {location : String} {fields : Fields Json} {items : Json}
    (found : fields.get? "items" = some items) :
    flattenItems location fields =
      (flatten (location ++ ".items") items).map fun f => fields.put "items" f.attached := by
  induction fields with
  | nil => simp at found
  | cons f rest ih =>
    obtain ⟨name, v⟩ := f
    rw [Fields.get?_cons] at found
    rw [flattenItems]
    by_cases h : name = "items"
    · subst h
      rw [if_pos rfl] at found
      cases found
      rw [if_pos rfl]
      cases flatten (location ++ ".items") v <;> rfl
    · rw [if_neg h] at found
      rw [if_neg h, ih found]
      simp only [Fields.put, if_neg h]
      cases flatten (location ++ ".items") items <;> rfl

/-- The properties of an object node, if it has an object of them. -/
def propertiesOf (fields : Fields Json) : Option (Fields Json) :=
  (fields.get? "properties").bind Json.fields?

theorem propertiesOf_eq_some {fields properties : Fields Json} :
    propertiesOf fields = some properties ↔ fields.get? "properties" = some (.obj properties) := by
  rw [propertiesOf]
  cases fields.get? "properties" with
  | none => simp
  | some v => cases v <;> simp [Json.fields?]

theorem flattenProperties_eq (location : String) (fields : Fields Json) :
    flattenProperties location fields =
      match propertiesOf fields with
      | none => .error (.noProperties (place location ".properties"))
      | some properties => (flattenEach location properties).map fun r =>
          (r.1, fields.put "properties" (.obj r.2)) := by
  induction fields with
  | nil => rfl
  | cons f rest ih =>
    obtain ⟨name, v⟩ := f
    by_cases h : name = "properties"
    · subst h
      have found : propertiesOf (("properties", v) :: rest) = v.fields? := by
        rw [propertiesOf, Fields.get?_cons, if_pos rfl, Option.bind_some]
      rw [found]
      cases v with
      | obj properties =>
        rw [flattenProperties, if_pos rfl]
        simp only [Json.fields?]
        cases flattenEach location properties <;> rfl
      | _ => simp [flattenProperties, Json.fields?, throw, throwThe, MonadExceptOf.throw]
    · have found : propertiesOf ((name, v) :: rest) = propertiesOf rest := by
        rw [propertiesOf, Fields.get?_cons, if_neg h, ← propertiesOf]
      have step : flattenProperties location ((name, v) :: rest) =
          (flattenProperties location rest).map fun r => (r.1, (name, v) :: r.2) := by
        rw [flattenProperties.eq_def]
        simp only [if_neg h]
        cases flattenProperties location rest <;> rfl
      rw [found, step, ih]
      cases propertiesOf rest with
      | none => rfl
      | some properties =>
        simp only [Fields.put, if_neg h]
        cases flattenEach location properties <;> rfl

/-! ## Three kinds of node -/

/-- What flattening makes of a node at a place, one case for each kind of node. -/
inductive Flattening (location : String) : Json → Flattened → Prop
  | items {fields : Fields Json} {items : Json} {f : Flattened} :
    isArrayOfObjects (.obj fields) = true → fields.get? "items" = some items →
    flatten (location ++ ".items") items = .ok f →
    Flattening location (.obj fields) ⟨none, .obj (fields.put "items" f.attached)⟩
  | object {fields properties properties' : Fields Json} {demanding : List String} :
    isObject (.obj fields) = true → fields.get? "properties" = some (.obj properties) →
    flattenEach location properties = .ok (demanding, properties') →
    Flattening location (.obj fields)
      ⟨some (combine (kept fields properties) demanding),
        .obj (fields.put "properties" (.obj properties'))⟩
  | other {node : Json} :
    isArrayOfObjects node = false → isObject node = false → Flattening location node ⟨none, node⟩

theorem flatten_of_object (location : String) {fields : Fields Json}
    (kind : isObject (.obj fields) = true) :
    flatten location (.obj fields) = (flattenProperties location fields).map fun r =>
      ⟨some (combine (kept fields ((propertiesOf fields).getD [])) r.1), .obj r.2⟩ := by
  rw [flatten, not_isArrayOfObjects kind, kind, propertiesOf]
  simp only [Bool.false_eq_true, if_false, if_true]
  cases flattenProperties location fields <;> rfl

theorem flatten_of_array (location : String) {fields : Fields Json}
    (kind : isArrayOfObjects (.obj fields) = true) :
    flatten location (.obj fields) =
      (flattenItems location fields).map fun fields' => ⟨none, .obj fields'⟩ := by
  rw [flatten, if_pos kind]
  cases flattenItems location fields <;> rfl

theorem flatten_of_other (location : String) {node : Json} (array : isArrayOfObjects node = false)
    (object : isObject node = false) : flatten location node = .ok ⟨none, node⟩ := by
  cases node with
  | obj fields => rw [flatten, array, object]; rfl
  | _ => rfl

/-- Flattening comes to a result exactly as `Flattening` says. -/
theorem flatten_eq_ok {location : String} {node : Json} {f : Flattened} :
    flatten location node = .ok f ↔ Flattening location node f := by
  constructor
  · intro h
    by_cases array : isArrayOfObjects node = true
    · obtain ⟨_, items, found, _⟩ := isArrayOfObjects_eq_true.1 array
      obtain ⟨fields, rfl, found⟩ := Json.field?_eq_some.1 found
      rw [flatten_of_array location array, flattenItems_eq found, map_eq_ok] at h
      obtain ⟨fields', walked, rfl⟩ := h
      obtain ⟨g, below, rfl⟩ := map_eq_ok.1 walked
      exact .items array found below
    · rw [Bool.not_eq_true] at array
      by_cases object : isObject node = true
      · obtain ⟨fields, rfl, _⟩ := Json.field?_eq_some.1 (isObject_eq_true.1 object)
        rw [flatten_of_object location object, flattenProperties_eq, map_eq_ok] at h
        obtain ⟨r, walked, rfl⟩ := h
        cases found : propertiesOf fields with
        | none => rw [found] at walked; cases walked
        | some properties =>
          rw [found] at walked
          obtain ⟨s, below, rfl⟩ := map_eq_ok.1 walked
          exact .object object (propertiesOf_eq_some.1 found) below
      · rw [Bool.not_eq_true] at object
        rw [flatten_of_other location array object] at h
        cases h
        exact .other array object
  · intro h
    cases h with
    | items kind found below =>
      rw [flatten_of_array location kind, flattenItems_eq found, below]
      rfl
    | object kind found below =>
      have found' := propertiesOf_eq_some.2 found
      rw [flatten_of_object location kind, flattenProperties_eq, found']
      simp only [below]
      rfl
    | other array object => exact flatten_of_other location array object

/-- An object is flattened by its properties. -/
theorem object_of_flatten {location : String} {node : Json} {f : Flattened}
    (h : flatten location node = .ok f) (object : isObject node = true) :
    ∃ (fields properties properties' : Fields Json) (demanding : List String),
      node = .obj fields ∧ fields.get? "properties" = some (.obj properties) ∧
      flattenEach location properties = .ok (demanding, properties') ∧
      f = ⟨some (combine (kept fields properties) demanding),
        .obj (fields.put "properties" (.obj properties'))⟩ := by
  cases flatten_eq_ok.1 h with
  | object _ found each => exact ⟨_, _, _, _, rfl, found, each, rfl⟩
  | items array =>
    rw [not_isArrayOfObjects object] at array
    cases array
  | other _ other =>
    rw [other] at object
    cases object

/-- An array of objects is flattened by its items. -/
theorem array_of_flatten {location : String} {node : Json} {f : Flattened}
    (h : flatten location node = .ok f) (array : isArrayOfObjects node = true) :
    ∃ (fields : Fields Json) (items : Json) (g : Flattened), node = .obj fields ∧
      fields.get? "items" = some items ∧ flatten (location ++ ".items") items = .ok g ∧
      f = ⟨none, .obj (fields.put "items" g.attached)⟩ := by
  cases flatten_eq_ok.1 h with
  | items _ found below => exact ⟨_, _, _, rfl, found, below, rfl⟩
  | object object =>
    rw [not_isArrayOfObjects object] at array
    cases array
  | other other =>
    rw [other] at array
    cases array

/-! ## The properties of a node -/

/-- The place of a property. -/
abbrev placeOf (location name : String) : String := place location (".properties." ++ name)

theorem flattenEach_cons {location name : String} {v : Json} {rest : Fields Json}
    {r : List String × Fields Json} :
    flattenEach location ((name, v) :: rest) = .ok r ↔
      v.isObj = true ∧ ∃ p, flatten (placeOf location name) v = .ok p ∧
        ∃ s, flattenEach location rest = .ok s ∧
          r = (if p.demands (hasFlag v) then name :: s.1 else s.1, (name, p.attached) :: s.2) := by
  rw [flattenEach]
  cases v.isObj with
  | false => simp [throw, throwThe, MonadExceptOf.throw]
  | true =>
    simp only [if_true, true_and, bind_eq_ok]
    constructor
    · rintro ⟨p, hp, s, hs, h⟩
      cases h
      exact ⟨p, hp, s, hs, rfl⟩
    · rintro ⟨p, hp, s, hs, rfl⟩
      exact ⟨p, hp, s, hs, rfl⟩

section Each

variable {location : String} {properties properties' : Fields Json} {demanding : List String}

/-- The names of the properties stay, in their order. -/
theorem flattenEach_names (h : flattenEach location properties = .ok (demanding, properties')) :
    properties'.names = properties.names := by
  induction properties generalizing demanding properties' with
  | nil => cases h; rfl
  | cons f rest ih =>
    obtain ⟨_, p, _, s, hs, heq⟩ := flattenEach_cons.1 h
    cases heq
    rw [Fields.names_cons, Fields.names_cons, ih hs]

/-- Each property is an object and is flattened at its place; if it demands it, it is named. -/
theorem flattenEach_get? (h : flattenEach location properties = .ok (demanding, properties'))
    {name : String} {v : Json} (found : properties.get? name = some v) :
    v.isObj = true ∧ ∃ p, flatten (placeOf location name) v = .ok p ∧
      properties'.get? name = some p.attached ∧
      (p.demands (hasFlag v) = true → name ∈ demanding) := by
  induction properties generalizing demanding properties' with
  | nil => simp at found
  | cons f rest ih =>
    obtain ⟨n, w⟩ := f
    obtain ⟨isObj, p, hp, s, hs, heq⟩ := flattenEach_cons.1 h
    cases heq
    rw [Fields.get?_cons] at found
    by_cases same : n = name
    · subst same
      rw [if_pos rfl] at found
      cases found
      refine ⟨isObj, p, hp, by simp [Fields.get?], ?_⟩
      intro demands
      rw [if_pos demands]
      exact List.mem_cons_self
    · rw [if_neg same] at found
      obtain ⟨isObj', p', hp', found', named⟩ := ih hs found
      refine ⟨isObj', p', hp', by simpa [Fields.get?, same] using found', ?_⟩
      intro demands
      split
      · exact List.mem_cons_of_mem _ (named demands)
      · exact named demands

/-- Every flattened property comes from the property of its name. -/
theorem flattenEach_get?_result
    (h : flattenEach location properties = .ok (demanding, properties')) {name : String} {w : Json}
    (found : properties'.get? name = some w) :
    ∃ v, properties.get? name = some v ∧ v.isObj = true ∧
      ∃ p, flatten (placeOf location name) v = .ok p ∧ w = p.attached ∧
        (p.demands (hasFlag v) = true → name ∈ demanding) := by
  have named := flattenEach_names h ▸ Fields.mem_names_of_get? found
  cases orig : properties.get? name with
  | none => exact absurd named (Fields.get?_eq_none_iff.1 orig)
  | some v =>
    obtain ⟨isObj, p, hp, found', demands⟩ := flattenEach_get? h orig
    rw [found] at found'
    exact ⟨v, rfl, isObj, p, hp, Option.some.inj found', demands⟩

/-- Every flattened property is what flattening gives of a property. -/
theorem flattenEach_mem (h : flattenEach location properties = .ok (demanding, properties'))
    {name : String} {w : Json} (mem : (name, w) ∈ properties') :
    ∃ v p, (name, v) ∈ properties ∧ flatten (placeOf location name) v = .ok p ∧
      w = p.attached := by
  induction properties generalizing demanding properties' with
  | nil => cases h; cases mem
  | cons f rest ih =>
    obtain ⟨_, p, hp, s, hs, heq⟩ := flattenEach_cons.1 h
    cases heq
    rcases List.mem_cons.1 mem with same | later
    · cases same
      exact ⟨f.2, p, List.mem_cons_self, hp, rfl⟩
    · obtain ⟨v, q, mem', rest⟩ := ih hs later
      exact ⟨v, q, List.mem_cons_of_mem _ mem', rest⟩

/-- The demanding names are names of properties, in their order. -/
theorem flattenEach_sublist (h : flattenEach location properties = .ok (demanding, properties')) :
    demanding.Sublist properties.names := by
  induction properties generalizing demanding properties' with
  | nil => cases h; exact List.Sublist.refl _
  | cons f rest ih =>
    obtain ⟨_, p, _, s, hs, heq⟩ := flattenEach_cons.1 h
    cases heq
    rw [Fields.names_cons]
    split
    · exact (ih hs).cons_cons _
    · exact (ih hs).cons _

/-- A demanding name is the name of a property that demands to be listed. -/
theorem flattenEach_demanding (h : flattenEach location properties = .ok (demanding, properties'))
    (nodup : properties.names.Nodup) {name : String} (named : name ∈ demanding) :
    ∃ v p, properties.get? name = some v ∧ v.isObj = true ∧
      flatten (placeOf location name) v = .ok p ∧ p.demands (hasFlag v) = true := by
  induction properties generalizing demanding properties' with
  | nil => cases h; cases named
  | cons f rest ih =>
    obtain ⟨n, w⟩ := f
    obtain ⟨isObj, p, hp, s, hs, heq⟩ := flattenEach_cons.1 h
    cases heq
    rw [Fields.names_cons, List.nodup_cons] at nodup
    have later (m : name ∈ s.1) :
        ∃ v p, Fields.get? ((n, w) :: rest) name = some v ∧ v.isObj = true ∧
          flatten (placeOf location name) v = .ok p ∧ p.demands (hasFlag v) = true := by
      obtain ⟨v, q, found, rest⟩ := ih hs nodup.2 m
      have other : n ≠ name := fun same => nodup.1 (same ▸ Fields.mem_names_of_get? found)
      exact ⟨v, q, by rw [Fields.get?_cons, if_neg other, found], rest⟩
    split at named
    · next demands =>
      rcases List.mem_cons.1 named with rfl | m
      · exact ⟨w, p, by rw [Fields.get?_cons, if_pos rfl], isObj, hp, demands⟩
      · exact later m
    · exact later named

end Each

/-! ## Induction -/

/-- Induction on a node that is flattened: an array of objects by its items, an object by its
properties, each where it stands. -/
@[elab_as_elim]
theorem flatten_induction
    {motive : ∀ {location node f}, flatten location node = .ok f → Prop}
    (items : ∀ {location : String} {fields : Fields Json} {items : Json} {f : Flattened}
      (kind : isArrayOfObjects (.obj fields) = true) (found : fields.get? "items" = some items)
      (below : flatten (location ++ ".items") items = .ok f),
      motive below → motive (flatten_eq_ok.2 (.items kind found below)))
    (object : ∀ {location : String} {fields properties properties' : Fields Json}
      {demanding : List String} (kind : isObject (.obj fields) = true)
      (found : fields.get? "properties" = some (.obj properties))
      (each : flattenEach location properties = .ok (demanding, properties')),
      (∀ p ∈ properties, ∀ {f} (below : flatten (placeOf location p.1) p.2 = .ok f), motive below) →
      motive (flatten_eq_ok.2 (.object kind found each)))
    (other : ∀ {location : String} {node : Json} (array : isArrayOfObjects node = false)
      (object : isObject node = false),
      motive (flatten_eq_ok.2 (@Flattening.other location node array object)))
    {location : String} {node : Json} {f : Flattened} (h : flatten location node = .ok f) :
    motive h := by
  cases flatten_eq_ok.1 h with
  | items kind found below =>
    have smaller := Json.sizeOf_lt_of_get? found
    exact items kind found below (flatten_induction items object other below)
  | @object fields properties _ _ kind found each =>
    refine object kind found each fun p mem f below => ?_
    have smaller : sizeOf p.2 < sizeOf (Json.obj fields) :=
      Nat.lt_trans (Json.sizeOf_lt_of_mem mem) (Json.sizeOf_lt_of_get? found)
    exact flatten_induction items object other below
  | other array object => exact other array object
termination_by sizeOf node
decreasing_by
  all_goals
    subst_vars
    exact smaller

end ResourceApi.Required
