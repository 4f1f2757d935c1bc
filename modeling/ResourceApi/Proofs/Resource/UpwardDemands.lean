import ResourceApi.Proofs.Resource.SwitchedOff

/-! # How demands come up

Which names flattening lists for an object, said of the tree as it was before. An object
asks for a property itself, by the property's flag or by a list of its own; and what it
asks for comes up through the objects above it, to the property of the node that it is
below. Only objects pass a demand on. The names that survive from the node's own list
come first, then all others in the order of the properties. -/

namespace ResourceApi.Required

variable {location name : String} {node p : Json} {f : Flattened} {list : List String}

/-! ## Chains of objects -/

/-- A chain of names leads down through objects to a property that the last of them asks for. -/
inductive AskedFor : Json → List String → Prop
  | last {node : Json} {name : String} : Asks node name → AskedFor node [name]
  | through {node p : Json} {name : String} {rest : List String} :
    property? node name = some p → isObject p = true → AskedFor p rest →
    AskedFor node (name :: rest)

/-- A node lists a property: it asks for it itself, or the property is an object from which a chain
leads on to something that is asked for. -/
def Demanded (node : Json) (name : String) : Prop :=
  Asks node name ∨
    ∃ p, property? node name = some p ∧ isObject p = true ∧ ∃ chain, AskedFor p chain

theorem exists_chain_iff : (∃ chain, AskedFor node chain) ↔ ∃ name, Demanded node name := by
  constructor
  · rintro ⟨chain, asked⟩
    cases asked with
    | last asks => exact ⟨_, Or.inl asks⟩
    | through here object onward => exact ⟨_, Or.inr ⟨_, here, object, _, onward⟩⟩
  · rintro ⟨name, asks | ⟨p, here, object, chain, onward⟩⟩
    · exact ⟨_, .last asks⟩
    · exact ⟨_, .through here object onward⟩

/-- What is no object is listed only if the node asks for it itself. -/
theorem demanded_iff_asks (here : property? node name = some p) (other : isObject p = false) :
    Demanded node name ↔ Asks node name := by
  refine ⟨fun demanded => demanded.resolve_right ?_, Or.inl⟩
  rintro ⟨q, found, object, -⟩
  obtain rfl := Option.some.inj (here.symm.trans found)
  rw [object] at other
  cases other

theorem Demanded.property (demanded : Demanded node name) : ∃ p, property? node name = some p := by
  rcases demanded with ⟨p, here, -⟩ | ⟨p, here, -⟩
  · exact ⟨p, here⟩
  · exact ⟨p, here⟩

/-! ## The names that are listed -/

/-- The list of an object names what is demanded. The induction is on the tree: a property that is
an object demands to be listed if something is demanded of it. -/
theorem mem_list_iff {location name : String} {node : Json} {f : Flattened} {list : List String}
    (distinct : node.Distinct) (h : flatten location node = .ok f)
    (isList : f.list = some list) : name ∈ list ↔ Demanded node name := by
  induction h using flatten_induction generalizing name list with
  | items => cases isList
  | other => cases isList
  | @object _ fields properties _ demanding object found each ih =>
    cases isList
    have nodup := (distinct.get? found).nodup
    have isProperty := property?_of_get? found name
    cases here : properties.get? name with
    | none =>
      rw [here] at isProperty
      refine iff_of_false (fun listed => ?_) (fun demanded => ?_)
      · rcases mem_combine.1 listed with old | new
        · obtain ⟨v, found', -⟩ := stays_eq_true.1 (stays_of_kept old)
          rw [here] at found'
          cases found'
        · exact Fields.get?_eq_none_iff.1 here ((flattenEach_sublist each).subset new)
      · obtain ⟨p, found'⟩ := demanded.property
        rw [isProperty] at found'
        cases found'
    | some v =>
      rw [here] at isProperty
      obtain ⟨isObj, g, hg, -⟩ := flattenEach_get? each here
      rw [mem_combine, mem_kept_of_get? here isObj, mem_demanding nodup each here hg]
      cases object' : isObject v with
      | false =>
        rw [demanded_iff_asks isProperty object', asks_iff isProperty, Flattened.demands,
          list_of_not_isObject hg object']
        simp
      | true =>
        obtain ⟨inner, isInner, -⟩ := required_of_isObject hg object'
        have some : inner ≠ [] ↔ ∃ chain, AskedFor v chain := by
          have listed (n : String) : n ∈ inner ↔ Demanded v n :=
            ih (name, v) (Fields.mem_of_get? here) hg ((distinct.get? found).get? here) isInner
          rw [exists_chain_iff]
          constructor
          · intro nonempty
            obtain ⟨n, mem⟩ := List.exists_mem_of_ne_nil inner nonempty
            exact ⟨n, (listed n).1 mem⟩
          · rintro ⟨n, demanded⟩
            exact List.ne_nil_of_mem ((listed n).2 demanded)
        rw [demands_iff isInner, some, ← or_assoc, ← asks_iff isProperty, Demanded, isProperty]
        simp [object']

/-! ## Their order -/

/-- The names of a node's own list that are properties and not switched off, each once. -/
def survivors (node : Json) : List String :=
  (names ((node.field? "required").getD .null)).eraseDups.filter fun name =>
    ((property? node name).map fun p => !isSwitchedOff p).getD false

theorem kept_eq_survivors {fields properties : Fields Json}
    (found : fields.get? "properties" = some (.obj properties))
    (objects : ∀ name p, properties.get? name = some p → p.isObj = true) :
    kept fields properties = survivors (.obj fields) := by
  rw [kept, survivors, Json.field?_obj]
  refine List.filter_congr fun name _ => ?_
  rw [property?_of_get? found]
  cases here : properties.get? name with
  | none => rw [stays, here]; rfl
  | some p => rw [stays_of_get? here (objects name p here)]; rfl

/-- A sublist of names that are all different is what filtering them by it leaves. -/
theorem filter_mem_eq_self {sub whole : List String} (sublist : sub.Sublist whole)
    (nodup : whole.Nodup) : whole.filter (· ∈ sub) = sub := by
  induction sublist with
  | slnil => rfl
  | @cons sub whole n sublist ih =>
    obtain ⟨fresh, nodup⟩ := List.nodup_cons.1 nodup
    have absent : n ∉ sub := fun mem => fresh (sublist.subset mem)
    rw [List.filter_cons_of_neg (by simpa using absent), ih nodup]
  | @cons_cons sub whole n sublist ih =>
    obtain ⟨fresh, nodup⟩ := List.nodup_cons.1 nodup
    rw [List.filter_cons_of_pos (by simp)]
    congr 1
    refine (List.filter_congr fun m mem => ?_).trans (ih nodup)
    have other : m ≠ n := fun same => fresh (same ▸ mem)
    simp [other]

/-- A list is its kept names, and then its other names in the order of the properties. -/
theorem combine_eq {kept demanding whole : List String} (sublist : demanding.Sublist whole)
    (nodup : whole.Nodup) :
    combine kept demanding =
      kept ++ whole.filter fun n => n ∈ combine kept demanding ∧ n ∉ kept := by
  have others : (whole.filter fun n => n ∈ combine kept demanding ∧ n ∉ kept) =
      (whole.filter (· ∈ demanding)).filter (· ∉ kept) := by
    rw [List.filter_filter]
    refine List.filter_congr fun n _ => ?_
    by_cases old : n ∈ kept
    · simp [old]
    · simp [old, mem_combine]
  rw [others, filter_mem_eq_self sublist nodup, combine]
  congr 1
  exact List.filter_congr fun n _ => by simp

/-- **What flattening lists for an object.** A name is listed exactly if the node asks for it, or a
chain of objects leads down from it to something that is asked for; an array of objects, like
whatever is no object, is listed only if the node asks for it itself. The survivors of the node's
own list come first, then the other names in the order of the properties. -/
theorem flatten_list (distinct : node.Distinct) (h : flatten location node = .ok f)
    (object : isObject node = true) :
    ∃ (properties : Fields Json) (list : List String),
      node.field? "properties" = some (.obj properties) ∧ f.list = some list ∧
      (∀ name, name ∈ list ↔ Demanded node name) ∧
      (∀ name p, property? node name = some p → isObject p = false →
        (name ∈ list ↔ Asks node name)) ∧
      list = survivors node ++
        properties.names.filter fun n => n ∈ list ∧ n ∉ survivors node := by
  obtain ⟨list, isList, -⟩ := required_of_isObject h object
  have listed (name : String) : name ∈ list ↔ Demanded node name := mem_list_iff distinct h isList
  cases flatten_eq_ok.1 h with
  | items => cases isList
  | other => cases isList
  | @object fields properties properties' demanding _ found each =>
    cases isList
    refine ⟨properties, _, found, rfl, listed, ?_, ?_⟩
    · intro name p here other
      rw [listed, demanded_iff_asks here other]
    · rw [← kept_eq_survivors found fun name p here => (flattenEach_get? each here).1]
      exact combine_eq (flattenEach_sublist each) (distinct.get? found).nodup

/-- Of an order's own list only the note survives. The buyer is switched off, but its mail is asked
for, and that comes up; what the lines ask for does not. -/
theorem flatten_list_order : ∃ f,
    (Json.obj (prepared orderSchema)).Distinct ∧
      flatten "" (.obj (prepared orderSchema)) = .ok f ∧
      isObject (.obj (prepared orderSchema)) = true ∧ f.list = some ["note", "buyer"] ∧
      (∀ name, name ∈ ["note", "buyer"] ↔ Demanded (.obj (prepared orderSchema)) name) ∧
      survivors (.obj (prepared orderSchema)) = ["note"] := by
  obtain ⟨f, h, given⟩ : ∃ f, flatten "" (.obj (prepared orderSchema)) = .ok f ∧
    f.list = some ["note", "buyer"] := ⟨_, rfl, rfl⟩
  have distinct : (Json.obj (prepared orderSchema)).Distinct := by decide
  obtain ⟨_, list, -, isList, listed, -⟩ := flatten_list distinct h (by decide)
  obtain rfl := Option.some.inj (isList.symm.trans given)
  exact ⟨f, distinct, h, by decide, isList, listed, by decide⟩

end ResourceApi.Required
