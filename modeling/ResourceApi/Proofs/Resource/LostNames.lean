import ResourceApi.Proofs.Resource.Positions

/-! # Lists that lose a name

What becomes of the list of an object when one of its properties is replaced by one that
asks for less, and of the lists at all positions when that happens somewhere below. -/

namespace ResourceApi.Required

/-! ## Kept names and demanding names -/

theorem mem_kept {fields properties : Fields Json} {name : String} :
    name ∈ kept fields properties ↔
      Requires (.obj fields) name ∧ stays properties name = true := by
  rw [kept, List.mem_filter, List.mem_eraseDups]
  refine and_congr_left fun _ => ?_
  constructor
  · intro named
    cases written : fields.get? "required" with
    | none => rw [written] at named; cases named
    | some value =>
      rw [written] at named
      cases value with
      | arr listed =>
        obtain ⟨v, mem, isText⟩ := List.mem_filterMap.1 named
        cases v with
        | str s =>
          cases isText
          exact ⟨listed, written, mem⟩
        | _ => cases isText
      | _ => cases named
  · rintro ⟨listed, isList, mem⟩
    rw [Json.field?_obj] at isList
    rw [isList]
    exact List.mem_filterMap.2 ⟨_, mem, rfl⟩

/-- What is left of a list when its two parts lose names: a kept name that is lost does not come
back by demanding to be listed. -/
theorem combine_filter {kept demanding : List String} {p q r : String → Bool}
    (old : ∀ n ∈ kept, p n = r n) (new : ∀ n ∈ demanding, n ∉ kept → q n = r n)
    (lost : ∀ n ∈ kept, q n = true → p n = true) :
    combine (kept.filter p) (demanding.filter q) = (combine kept demanding).filter r := by
  rw [combine, combine, List.filter_append, List.filter_filter, List.filter_filter,
    List.filter_congr old]
  congr 1
  refine List.filter_congr fun n mem => ?_
  by_cases inside : n ∈ kept
  · cases stays : r n with
    | true => simp [inside, stays]
    | false =>
      have again : q n = false := by
        rw [← Bool.not_eq_true]
        intro demands
        rw [← old n inside, lost n inside demands] at stays
        cases stays
      simp [again]
  · simp [inside, new n mem inside]

/-! ## One property in place of another -/

section Put

variable {location name : String} {fields properties properties' : Fields Json}
  {demanding : List String} {v v' : Json} {g g' : Flattened}

theorem mem_demanding (nodup : properties.names.Nodup)
    (each : flattenEach location properties = .ok (demanding, properties'))
    (here : properties.get? name = some v) (hg : flatten (placeOf location name) v = .ok g) :
    name ∈ demanding ↔ g.demands (hasFlag v) = true := by
  constructor
  · intro named
    obtain ⟨w, p, found, -, hp, demands⟩ := flattenEach_demanding each nodup named
    obtain rfl := Option.some.inj (here.symm.trans found)
    rw [hg] at hp
    cases hp
    exact demands
  · intro demands
    obtain ⟨-, p, hp, -, named⟩ := flattenEach_get? each here
    rw [hg] at hp
    cases hp
    exact named demands

/-- A property that takes the place of another demands to be listed or not; nothing else changes. -/
theorem flattenEach_put (nodup : properties.names.Nodup)
    (each : flattenEach location properties = .ok (demanding, properties'))
    (here : properties.get? name = some v) (isObj : v'.isObj = true)
    (hg' : flatten (placeOf location name) v' = .ok g')
    (less : g'.demands (hasFlag v') = true → name ∈ demanding) :
    flattenEach location (properties.put name v') =
      .ok (demanding.filter fun n => n ≠ name || g'.demands (hasFlag v'),
        properties'.put name g'.attached) := by
  induction properties generalizing demanding properties' with
  | nil => simp at here
  | cons f rest ih =>
    obtain ⟨n, w⟩ := f
    obtain ⟨fresh, nodup⟩ := List.nodup_cons.1 nodup
    obtain ⟨isObjW, q, hq, s, hs, heq⟩ := flattenEach_cons.1 each
    cases heq
    by_cases same : n = name
    · subst same
      have absent : n ∉ s.1 := fun named => fresh ((flattenEach_sublist hs).subset named)
      rw [Fields.put, if_pos rfl]
      refine flattenEach_cons.2 ⟨isObj, g', hg', s, hs, ?_⟩
      rw [Fields.put, if_pos rfl]
      congr 1
      have others : s.1.filter (fun m => m ≠ n || g'.demands (hasFlag v')) = s.1 := by
        refine List.filter_eq_self.2 fun m mem => ?_
        have other : m ≠ n := fun same => absent (same ▸ mem)
        simp [other]
      cases demands : g'.demands (hasFlag v') with
      | true =>
        have named := less demands
        split at named
        · next demanded => simp [demanded]
        · exact absurd named absent
      | false =>
        rw [demands] at others
        split
        · rw [List.filter_cons_of_neg (by simp), others]
          rfl
        · exact others
    · rw [Fields.get?_cons, if_neg same] at here
      have less' : g'.demands (hasFlag v') = true → name ∈ s.1 := by
        intro demands
        have named := less demands
        split at named
        · exact (List.mem_cons.1 named).resolve_left (Ne.symm same)
        · exact named
      rw [Fields.put, if_neg same]
      refine flattenEach_cons.2 ⟨isObjW, q, hq, _, ih nodup hs here less', ?_⟩
      rw [Fields.put, if_neg same]
      congr 1
      split
      · rw [List.filter_cons_of_pos (by simp [same])]
      · rfl

theorem stays_of_get? (here : properties.get? name = some v) (isObj : v.isObj = true) :
    stays properties name = !isSwitchedOff v := by
  rw [stays, here]
  simp only [isObj, Bool.true_and]

theorem mem_kept_of_get? (here : properties.get? name = some v) (isObj : v.isObj = true) :
    name ∈ kept fields properties ↔ Requires (.obj fields) name ∧ isSwitchedOff v = false := by
  rw [mem_kept, stays_of_get? here isObj, Bool.not_eq_true']

/-- A kept name stays kept unless its property is now switched off. -/
theorem kept_put (here : properties.get? name = some v) (isObj : v.isObj = true)
    (isObj' : v'.isObj = true) (off : isSwitchedOff v = true → isSwitchedOff v' = true) (x : Json) :
    kept (fields.put "properties" x) (properties.put name v') =
      (kept fields properties).filter fun n => n ≠ name || !isSwitchedOff v' := by
  rw [kept, kept, Fields.get?_put_of_ne (by decide), List.filter_filter]
  refine List.filter_congr fun n _ => ?_
  by_cases same : n = name
  · subst same
    rw [stays_of_get? here isObj, stays_of_get? (Fields.get?_put_self ..) isObj']
    cases h : isSwitchedOff v with
    | false => simp
    | true => simp [off h]
  · rw [stays, Fields.get?_put_of_ne (Ne.symm same), ← stays]
    simp [same]

/-- The list when a property has taken the place of another: the name is lost if it is not kept
from the list that was there and does not demand to be listed. A kept name is not switched off
while it demands to be listed. -/
theorem combine_put {demands : Bool} {r : String → Bool}
    (here : properties.get? name = some v) (isObj : v.isObj = true) (isObj' : v'.isObj = true)
    (off : isSwitchedOff v = true → isSwitchedOff v' = true)
    (quiet : demands = true → isSwitchedOff v' = true → isSwitchedOff v = true)
    (others : ∀ n, n ≠ name → r n = true)
    (itself : name ∈ combine (kept fields properties) demanding →
      (r name = true ↔
        (Requires (.obj fields) name ∧ isSwitchedOff v' = false) ∨ demands = true)) (x : Json) :
    combine (kept (fields.put "properties" x) (properties.put name v'))
        (demanding.filter fun n => n ≠ name || demands) =
      (combine (kept fields properties) demanding).filter r := by
  rw [kept_put here isObj isObj' off]
  have lost (old : name ∈ kept fields properties) : demands = true → isSwitchedOff v' = false := by
    obtain ⟨-, on⟩ := (mem_kept_of_get? here isObj).1 old
    cases off' : isSwitchedOff v' with
    | false => exact fun _ => rfl
    | true =>
      intro again
      rw [quiet again off'] at on
      cases on
  refine combine_filter ?_ ?_ ?_
  · intro n old
    by_cases same : n = name
    · subst same
      obtain ⟨required, -⟩ := (mem_kept_of_get? here isObj).1 old
      rw [Bool.eq_iff_iff, itself (mem_combine.2 (.inl old))]
      simpa [required] using lost old
    · simp [same, others n same]
  · intro n new fresh
    by_cases same : n = name
    · subst same
      have apart : ¬ (Requires (.obj fields) n ∧ isSwitchedOff v' = false) := by
        rintro ⟨required, on'⟩
        refine fresh ((mem_kept_of_get? here isObj).2 ⟨required, ?_⟩)
        rw [← Bool.not_eq_true] at on' ⊢
        exact fun h => on' (off h)
      rw [Bool.eq_iff_iff, itself (mem_combine.2 (.inr new))]
      simp [apart]
    · simp [same, others n same]
  · intro n old again
    by_cases same : n = name
    · subst same
      simp only [ne_eq, not_true_eq_false, decide_false, Bool.false_or] at again ⊢
      rw [lost old again, Bool.not_false]
    · simp [same]

end Put

/-! ## Lists by position -/

/-- What the node at a position declares about required names. -/
def requiredAt (root : Json) (way : List Step) : Option Json :=
  (at? root way).bind (·.field? "required")

theorem requiredAt_property {node p : Json} {name : String} {rest : List Step}
    (found : property? node name = some p) :
    requiredAt node (.property name :: rest) = requiredAt p rest := by
  rw [requiredAt, at?_property found, requiredAt]

open Classical in
/-- At every node that is followed, `after` has the list of `before` without the names of the
properties at the positions in `gone`. -/
def Without (before : Json) (gone : List Step → Prop) (after : Json) : Prop :=
  ∀ way list, Follows before way → requiredAt before way = some (listJson list) →
    requiredAt after way =
      some (listJson (list.filter fun name => ¬ gone (way ++ [.property name])))

theorem Without.congr {before after : Json} {gone gone' : List Step → Prop}
    (without : Without before gone after)
    (same : ∀ step way, gone (step :: way) ↔ gone' (step :: way)) : Without before gone' after := by
  intro way list follows isList
  rw [without way list follows isList]
  congr 3
  funext n
  cases way with
  | nil => exact decide_eq_decide.2 (not_congr (same ..))
  | cons step way => exact decide_eq_decide.2 (not_congr (same ..))

open Classical in
/-- Trees that differ below one property only. -/
theorem Without.of_property {before after c c' : Json} {gone : List Step → Prop} {name : String}
    {list : List String} (object : isObject before = true)
    (root : before.field? "required" = some (listJson list))
    (root' : after.field? "required" =
      some (listJson (list.filter fun n => ¬ gone [.property n])))
    (here : property? before name = some c) (here' : property? after name = some c')
    (others : ∀ m, m ≠ name → property? after m = property? before m)
    (aside : ∀ m way, m ≠ name → ¬ gone (.property m :: way))
    (below : Without c (fun way => gone (.property name :: way)) c') :
    Without before gone after := by
  intro way listed follows isList
  cases follows with
  | here =>
    obtain rfl := listJson_injective (Option.some.inj (root.symm.trans isList))
    exact root'
  | @property _ p m rest _ found onward =>
    by_cases same : m = name
    · subst same
      obtain rfl := Option.some.inj (here.symm.trans found)
      rw [requiredAt_property here] at isList
      rw [requiredAt_property here']
      exact below rest listed onward isList
    · have unchanged : requiredAt after (.property m :: rest) = some (listJson listed) := by
        rw [requiredAt_property ((others m same).trans found), ← requiredAt_property found, isList]
      have all : (listed.filter fun n => ¬ gone (.property m :: rest ++ [.property n])) = listed :=
        List.filter_eq_self.2 fun n _ => decide_eq_true (aside m _ same)
      rw [all, unchanged]
  | items array =>
    rw [not_isArrayOfObjects object] at array
    cases array

end ResourceApi.Required
