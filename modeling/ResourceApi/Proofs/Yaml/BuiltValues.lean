import ResourceApi.Proofs.Yaml.HeldValues

/-! # Values built from their nodes

A document whose nodes hold a value is built as this value. What is built of a node is
either what its entry says in the end, or still empty and waiting to be filled. Only what
was not built before is set to wait, so no more collections are filled than there are
nodes; and in the end all are what their entries say. -/

namespace ResourceApi.Yaml

open Yaml.Graph
open Results (ok_bind)

namespace Building

variable {g : Graph} {b b' : Building} {i j : Nat} {busy : List Nat}

/-! ## What is built -/

def IsBuilt (b : Building) (i : Nat) : Prop := (b.get? i).isSome = true

/-- What is built of a node in the end. -/
def whole (g : Graph) (i : Nat) : Lex Built :=
  match g.entry i with
  | .scalar .. => .scalar <$> scalarValue g i
  | .sequence _ parts => .ok (.list parts)
  | .mapping _ parts => .ok (.map (parts.map fun f => (textAt g f.1, f.2)))

/-- The numbers of a node's items or values. -/
def partsOf (g : Graph) (i : Nat) : List Nat :=
  match g.entry i with
  | .scalar .. => []
  | .sequence _ parts => parts
  | .mapping _ parts => parts.map Prod.snd

/-- What is built of a node is empty and still to be filled, or what its entry says; then its parts
are built too. -/
def Stands (g : Graph) (b : Building) (isOpen : Prop) (i : Nat) (x : Built) : Prop :=
  (isOpen ∧ Built.collection? (g.tag i) = some x) ∨
    (whole g i = .ok x ∧ ∀ j ∈ partsOf g i, b.IsBuilt j)

/-- Where the collections in `busy` are being filled. -/
structure Sound (g : Graph) (busy : List Nat) (b : Building) : Prop where
  graph : b.graph = g
  size : b.built.size = g.entries.size
  held : ∀ i, b.IsBuilt i → Held g i
  stands : ∀ i x, b.get? i = some x → Stands g b (i ∈ busy ∨ i ∈ b.waiting) i x
  waiting : ∀ i ∈ b.waiting, b.IsBuilt i

/-- What is left to do: nodes to be built, and collections to be filled. -/
def cost (b : Building) : Nat := b.waiting.length + b.built.toList.countP Option.isNone

theorem Held.lt (held : Held g i) : i < g.entries.size := by
  obtain ⟨_, _, _, entry, _⟩ | ⟨_, entry, _⟩ | ⟨_, entry, _⟩ := held_cases held <;>
    exact (Array.getElem?_eq_some_iff.1 entry).1

/-! ## One more node -/

theorem get?_put (x : Built) (lt : i < b.built.size) :
    (b.put i x).get? j = if i = j then some x else b.get? j := by
  rw [get?, put, Array.getElem?_setIfInBounds, if_pos lt]
  split_ifs <;> rfl

theorem isBuilt_put (x : Built) (lt : i < b.built.size) : (b.put i x).IsBuilt i := by
  rw [IsBuilt, get?_put x lt, if_pos rfl]
  rfl

theorem IsBuilt.put (x : Built) (lt : i < b.built.size) (built : b.IsBuilt j) :
    (b.put i x).IsBuilt j := by
  rw [IsBuilt, get?_put x lt]
  split_ifs
  · rfl
  · exact built

theorem Stands.keep {isOpen isOpen' : Prop} {x : Built} (stands : Stands g b isOpen i x)
    (keeps : ∀ j, b.IsBuilt j → b'.IsBuilt j) (opens : isOpen → isOpen') :
    Stands g b' isOpen' i x :=
  stands.imp (fun h => ⟨opens h.1, h.2⟩) fun h => ⟨h.1, fun j mem => keeps j (h.2 j mem)⟩

/-- Something is put at a number: a node is built, or a collection is filled. -/
theorem Sound.put {x : Built} {now : List Nat} (waiting : List Nat) (sound : Sound g busy b)
    (held : Held g i) (stands : Stands g (b.put i x) (i ∈ now ∨ i ∈ waiting) i x)
    (stays : ∀ j, j ∈ busy ∨ j ∈ b.waiting → j = i ∨ j ∈ now ∨ j ∈ waiting)
    (known : ∀ j ∈ waiting, j = i ∨ j ∈ b.waiting) :
    Sound g now { b.put i x with waiting } := by
  have lt : i < b.built.size := sound.size ▸ held.lt
  have built (j : Nat) (h : (b.put i x).IsBuilt j) : j = i ∨ b.IsBuilt j := by
    rw [IsBuilt, get?_put x lt] at h
    split_ifs at h with same
    · exact .inl same.symm
    · exact .inr h
  refine ⟨sound.graph, Array.size_setIfInBounds.trans sound.size, fun j h => ?_, fun j y h => ?_,
    fun j mem => ?_⟩
  · obtain rfl | h := built j h
    · exact held
    · exact sound.held j h
  · change (b.put i x).get? j = some y at h
    rw [get?_put x lt] at h
    split_ifs at h with same
    · obtain rfl := Option.some.inj h
      rw [← same]
      exact stands
    · exact (sound.stands j y h).keep (fun k built => built.put x lt)
        fun open_ => (stays j open_).resolve_left (Ne.symm same)
  · obtain rfl | mem := known j mem
    · exact isBuilt_put x lt
    · exact (sound.waiting j mem).put x lt

/-- Steps that build nodes: what is built stays built, and no more is left to do. -/
structure Reaches (g : Graph) (busy : List Nat) (b b' : Building) : Prop where
  sound : Sound g busy b'
  keeps : ∀ j, b.IsBuilt j → b'.IsBuilt j
  cost_le : b'.cost ≤ b.cost

theorem Reaches.refl (sound : Sound g busy b) : Reaches g busy b b :=
  ⟨sound, fun _ h => h, le_rfl⟩

theorem Reaches.trans {b'' : Building} (first : Reaches g busy b b')
    (second : Reaches g busy b' b'') : Reaches g busy b b'' :=
  ⟨second.sound, fun j h => second.keeps j (first.keeps j h), second.cost_le.trans first.cost_le⟩

/-- A node that is built now was to be built before. -/
theorem unbuilt_put (x : Built) (lt : i < b.built.size) (fresh : b.get? i = none) :
    (b.put i x).built.toList.countP Option.isNone + 1 = b.built.toList.countP Option.isNone := by
  have lt' : i < b.built.toList.length := lt
  have none : b.built.toList[i] = none := by
    rw [get?, Array.getElem?_eq_getElem lt] at fresh
    exact fresh
  have positive : 0 < b.built.toList.countP Option.isNone :=
    List.countP_pos_iff.2 ⟨_, List.getElem_mem lt', by rw [none]; rfl⟩
  rw [put, Array.toList_setIfInBounds, List.countP_set lt', none]
  simp only [Option.isNone_none, Option.isNone_some, if_true, Bool.false_eq_true, if_false]
  omega

/-- A collection is built empty, and waits to be filled. -/
theorem build_collection {x : Built} (sound : Sound g busy b) (held : Held g i)
    (fresh : b.get? i = none) (empty : Built.collection? (g.tag i) = some x) :
    ∃ b', b.build i = .ok b' ∧ Reaches g busy b b' ∧ b'.IsBuilt i := by
  have lt : i < b.built.size := sound.size ▸ held.lt
  refine ⟨{ b.put i x with waiting := b.waiting ++ [i] }, ?_, ⟨?_, ?_, ?_⟩, isBuilt_put x lt⟩
  · rw [build, if_neg (by simp [fresh]), sound.graph, empty]
  · exact sound.put _ held (.inl ⟨.inr (by simp), empty⟩)
      (fun j h => .inr (h.imp_right (by simp +contextual)))
      (fun j mem => by simpa [or_comm] using mem)
  · exact fun j h => h.put x lt
  · have := unbuilt_put x lt fresh
    simp only [cost, List.length_append, List.length_singleton]
    omega

/-- A scalar is built as its value. -/
theorem build_scalar {tag : Tag} {text : String} {v : Value} (sound : Sound g busy b)
    (held : Held g i) (fresh : b.get? i = none) (entry : g.entries[i]? = some (.scalar tag text))
    (noParts : Built.collection? tag = none) (value : scalarValue g i = .ok v) :
    ∃ b', b.build i = .ok b' ∧ Reaches g busy b b' ∧ b'.IsBuilt i := by
  have lt : i < b.built.size := sound.size ▸ held.lt
  have last : whole g i = .ok (.scalar v) := by
    rw [whole, entry_of_getElem? entry, value]
    rfl
  refine ⟨b.put i (.scalar v), ?_, ⟨?_, ?_, ?_⟩, isBuilt_put _ lt⟩
  · rw [build, if_neg (by simp [fresh]), sound.graph,
      show g.tag i = tag from tag_of_getElem? entry, noParts, value]
    rfl
  · refine sound.put b.waiting held (.inr ⟨last, ?_⟩) (fun j h => .inr h) (fun j mem => .inr mem)
    rw [partsOf, entry_of_getElem? entry]
    exact fun j mem => absurd mem List.not_mem_nil
  · exact fun j h => h.put _ lt
  · have := unbuilt_put (.scalar v) lt fresh
    rw [cost, cost]
    change b.waiting.length + _ ≤ _
    omega

/-- **A node that holds a value is built.** -/
theorem build_held (sound : Sound g busy b) (held : Held g i) :
    ∃ b', b.build i = .ok b' ∧ Reaches g busy b b' ∧ b'.IsBuilt i := by
  by_cases built : (b.get? i).isSome
  · exact ⟨b, by rw [build, if_pos built], .refl sound, built⟩
  have fresh : b.get? i = none := Option.not_isSome_iff_eq_none.1 built
  obtain ⟨tag, text, v, entry, noParts, value⟩ | ⟨parts, entry, _⟩ | ⟨parts, entry, _⟩ :=
    held_cases held
  · exact build_scalar sound held fresh entry noParts value
  · exact build_collection sound held fresh (by rw [tag_of_getElem? entry]; rfl)
  · exact build_collection sound held fresh (by rw [tag_of_getElem? entry]; rfl)

/-! ## The parts of a collection -/

theorem buildAll_held {parts : List Nat} (sound : Sound g busy b) (held : ∀ j ∈ parts, Held g j) :
    ∃ b', b.buildAll parts = .ok b' ∧ Reaches g busy b b' ∧ ∀ j ∈ parts, b'.IsBuilt j := by
  induction parts generalizing b with
  | nil => exact ⟨b, rfl, .refl sound, fun j mem => absurd mem List.not_mem_nil⟩
  | cons i parts ih =>
    obtain ⟨b₁, eq, reaches, built⟩ := build_held sound (held i List.mem_cons_self)
    obtain ⟨b₂, eq', reaches', rest⟩ := ih reaches.sound
      fun j mem => held j (List.mem_cons_of_mem _ mem)
    exact ⟨b₂, by rw [buildAll, eq, ok_bind, eq'], reaches.trans reaches',
      List.forall_mem_cons.2 ⟨reaches'.keeps i built, rest⟩⟩

theorem get?_of_name (sound : Sound g busy b) (name : IsName g i) (built : b.IsBuilt i) :
    b.get? i = some (.scalar (.text (textAt g i))) := by
  obtain ⟨x, at_⟩ := Option.isSome_iff_exists.1 built
  have tag : g.tag i = .text := tag_of_getElem? name
  have whole' : whole g i = .ok (.scalar (.text (textAt g i))) := by
    rw [whole, entry_of_getElem? name, scalarValue_scalar (by decide) name]
    rfl
  obtain ⟨_, empty⟩ | ⟨same, _⟩ := sound.stands i x at_
  · rw [tag] at empty
    cases empty
  · rw [at_]
    exact congrArg some (Except.ok.inj (same.symm.trans whole'))

theorem buildKey_name (sound : Sound g busy b) (name : IsName g i) :
    ∃ b', b.buildKey i = .ok (some (textAt g i), b') ∧ Reaches g busy b b' := by
  obtain ⟨b', eq, reaches, built⟩ := build_held sound name.held
  refine ⟨b', ?_, reaches⟩
  rw [buildKey, eq, ok_bind, get?_of_name reaches.sound name built]
  rfl

theorem buildFields_held {parts : List (Nat × Nat)} (sound : Sound g busy b)
    (held : ∀ f ∈ parts, IsName g f.1 ∧ Held g f.2) :
    ∃ b', b.buildFields parts = .ok (parts.map fun f => (textAt g f.1, f.2), b') ∧
      Reaches g busy b b' ∧ ∀ f ∈ parts, b'.IsBuilt f.2 := by
  induction parts generalizing b with
  | nil => exact ⟨b, rfl, .refl sound, fun f mem => absurd mem List.not_mem_nil⟩
  | cons f parts ih =>
    obtain ⟨name, value⟩ := held f List.mem_cons_self
    obtain ⟨b₁, eq₁, reaches₁⟩ := buildKey_name sound name
    obtain ⟨b₂, eq₂, reaches₂, built⟩ := build_held reaches₁.sound value
    obtain ⟨b₃, eq₃, reaches₃, rest⟩ := ih reaches₂.sound
      fun j mem => held j (List.mem_cons_of_mem _ mem)
    refine ⟨b₃, ?_, (reaches₁.trans reaches₂).trans reaches₃,
      List.forall_mem_cons.2 ⟨reaches₃.keeps _ built, rest⟩⟩
    rw [buildFields, eq₁, ok_bind]
    dsimp only
    rw [eq₂, ok_bind, eq₃]
    rfl

/-! ## Filling -/

/-- A collection is what its entry says, once its parts are built. -/
theorem Reaches.filled {x : Built} (reaches : Reaches g [i] b b') (held : Held g i)
    (last : whole g i = .ok x) (parts : ∀ j ∈ partsOf g i, b'.IsBuilt j) :
    Reaches g [] b (b'.put i x) := by
  have lt : i < b'.built.size := reaches.sound.size ▸ held.lt
  have lt' : i < b'.built.toList.length := lt
  refine ⟨?_, fun j h => (reaches.keeps j h).put x lt, le_trans ?_ reaches.cost_le⟩
  · refine reaches.sound.put b'.waiting held
      (.inr ⟨last, fun j mem => (parts j mem).put x lt⟩) (fun j h => ?_) (fun j mem => .inr mem)
    obtain here | waits := h
    · exact .inl (List.mem_singleton.1 here)
    · exact .inr (.inr waits)
  · refine Nat.add_le_add_left ?_ b'.waiting.length
    rw [put, Array.toList_setIfInBounds, List.countP_set lt']
    exact Nat.sub_le _ _

/-- A scalar has nothing to be filled. -/
theorem Sound.of_scalar (sound : Sound g [i] b) (none : Built.collection? (g.tag i) = none) :
    Sound g [] b where
  graph := sound.graph
  size := sound.size
  held := sound.held
  waiting := sound.waiting
  stands j x at_ := by
    obtain ⟨here | waits, empty⟩ | last := sound.stands j x at_
    · rw [List.mem_singleton.1 here, none] at empty
      cases empty
    · exact .inl ⟨.inr waits, empty⟩
    · exact .inr last

/-- What is built of a node that is met to be filled. -/
theorem kind_of_built {x y : Built} (sound : Sound g [i] b) (at_ : b.get? i = some x)
    (last : whole g i = .ok y) :
    Built.collection? (g.tag i) = some x ∨ x = y := by
  obtain ⟨-, empty⟩ | ⟨same, -⟩ := sound.stands i x at_
  · exact .inl empty
  · exact .inr (Except.ok.inj (same.symm.trans last))

/-- A list is filled with its parts. -/
theorem fill_list {parts : List Nat} (levels : Nat) (sound : Sound g [i] b) (built : b.IsBuilt i)
    (entry : g.entries[i]? = some (.sequence .list parts)) (each : ∀ j ∈ parts, Held g j) :
    ∃ b', b.fill levels i = .ok b' ∧ Reaches g [] b b' := by
  obtain ⟨x, at_⟩ := Option.isSome_iff_exists.1 built
  have last : whole g i = .ok (.list parts) := by rw [whole, entry_of_getElem? entry]
  obtain ⟨items, at_⟩ : ∃ items, b.get? i = some (.list items) := by
    obtain empty | rfl := kind_of_built sound at_ last
    · rw [tag_of_getElem? entry] at empty
      exact ⟨[], at_.trans empty.symm⟩
    · exact ⟨parts, at_⟩
  obtain ⟨b', eq, reaches, parts'⟩ := buildAll_held sound each
  refine ⟨b'.put i (.list parts), ?_, reaches.filled (sound.held i built) last ?_⟩
  · rw [fill, at_]
    dsimp only
    rw [sound.graph, itemsOf, entry_of_getElem? entry, ok_bind, eq]
    rfl
  · rw [partsOf, entry_of_getElem? entry]
    exact parts'

/-- A map is filled with its fields, of which none is merged into another. -/
theorem fill_map {parts : List (Nat × Nat)} (levels : Nat) (sound : Sound g [i] b)
    (built : b.IsBuilt i) (entry : g.entries[i]? = some (.mapping .map parts))
    (each : ∀ f ∈ parts, IsName g f.1 ∧ Held g f.2) (nodup : (parts.map (textAt g ·.1)).Nodup) :
    ∃ b', b.fill levels i = .ok b' ∧ Reaches g [] b b' := by
  obtain ⟨x, at_⟩ := Option.isSome_iff_exists.1 built
  have last : whole g i = .ok (.map (parts.map fun f => (textAt g f.1, f.2))) := by
    rw [whole, entry_of_getElem? entry]
  obtain ⟨fields, at_⟩ : ∃ fields, b.get? i = some (.map fields) := by
    obtain empty | rfl := kind_of_built sound at_ last
    · rw [tag_of_getElem? entry] at empty
      exact ⟨[], at_.trans empty.symm⟩
    · exact ⟨_, at_⟩
  obtain ⟨b', eq, reaches, parts'⟩ := buildFields_held sound each
  have merged : b.mergedFields levels i = .ok (parts, b) := by
    rw [mergedFields, sound.graph, entry_of_getElem? entry]
    dsimp only
    rw [merge_texts entry fun f mem => (each f mem).1, ok_bind, Graph.fields,
      entry_of_getElem? entry, ← sound.graph]
    rfl
  have fields : Fields.ofPairs (parts.map fun f => (textAt g f.1, f.2)) =
      parts.map fun f => (textAt g f.1, f.2) := by
    refine Fields.ofPairs_eq_self ?_
    rwa [Fields.names, List.map_map]
  refine ⟨b'.put i _, ?_, reaches.filled (sound.held i built) last ?_⟩
  · rw [fill, at_]
    dsimp only
    rw [merged, ok_bind]
    dsimp only
    rw [eq, ok_bind]
    dsimp only
    rw [fields]
    rfl
  · rw [partsOf, entry_of_getElem? entry]
    exact List.forall_mem_map.2 parts'

/-- **A waiting collection is filled.** -/
theorem fill_held (levels : Nat) (sound : Sound g [i] b) (built : b.IsBuilt i) :
    ∃ b', b.fill levels i = .ok b' ∧ Reaches g [] b b' := by
  obtain ⟨tag, text, v, entry, noParts, value⟩ | ⟨parts, entry, each⟩ |
      ⟨parts, entry, each, nodup⟩ := held_cases (sound.held i built)
  · have last : whole g i = .ok (.scalar v) := by
      rw [whole, entry_of_getElem? entry, value]
      rfl
    have noParts : Built.collection? (g.tag i) = none := by rwa [tag_of_getElem? entry]
    obtain ⟨x, at_⟩ := Option.isSome_iff_exists.1 built
    have scalar : x = .scalar v := by
      obtain empty | same := kind_of_built sound at_ last
      · rw [noParts] at empty
        cases empty
      · exact same
    exact ⟨b, by rw [fill, at_, scalar], .refl (sound.of_scalar noParts)⟩
  · exact fill_list levels sound built entry each
  · exact fill_map levels sound built entry each nodup

/-- **All waiting collections are filled**, if the fuel lasts for what is left to do. -/
theorem fillAll_held (levels : Nat) {fuel : Nat} (sound : Sound g [] b) (enough : b.cost ≤ fuel) :
    ∃ b', fillAll levels fuel b = .ok b' ∧ Sound g [] b' ∧ b'.waiting = [] ∧
      ∀ j, b.IsBuilt j → b'.IsBuilt j := by
  induction fuel generalizing b with
  | zero =>
    have done : b.waiting = [] := by
      rw [cost] at enough
      exact List.eq_nil_of_length_eq_zero (by omega)
    exact ⟨b, rfl, sound, done, fun _ h => h⟩
  | succ fuel ih =>
    cases waits : b.waiting with
    | nil => exact ⟨b, by rw [fillAll, waits], sound, waits, fun _ h => h⟩
    | cons i rest =>
      let open_ := { b with waiting := rest }
      have less : open_.cost + 1 = b.cost := by
        rw [cost, cost, waits, List.length_cons]
        change rest.length + b.built.toList.countP Option.isNone + 1 = _
        omega
      have sound' : Sound g [i] open_ := by
        refine ⟨sound.graph, sound.size, sound.held, fun j x at_ => ?_, fun j mem => ?_⟩
        · refine (sound.stands j x at_).keep (fun _ h => h) fun h => ?_
          rw [waits] at h
          simpa using h
        · exact sound.waiting j (waits ▸ List.mem_cons_of_mem _ mem)
      have built : open_.IsBuilt i := sound.waiting i (waits ▸ List.mem_cons_self)
      obtain ⟨b₁, eq₁, reaches⟩ := fill_held levels sound' built
      have le := reaches.cost_le
      obtain ⟨b₂, eq₂, sound₂, done, keeps⟩ := ih reaches.sound (by omega)
      refine ⟨b₂, ?_, sound₂, done, fun j h => keeps j (reaches.keeps j h)⟩
      rw [fillAll, waits]
      dsimp only
      rw [eq₁, ok_bind, eq₂]

theorem start_sound (g : Graph) : Sound g [] (start g) ∧ (start g).cost = g.entries.size := by
  have empty (i : Nat) : (start g).get? i = none := by
    rw [get?, start, Array.getElem?_replicate]
    split_ifs <;> rfl
  refine ⟨⟨rfl, Array.size_replicate, fun i h => ?_, fun i x h => ?_, fun i h => ?_⟩, ?_⟩
  · rw [IsBuilt, empty] at h
    cases h
  · rw [empty] at h
    cases h
  · cases h
  · rw [cost, start, Array.toList_replicate, List.countP_replicate]
    simp

end Building

/-! ## The value of a document -/

mutual
/-- How many collections of a value stand in each other. -/
def depthOf : Json → Nat
  | .arr items => depthOfItems items + 1
  | .obj fields => depthOfFields fields + 1
  | _ => 0

def depthOfItems : List Json → Nat
  | [] => 0
  | v :: rest => max (depthOf v) (depthOfItems rest)

def depthOfFields : List (String × Json) → Nat
  | [] => 0
  | (_, v) :: rest => max (depthOf v) (depthOfFields rest)
end

namespace Document

open Building

variable {g : Graph} {b : Building} {i depth : Nat}

/-- Where nothing waits, what is built of a node is what its entry says. -/
theorem built_whole {x : Built} (sound : Sound g [] b) (done : b.waiting = [])
    (built : b.IsBuilt i) (last : whole g i = .ok x) :
    (b.built[i]?).join = some x ∧ ∀ j ∈ partsOf g i, b.IsBuilt j := by
  obtain ⟨y, at_⟩ := Option.isSome_iff_exists.1 built
  obtain ⟨here | waits, -⟩ | ⟨same, parts⟩ := sound.stands i y at_
  · cases here
  · rw [done] at waits
    cases waits
  · exact ⟨at_.trans (congrArg some (Except.ok.inj (same.symm.trans last))), parts⟩

theorem valueAt_scalar {v : Value} (sound : Sound g [] b) (done : b.waiting = [])
    (built : b.IsBuilt i) {tag : Tag} {text : String}
    (entry : g.entries[i]? = some (.scalar tag text)) (value : scalarValue g i = .ok v) :
    valueAt ⟨b.built⟩ (depth + 1) i = v := by
  have last : whole g i = .ok (.scalar v) := by
    rw [whole, entry_of_getElem? entry, value]
    rfl
  rw [valueAt, (built_whole sound done built last).1]

mutual
/-- **A number that holds a value is seen as this value**, at any depth beyond the value's own. -/
theorem valueAt_holds (sound : Sound g [] b) (done : b.waiting = []) :
    ∀ (v : Json) (i depth : Nat), v.Storable → Holds g i v → b.IsBuilt i → depthOf v ≤ depth →
      valueAt ⟨b.built⟩ (depth + 1) i = .ofJson v
  | .null, _, _, storable, holds, built, _
  | .bool true, _, _, storable, holds, built, _
  | .bool false, _, _, storable, holds, built, _
  | .int _, _, _, storable, holds, built, _
  | .float _, _, _, storable, holds, built, _ =>
    valueAt_scalar sound done built holds (scalarValue_word rfl storable holds)
  | .str _, _, _, _, holds, built, _ =>
    valueAt_scalar sound done built holds (scalarValue_scalar (by decide) holds)
  | .arr items, i, depth, storable, ⟨parts, entry, rest⟩, built, deep => by
    obtain ⟨less, rfl⟩ := Nat.exists_eq_add_of_le' (le_trans (Nat.le_add_left 1 _) deep)
    have last : whole g i = .ok (.list parts) := by rw [whole, entry_of_getElem? entry]
    obtain ⟨at_, parts'⟩ := built_whole sound done built last
    rw [partsOf, entry_of_getElem? entry] at parts'
    rw [valueAt, at_]
    exact congrArg Value.list (valueAt_items sound done items i less parts
      (Json.throughout_arr.1 storable).2 rest parts' (Nat.le_of_succ_le_succ deep))
  | .obj fields, i, depth, storable, ⟨parts, entry, rest⟩, built, deep => by
    obtain ⟨less, rfl⟩ := Nat.exists_eq_add_of_le' (le_trans (Nat.le_add_left 1 _) deep)
    have last : whole g i = .ok (.map (parts.map fun f => (textAt g f.1, f.2))) := by
      rw [whole, entry_of_getElem? entry]
    obtain ⟨at_, parts'⟩ := built_whole sound done built last
    rw [partsOf, entry_of_getElem? entry] at parts'
    rw [valueAt, at_]
    refine congrArg Value.map ?_
    rw [List.map_map]
    exact valueAt_fields sound done fields i less parts (Json.throughout_obj.1 storable).2 rest
      (List.forall_mem_map.1 parts') (Nat.le_of_succ_le_succ deep)

theorem valueAt_items (sound : Sound g [] b) (done : b.waiting = []) :
    ∀ (items : List Json) (i depth : Nat) (parts : List Nat), (∀ w ∈ items, w.Storable) →
      HoldsItems g i parts items → (∀ j ∈ parts, b.IsBuilt j) → depthOfItems items ≤ depth →
      parts.map (valueAt ⟨b.built⟩ (depth + 1)) = Value.ofItems items
  | [], _, _, [], _, _, _, _ => rfl
  | v :: items, i, depth, j :: parts, storable, ⟨_, here, rest⟩, built, deep => by
    obtain ⟨first, last⟩ := Nat.max_le.1 deep
    obtain ⟨built', built''⟩ := List.forall_mem_cons.1 built
    obtain ⟨storable', storable''⟩ := List.forall_mem_cons.1 storable
    rw [List.map_cons, Value.ofItems,
      valueAt_holds sound done v j depth storable' here built' first,
      valueAt_items sound done items i depth parts storable'' rest built'' last]

theorem valueAt_fields (sound : Sound g [] b) (done : b.waiting = []) :
    ∀ (fields : List (String × Json)) (i depth : Nat) (parts : List (Nat × Nat)),
      (∀ f ∈ fields, f.2.Storable) → HoldsFields g i parts fields →
      (∀ f ∈ parts, b.IsBuilt f.2) → depthOfFields fields ≤ depth →
      parts.map ((fun f => (f.1, valueAt ⟨b.built⟩ (depth + 1) f.2)) ∘
        fun f => (textAt g f.1, f.2)) = Value.ofFields fields
  | [], _, _, [], _, _, _, _ => rfl
  | (key, v) :: fields, i, depth, (k, j) :: parts, storable, ⟨_, name, _, here, rest⟩, built,
      deep => by
    obtain ⟨first, last⟩ := Nat.max_le.1 deep
    obtain ⟨built', built''⟩ := List.forall_mem_cons.1 built
    obtain ⟨storable', storable''⟩ := List.forall_mem_cons.1 storable
    rw [List.map_cons, Value.ofFields, Function.comp_apply, (isName_of_entry name).2,
      valueAt_holds sound done v j depth storable' here built' first,
      valueAt_fields sound done fields i depth parts storable'' rest built'' last]
end

/-- **The document of a value's nodes has this value.** -/
theorem ofGraph_nodeOf {v : Json} (storable : v.Storable) :
    ∃ d : Document, ofGraph (.ofNode (nodeOf v)) = .ok d ∧
      ∀ depth, depthOf v < depth → d.value depth = .ofJson v := by
  let g := Graph.ofNode (nodeOf v)
  have holds : Holds g 0 v := holds_ofNode v
  obtain ⟨sound, cost⟩ := start_sound g
  obtain ⟨b₁, eq₁, reaches, built⟩ := build_held sound ⟨v, storable, holds⟩
  have enough : b₁.cost ≤ g.entries.size + 1 :=
    (cost ▸ reaches.cost_le).trans (Nat.le_succ _)
  obtain ⟨b₂, eq₂, sound₂, done, keeps⟩ :=
    fillAll_held g.mergeLevels reaches.sound enough
  refine ⟨⟨b₂.built⟩, ?_, fun depth deep => ?_⟩
  · change (do
      let b ← (Building.start g).build 0
      let b ← Building.fillAll g.mergeLevels (g.entries.size + 1) b
      pure ⟨b.built⟩ : Lex Document) = _
    rw [eq₁, ok_bind, eq₂]
    rfl
  · obtain ⟨less, rfl⟩ := Nat.exists_eq_add_of_le' (Nat.one_le_of_lt deep)
    exact valueAt_holds sound₂ done v 0 less storable holds (keeps 0 built)
      (Nat.le_of_lt_succ deep)

end Document
end ResourceApi.Yaml
