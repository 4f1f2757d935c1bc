import ResourceApi.Json.Basic

/-! # Laws of ordered fields

What putting and merging fields does to the values and to the order of the names.
The names of merged fields are the old ones, then those that are new, in the order
in which they come first. -/

namespace ResourceApi.Fields

variable {α β : Type}

/-! ## Looking up -/

@[simp] theorem names_nil : names ([] : Fields α) = [] := rfl

@[simp] theorem names_cons (f : String × α) (rest : Fields α) :
    names (f :: rest) = f.1 :: names rest := rfl

theorem get?_cons (f : String × α) (rest : Fields α) (name : String) :
    get? (f :: rest) name = if f.1 = name then some f.2 else get? rest name := rfl

theorem get?_eq_none_iff {fs : Fields α} {name : String} :
    fs.get? name = none ↔ name ∉ fs.names := by
  induction fs with
  | nil => simp
  | cons f rest ih =>
    rw [get?_cons, names_cons, List.mem_cons]
    by_cases h : f.1 = name
    · simp [h]
    · rw [if_neg h, ih]
      simp [Ne.symm h]

theorem mem_of_get? {fs : Fields α} {name : String} {v : α} (h : fs.get? name = some v) :
    (name, v) ∈ fs := by
  induction fs with
  | nil => simp at h
  | cons f rest ih =>
    obtain ⟨n, w⟩ := f
    simp only [get?] at h
    split at h
    · next same =>
      cases h
      exact same ▸ List.mem_cons_self
    · exact List.mem_cons_of_mem _ (ih h)

theorem mem_names_of_get? {fs : Fields α} {name : String} {v : α} (h : fs.get? name = some v) :
    name ∈ fs.names := List.mem_map_of_mem (mem_of_get? h)

theorem exists_of_mem_names {fs : Fields α} {name : String} (h : name ∈ fs.names) :
    ∃ v, fs.get? name = some v := by
  cases found : fs.get? name with
  | none => exact absurd h (get?_eq_none_iff.1 found)
  | some v => exact ⟨v, rfl⟩

/-- Where no name stands twice, a field that is there is the one that is found. -/
theorem get?_of_mem {fs : Fields α} (nodup : fs.names.Nodup) {name : String} {v : α}
    (h : (name, v) ∈ fs) : fs.get? name = some v := by
  induction fs with
  | nil => cases h
  | cons f rest ih =>
    rw [names_cons, List.nodup_cons] at nodup
    rw [get?_cons]
    rcases List.mem_cons.1 h with same | later
    · rw [← same, if_pos rfl]
    · have other : f.1 ≠ name := fun same => nodup.1 (same ▸ List.mem_map_of_mem later)
      rw [if_neg other]
      exact ih nodup.2 later

/-- A name that is not filtered out is found as before. -/
theorem get?_filter {p : String → Bool} {name : String} (stays : p name = true) (fs : Fields α) :
    get? (fs.filter fun f => p f.1) name = fs.get? name := by
  induction fs with
  | nil => rfl
  | cons f rest ih =>
    by_cases same : f.1 = name
    · rw [List.filter_cons_of_pos (by rw [same]; exact stays), get?_cons, get?_cons, if_pos same,
        if_pos same]
    · rw [get?_cons, if_neg same, List.filter_cons]
      split
      · rw [get?_cons, if_neg same, ih]
      · exact ih

theorem get?_erase_of_ne {a b : String} (h : a ≠ b) (fs : Fields α) :
    (fs.erase a).get? b = fs.get? b := by
  induction fs with
  | nil => rfl
  | cons f rest ih =>
    rw [erase, get?_cons]
    by_cases same : f.1 = a
    · rw [if_pos same, ih, if_neg fun other => h (same.symm.trans other)]
    · rw [if_neg same, get?_cons, ih]

/-- Erasing a name that is filtered out anyway does not matter. -/
theorem filter_erase {p : String → Bool} {a : String} (drops : p a = false) (fs : Fields α) :
    (fs.erase a).filter (fun f => p f.1) = fs.filter fun f => p f.1 := by
  induction fs with
  | nil => rfl
  | cons f rest ih =>
    rw [erase]
    by_cases same : f.1 = a
    · rw [if_pos same, ih, List.filter_cons_of_neg (by rw [same, drops]; decide)]
    · rw [if_neg same, List.filter_cons, List.filter_cons, ih]

theorem has_eq_true_iff {fs : Fields α} {name : String} :
    fs.has name = true ↔ ∃ v, fs.get? name = some v := by
  rw [has, Option.isSome_iff_exists]

/-! ## Putting -/

@[simp] theorem get?_put_self (fs : Fields α) (a : String) (v : α) :
    (fs.put a v).get? a = some v := by
  rw [get?_put, if_pos rfl]

theorem get?_put_of_ne {a b : String} (h : a ≠ b) (fs : Fields α) (v : α) :
    (fs.put a v).get? b = fs.get? b := by
  rw [get?_put, if_neg h]

/-- Putting the value that is there changes nothing. -/
theorem put_of_get? {fs : Fields α} {a : String} {v : α} (h : fs.get? a = some v) :
    fs.put a v = fs := by
  induction fs with
  | nil => simp at h
  | cons f rest ih =>
    obtain ⟨n, w⟩ := f
    simp only [get?] at h
    simp only [put]
    split at h
    · next same => rw [if_pos same, Option.some.inj h]
    · next other => rw [if_neg other, ih h]

theorem put_of_not_mem {fs : Fields α} {a : String} (fresh : a ∉ fs.names) (v : α) :
    fs.put a v = fs ++ [(a, v)] := by
  induction fs with
  | nil => rfl
  | cons f rest ih =>
    rw [names_cons, List.mem_cons, not_or] at fresh
    rw [put, if_neg (Ne.symm fresh.1), ih fresh.2, List.cons_append]

theorem nodup_put {fs : Fields α} (nodup : fs.names.Nodup) (a : String) (v : α) :
    (fs.put a v).names.Nodup := by
  rw [names_put]
  split
  · exact nodup
  · next fresh =>
    rw [List.nodup_append]
    refine ⟨nodup, by simp, ?_⟩
    rintro n old m new rfl
    exact fresh (List.mem_singleton.1 new ▸ old)

theorem mem_put {fs : Fields α} {a : String} {v : α} {f : String × α} (h : f ∈ fs.put a v) :
    f = (a, v) ∨ f ∈ fs := by
  induction fs with
  | nil => simpa [put] using h
  | cons g rest ih =>
    obtain ⟨n, w⟩ := g
    simp only [put] at h
    split at h
    · next same =>
      subst same
      rcases List.mem_cons.1 h with rfl | old
      · exact Or.inl rfl
      · exact Or.inr (List.mem_cons_of_mem _ old)
    · rcases List.mem_cons.1 h with rfl | later
      · exact Or.inr List.mem_cons_self
      · exact (ih later).imp id (List.mem_cons_of_mem _)

theorem put_put (fs : Fields α) (a : String) (v w : α) : (fs.put a v).put a w = fs.put a w := by
  induction fs with
  | nil => simp [put]
  | cons f rest ih =>
    obtain ⟨n, x⟩ := f
    by_cases h : n = a
    · simp [put, h]
    · simp [put, h, ih]

/-- A name that is there keeps its place, so that it may be put before or after another. -/
theorem put_comm {fs : Fields α} {a b : String} (there : a ∈ fs.names) (other : a ≠ b) (v w : α) :
    (fs.put a v).put b w = (fs.put b w).put a v := by
  induction fs with
  | nil => cases there
  | cons f rest ih =>
    obtain ⟨n, x⟩ := f
    by_cases ha : n = a
    · subst ha
      simp [put, other]
    · have later : a ∈ names rest := by
        rcases List.mem_cons.1 there with same | later
        · exact absurd same.symm ha
        · exact later
      by_cases hb : n = b
      · subst hb
        simp [put, ha]
      · simp [put, ha, hb, ih later]

/-! ## Merging -/

theorem merge_nil (fs : Fields α) : fs.merge [] = fs := rfl

theorem merge_cons (fs : Fields α) (f : String × α) (new : Fields α) :
    fs.merge (f :: new) = (fs.put f.1 f.2).merge new := rfl

theorem nodup_merge {fs : Fields α} (nodup : fs.names.Nodup) (new : Fields α) :
    (fs.merge new).names.Nodup := by
  induction new generalizing fs with
  | nil => exact nodup
  | cons f rest ih => exact ih (nodup_put nodup f.1 f.2)

theorem nodup_ofPairs (pairs : List (String × α)) : (ofPairs pairs).names.Nodup :=
  nodup_merge (show (Fields.names ([] : Fields α)).Nodup from List.nodup_nil) pairs

/-- Fields whose names do not repeat are merged behind fields without their names. -/
theorem merge_eq_append {fs new : Fields α} (nodup : (fs.names ++ new.names).Nodup) :
    fs.merge new = fs ++ new := by
  induction new generalizing fs with
  | nil => rw [merge_nil, List.append_nil]
  | cons f rest ih =>
    have fresh : f.1 ∉ fs.names := by
      intro old
      exact (List.nodup_append.1 nodup).2.2 f.1 old f.1 List.mem_cons_self rfl
    rw [merge_cons, put_of_not_mem fresh, ih, List.append_assoc, List.singleton_append]
    simpa [names, List.append_assoc] using nodup

theorem ofPairs_eq_self {pairs : List (String × α)} (nodup : (names pairs).Nodup) :
    ofPairs pairs = pairs :=
  merge_eq_append (show (names ([] : Fields α) ++ names pairs).Nodup from nodup)

/-- A name that is there and not among the new ones may be put before or after these. -/
theorem merge_put_of_not_mem {fs new : Fields α} {a : String} (there : a ∈ fs.names)
    (fresh : a ∉ new.names) (v : α) : (fs.merge new).put a v = (fs.put a v).merge new := by
  induction new generalizing fs with
  | nil => rfl
  | cons f rest ih =>
    rw [names_cons, List.mem_cons, not_or] at fresh
    have kept : a ∈ (fs.put f.1 f.2).names := by
      rw [names_put]
      split
      · exact there
      · exact List.mem_append_left _ there
    rw [merge_cons, merge_cons, ih kept fresh.2, put_comm there fresh.1]

/-- Putting into merged fields is merging fields into which it was put. -/
theorem merge_put {new : Fields α} (nodup : new.names.Nodup) (fs : Fields α) (a : String) (v : α) :
    (fs.merge new).put a v = fs.merge (new.put a v) := by
  induction new generalizing fs with
  | nil => rfl
  | cons f rest ih =>
    obtain ⟨n, w⟩ := f
    rw [names_cons, List.nodup_cons] at nodup
    by_cases h : n = a
    · subst h
      have there : n ∈ (fs.put n w).names := mem_names_of_get? (get?_put_self fs n w)
      rw [put, if_pos rfl, merge_cons, merge_cons, merge_put_of_not_mem there nodup.1, put_put]
    · rw [put, if_neg h, merge_cons, merge_cons, ih nodup.2]

theorem merge_assoc {new : Fields α} (nodup : new.names.Nodup) (fs later : Fields α) :
    (fs.merge new).merge later = fs.merge (new.merge later) := by
  induction later generalizing new with
  | nil => rfl
  | cons f rest ih => rw [merge_cons, merge_cons, merge_put nodup, ih (nodup_put nodup f.1 f.2)]

theorem mem_merge {fs new : Fields α} {f : String × α} (h : f ∈ fs.merge new) :
    f ∈ fs ∨ f ∈ new := by
  induction new generalizing fs with
  | nil => exact Or.inl h
  | cons g rest ih =>
    rcases ih h with put | later
    · rcases mem_put put with rfl | old
      · exact Or.inr List.mem_cons_self
      · exact Or.inl old
    · exact Or.inr (List.mem_cons_of_mem _ later)

/-- A merged value is the new one if there is one. -/
theorem get?_merge {new : Fields α} (nodup : new.names.Nodup) (fs : Fields α) (name : String) :
    (fs.merge new).get? name = (new.get? name).or (fs.get? name) := by
  induction new generalizing fs with
  | nil => rfl
  | cons f rest ih =>
    rw [names_cons, List.nodup_cons] at nodup
    rw [merge_cons, ih nodup.2, get?_put, get?_cons]
    by_cases h : f.1 = name
    · have fresh : get? rest name = none := get?_eq_none_iff.2 (h ▸ nodup.1)
      rw [fresh, if_pos h, if_pos h]
      rfl
    · rw [if_neg h, if_neg h]

theorem mem_names_merge {fs new : Fields α} {name : String} :
    name ∈ (fs.merge new).names ↔ name ∈ fs.names ∨ name ∈ new.names := by
  induction new generalizing fs with
  | nil => simp [merge_nil]
  | cons f rest ih =>
    have put : name ∈ (fs.put f.1 f.2).names ↔ name ∈ fs.names ∨ name = f.1 := by
      rw [names_put]
      split
      · next old => exact ⟨Or.inl, fun h => h.elim id (· ▸ old)⟩
      · simp
    rw [merge_cons, ih, put, names_cons, List.mem_cons, or_assoc]

theorem mem_of_get?_ofPairs {pairs : List (String × α)} {name : String} {v : α}
    (found : (ofPairs pairs).get? name = some v) : (name, v) ∈ pairs :=
  (mem_merge (mem_of_get? found)).resolve_left List.not_mem_nil

/-- A pair of which no other has the name gives the field of that name. -/
theorem get?_ofPairs {pairs : List (String × α)} {name : String} {v : α} (mem : (name, v) ∈ pairs)
    (same : ∀ w, (name, w) ∈ pairs → w = v) : (ofPairs pairs).get? name = some v := by
  have named : name ∈ (ofPairs pairs).names :=
    mem_names_merge.2 (Or.inr (List.mem_map_of_mem mem))
  obtain ⟨w, found⟩ := exists_of_mem_names named
  rw [found, same w (mem_of_get?_ofPairs found)]

/-- The names of `later` that are not among `earlier`, each once, in the order they come first. -/
def newNames (earlier later : List String) : List String :=
  (later.filter fun n => !earlier.contains n).eraseDups

@[simp] theorem newNames_nil (earlier : List String) : newNames earlier [] = [] := rfl

theorem newNames_cons (earlier later : List String) (n : String) :
    newNames earlier (n :: later) =
      if n ∈ earlier then newNames earlier later else n :: newNames (earlier ++ [n]) later := by
  by_cases h : n ∈ earlier
  · rw [if_pos h, newNames, List.filter_cons_of_neg (by simpa using h), newNames]
  · rw [if_neg h, newNames, List.filter_cons_of_pos (by simpa using h), List.eraseDups_cons,
      List.filter_filter, newNames]
    congr 2
    apply List.filter_congr
    intro m _
    rw [Bool.eq_iff_iff]
    simp [and_comm]

/-- Old names keep their places, and new ones follow in the order they come first. -/
theorem names_merge (fs new : Fields α) :
    (fs.merge new).names = fs.names ++ newNames fs.names new.names := by
  induction new generalizing fs with
  | nil => simp [merge_nil]
  | cons f rest ih =>
    rw [merge_cons, ih, names_put, names_cons, newNames_cons]
    by_cases h : f.1 ∈ fs.names
    · rw [if_pos h, if_pos h]
    · rw [if_neg h, if_neg h, List.append_assoc, List.singleton_append]

/-- Names that come in two runs are new after the first, or after both. -/
theorem newNames_append (earlier first second : List String) :
    newNames earlier (first ++ second) =
      newNames earlier first ++ newNames (earlier ++ newNames earlier first) second := by
  induction first generalizing earlier with
  | nil => simp
  | cons n rest ih =>
    rw [List.cons_append, newNames_cons, newNames_cons]
    by_cases h : n ∈ earlier
    · rw [if_pos h, if_pos h, ih]
    · rw [if_neg h, if_neg h, ih, List.cons_append, List.append_assoc, List.singleton_append]

/-! ## Merging one after the other -/

/-- What is found first is the same in another order if all that can be found is the same. -/
theorem findSome?_eq_of_perm {f : β → Option α} {l l' : List β} (perm : l.Perm l')
    (agree : ∀ a ∈ l, ∀ b ∈ l, ∀ v w, f a = some v → f b = some w → v = w) :
    l.findSome? f = l'.findSome? f := by
  cases found : l.findSome? f with
  | none =>
    rw [List.findSome?_eq_none_iff] at found
    exact (List.findSome?_eq_none_iff.2 fun b mem => found b (perm.mem_iff.2 mem)).symm
  | some v =>
    obtain ⟨a, mem, gives⟩ := List.exists_of_findSome?_eq_some found
    cases found' : l'.findSome? f with
    | none =>
      rw [List.findSome?_eq_none_iff.1 found' a (perm.mem_iff.1 mem)] at gives
      cases gives
    | some w =>
      obtain ⟨b, mem', gives'⟩ := List.exists_of_findSome?_eq_some found'
      rw [agree a mem b (perm.mem_iff.2 mem') v w gives gives']

/-- The last of the new values is left, or the old one if there is none. -/
theorem get?_foldl_merge {writes : List (Fields α)} (nodup : ∀ new ∈ writes, new.names.Nodup)
    (fs : Fields α) (name : String) :
    (writes.foldl merge fs).get? name =
      (writes.reverse.findSome? (·.get? name)).or (fs.get? name) := by
  induction writes generalizing fs with
  | nil => rfl
  | cons new rest ih =>
    rw [List.foldl_cons, ih fun later mem => nodup later (List.mem_cons_of_mem _ mem),
      get?_merge (nodup new List.mem_cons_self), List.reverse_cons, List.findSome?_append,
      Option.or_assoc]
    congr 2
    rw [List.findSome?_singleton]

/-- What only one of the writes holds is left when all are made. -/
theorem get?_foldl_merge_of_only {writes : List (Fields α)}
    (nodup : ∀ new ∈ writes, new.names.Nodup) {new : Fields α} (mem : new ∈ writes) {name : String}
    {v : α} (found : new.get? name = some v)
    (only : ∀ other ∈ writes, name ∈ other.names → other = new) (fs : Fields α) :
    (writes.foldl merge fs).get? name = some v := by
  rw [get?_foldl_merge nodup]
  cases last : writes.reverse.findSome? (·.get? name) with
  | none =>
    rw [List.findSome?_eq_none_iff.1 last new (List.mem_reverse.2 mem)] at found
    cases found
  | some w =>
    obtain ⟨other, inside, held⟩ := List.exists_of_findSome?_eq_some last
    rw [only other (List.mem_reverse.1 inside) (mem_names_of_get? held), found] at held
    rw [Option.some_or, held]

/-- What stands under a name at the end was there at first, or is held by one of the writes. -/
theorem held_of_foldl_merge {writes : List (Fields α)} (nodup : ∀ new ∈ writes, new.names.Nodup)
    {fs : Fields α} {name : String} {v : α} (found : (writes.foldl merge fs).get? name = some v) :
    fs.get? name = some v ∨ ∃ new ∈ writes, new.get? name = some v := by
  rw [get?_foldl_merge nodup, Option.or_eq_some_iff] at found
  rcases found with last | ⟨-, first⟩
  · obtain ⟨new, inside, held⟩ := List.exists_of_findSome?_eq_some last
    exact Or.inr ⟨new, List.mem_reverse.1 inside, held⟩
  · exact Or.inl first

/-- Where different items write no name in common, their order does not matter. -/
theorem get?_foldl_merge_of_perm {items items' : List β} (perm : items.Perm items')
    {write : β → Option (Fields α)}
    (nodup : ∀ b ∈ items, ∀ new, write b = some new → new.names.Nodup)
    (apart : ∀ a ∈ items, ∀ b ∈ items, a ≠ b → ∀ new new', write a = some new →
      write b = some new' → ∀ name ∈ new.names, name ∉ new'.names)
    (fs : Fields α) (name : String) :
    ((items.filterMap write).foldl merge fs).get? name =
      ((items'.filterMap write).foldl merge fs).get? name := by
  have once {l : List β} (among : ∀ b ∈ l, b ∈ items) :
      ∀ new ∈ l.filterMap write, new.names.Nodup := by
    intro new mem
    obtain ⟨b, inside, wrote⟩ := List.mem_filterMap.1 mem
    exact nodup b (among b inside) new wrote
  rw [get?_foldl_merge (once fun _ => id), get?_foldl_merge (once fun _ => perm.mem_iff.2)]
  congr 1
  -- whichever item is found to write the name, it is the only one
  refine findSome?_eq_of_perm ?_ ?_
  · exact ((List.reverse_perm _).trans (perm.filterMap write)).trans (List.reverse_perm _).symm
  · intro new mem new' mem' v w held held'
    obtain ⟨a, inside, wrote⟩ := List.mem_filterMap.1 (List.mem_reverse.1 mem)
    obtain ⟨b, inside', wrote'⟩ := List.mem_filterMap.1 (List.mem_reverse.1 mem')
    by_cases same : a = b
    · subst same
      obtain rfl : new = new' := Option.some.inj (wrote.symm.trans wrote')
      exact Option.some.inj (held.symm.trans held')
    · exact absurd (mem_names_of_get? held')
        (apart a inside b inside' same new new' wrote wrote' name (mem_names_of_get? held))

theorem mem_names_foldl_merge {writes : List (Fields α)} {fs : Fields α} {name : String} :
    name ∈ (writes.foldl merge fs).names ↔ name ∈ fs.names ∨ ∃ new ∈ writes, name ∈ new.names := by
  induction writes generalizing fs with
  | nil => simp
  | cons new rest ih =>
    rw [List.foldl_cons, ih, mem_names_merge, or_assoc]
    simp only [List.mem_cons, exists_eq_or_imp]

/-- The names are the old ones, then the new ones of all writes in the order they come first. -/
theorem names_foldl_merge (writes : List (Fields α)) (fs : Fields α) :
    (writes.foldl merge fs).names = fs.names ++ newNames fs.names (writes.flatMap names) := by
  induction writes generalizing fs with
  | nil => simp
  | cons new rest ih =>
    rw [List.foldl_cons, ih, names_merge, List.flatMap_cons, newNames_append, List.append_assoc]

/-! ## Other names -/

/-- The fields under other names, in their places. -/
def mapNames (f : String → String) (fs : Fields α) : Fields α := fs.map fun x => (f x.1, x.2)

theorem mapNames_put {f : String → String} (injective : Function.Injective f) (fs : Fields α)
    (a : String) (v : α) : (fs.put a v).mapNames f = (fs.mapNames f).put (f a) v := by
  induction fs with
  | nil => rfl
  | cons x rest ih =>
    unfold mapNames at ih
    by_cases h : x.1 = a
    · simp [put, mapNames, h]
    · have other : f x.1 ≠ f a := fun same => h (injective same)
      simp [put, mapNames, h, other, ih]

/-- Where different names stay different, fields may be merged before or after they are named. -/
theorem mapNames_merge {f : String → String} (injective : Function.Injective f)
    (fs new : Fields α) : (fs.merge new).mapNames f = (fs.mapNames f).merge (new.mapNames f) := by
  induction new generalizing fs with
  | nil => rfl
  | cons x rest ih =>
    rw [merge_cons, ih, mapNames_put injective]
    rfl

/-! ## Other values -/

/-- The fields with other values, which depend on the names too. -/
def mapEntries (g : String → α → β) (fs : Fields α) : Fields β := fs.map fun x => (x.1, g x.1 x.2)

theorem get?_mapEntries (g : String → α → β) (fs : Fields α) (name : String) :
    (fs.mapEntries g).get? name = (fs.get? name).map (g name) := by
  induction fs with
  | nil => rfl
  | cons x rest ih =>
    unfold mapEntries at ih
    rw [mapEntries, List.map_cons, get?_cons, get?_cons, ih]
    by_cases h : x.1 = name
    · simp [h]
    · simp [h]

/-! ## Other orders -/

/-- Fields that hold the same are named the same, in some order. -/
theorem perm_names {as bs : Fields α} (nodup : as.names.Nodup) (nodup' : bs.names.Nodup)
    (same : ∀ name, as.get? name = bs.get? name) : as.names.Perm bs.names := by
  refine (List.perm_ext_iff_of_nodup nodup nodup').2 fun name => ?_
  rw [← Decidable.not_iff_not, ← get?_eq_none_iff, ← get?_eq_none_iff, same]

end ResourceApi.Fields
