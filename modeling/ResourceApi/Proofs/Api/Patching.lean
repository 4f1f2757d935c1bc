import ResourceApi.Proofs.Api.Fragment

/-! # Patches on any paths

Patches are applied one after the other to copies of the path items that they go to. A patch
changes neither the keys of an item nor what kind of value stands under them, so whether a
later patch finds its operation can be told from the paths as they were given. The first patch
that does not find one ends it all; if there is none, every operation has the parameters of
the last patch to it, and all else is as it was. -/

namespace ResourceApi

/-- What stands where a patch goes. -/
def ParameterPatch.target? (p : ParameterPatch) (paths : Fields Json) : Option Json :=
  (paths.get? p.route).bind (·.field? p.verb)

/-- If there is a path item on the route of a patch it is an object, and so is the operation if the
item has the verb. -/
structure ParameterPatch.Fits (p : ParameterPatch) (paths : Fields Json) : Prop where
  item : (paths.get? p.route).all Json.isObj = true
  operation : (p.target? paths).all Json.isObj = true

instance (p : ParameterPatch) (paths : Fields Json) : Decidable (p.Fits paths) :=
  decidable_of_iff (_ ∧ _) ⟨fun both => ⟨both.1, both.2⟩, fun fits => ⟨fits.item, fits.operation⟩⟩

/-- The last of the patches that go to an operation. -/
def lastPatch? (patches : List ParameterPatch) (route verb : String) : Option ParameterPatch :=
  patches.reverse.find? fun p => p.route = route ∧ p.verb = verb

/-- What patches make of the path item on a route: the keys stay in their order, an operation has
the parameters of the last patch to it, and what no patch goes to stays as it is. -/
structure ItemPatched (patches : List ParameterPatch) (route : String) (given item : Fields Json) :
    Prop where
  keys : item.names = given.names
  set : ∀ verb p, lastPatch? patches route verb = some p → ∃ operation,
    given.get? verb = some (.obj operation) ∧
      item.get? verb = some (.obj (withParameters operation p.parameters))
  others : ∀ verb, lastPatch? patches route verb = none → item.get? verb = given.get? verb

/-- What patches make of paths: the patched items, on their routes in the order they come first. -/
structure PathsPatched (paths : Fields Json) (patches : List ParameterPatch)
    (patched : Fields Json) : Prop where
  routes : patched.names = (patches.map ParameterPatch.route).eraseDups
  items : ∀ route ∈ patched.names, ∃ given item, paths.get? route = some (.obj given) ∧
    patched.get? route = some (.obj item) ∧ ItemPatched patches route given item

/-! ## The last patch -/

theorem lastPatch?_concat (done : List ParameterPatch) (p : ParameterPatch) (route verb : String) :
    lastPatch? (done ++ [p]) route verb =
      if p.route = route ∧ p.verb = verb then some p else lastPatch? done route verb := by
  rw [lastPatch?, List.reverse_append, List.reverse_singleton, List.singleton_append,
    List.find?_cons]
  by_cases here : p.route = route ∧ p.verb = verb
  · simp [here]
  · simp [here, lastPatch?]

theorem lastPatch?_eq_none {patches : List ParameterPatch} {route : String}
    (fresh : route ∉ patches.map ParameterPatch.route) (verb : String) :
    lastPatch? patches route verb = none := by
  rw [lastPatch?, List.find?_eq_none]
  intro p mem
  simp only [decide_eq_true_eq, not_and]
  intro same
  exact absurd (same ▸ List.mem_map_of_mem (List.mem_reverse.1 mem)) fresh

theorem exists_lastPatch? {patches : List ParameterPatch} {p : ParameterPatch} (mem : p ∈ patches) :
    ∃ q, lastPatch? patches p.route p.verb = some q := by
  cases found : lastPatch? patches p.route p.verb with
  | some q => exact ⟨q, rfl⟩
  | none =>
    have none := List.find?_eq_none.1 found p (List.mem_reverse.2 mem)
    simp at none

/-! ## One path item -/

namespace ItemPatched

variable {done : List ParameterPatch} {p : ParameterPatch} {route : String}
  {given item operation : Fields Json}

/-- An item that no patch went to yet. -/
theorem start (fresh : route ∉ done.map ParameterPatch.route) (given : Fields Json) :
    ItemPatched done route given given where
  keys := rfl
  set verb p last := by
    rw [lastPatch?_eq_none fresh] at last
    cases last
  others _ _ := rfl

/-- A patch to another route does not matter. -/
theorem concat_of_ne (h : ItemPatched done route given item) (other : p.route ≠ route) :
    ItemPatched (done ++ [p]) route given item := by
  have same (verb : String) : lastPatch? (done ++ [p]) route verb = lastPatch? done route verb := by
    rw [lastPatch?_concat, if_neg fun here => other here.1]
  refine ⟨h.keys, ?_, ?_⟩
  · intro verb q last
    exact h.set verb q (same verb ▸ last)
  · intro verb none
    exact h.others verb (same verb ▸ none)

/-- A patched item is not empty, for its patches found operations in it. -/
theorem filled (h : ItemPatched done p.route given item) (mem : p ∈ done) :
    (Json.obj item).isFalsy = false := by
  obtain ⟨q, last⟩ := exists_lastPatch? mem
  obtain ⟨operation, -, found⟩ := h.set p.verb q last
  cases item with
  | nil => cases found
  | cons f rest => rfl

/-- The operation of a patch is still there after others, and would become the same as before. -/
theorem operation_left (h : ItemPatched done route given item) {verb : String}
    (held : given.get? verb = some (.obj operation)) :
    ∃ operation', item.get? verb = some (.obj operation') ∧
      ∀ parameters, withParameters operation' parameters = withParameters operation parameters := by
  cases last : lastPatch? done route verb with
  | none => exact ⟨operation, (h.others verb last).trans held, fun _ => rfl⟩
  | some q =>
    obtain ⟨operation', held', found⟩ := h.set verb q last
    obtain rfl : operation = operation' := Json.obj.inj (Option.some.inj (held.symm.trans held'))
    exact ⟨_, found, fun _ => Fields.put_put ..⟩

/-- One more patch to an operation that is there. -/
theorem concat (h : ItemPatched done p.route given item)
    (held : given.get? p.verb = some (.obj operation)) :
    ∃ item', p.set (.obj item) = .ok item' ∧ ItemPatched (done ++ [p]) p.route given item' := by
  obtain ⟨operation', found, same⟩ := h.operation_left held
  refine ⟨_, ParameterPatch.set_obj found, ?keys, ?set, ?others⟩
  case keys => rw [Fields.names_put, if_pos (Fields.mem_names_of_get? found), h.keys]
  case set =>
    intro verb q last
    rw [lastPatch?_concat] at last
    by_cases here : p.verb = verb
    · rw [if_pos ⟨rfl, here⟩] at last
      cases last
      subst here
      exact ⟨operation, held, by rw [Fields.get?_put_self, same]⟩
    · rw [if_neg fun both => here both.2] at last
      rw [Fields.get?_put_of_ne here]
      exact h.set verb q last
  case others =>
    intro verb none
    rw [lastPatch?_concat] at none
    by_cases here : p.verb = verb
    · rw [if_pos ⟨rfl, here⟩] at none
      cases none
    · rw [if_neg fun both => here both.2] at none
      rw [Fields.get?_put_of_ne here]
      exact h.others verb none

/-- A verb that the given item lacks is not there after patches either. -/
theorem set_of_absent (h : ItemPatched done route given item) (absent : given.get? p.verb = none) :
    p.set (.obj item) = .error (.noOperation p.verb p.route) := by
  have absent' : item.get? p.verb = none := by
    rw [Fields.get?_eq_none_iff] at absent ⊢
    rwa [h.keys]
  cases empty : (Json.obj item).isFalsy with
  | true => exact ParameterPatch.set_of_isFalsy empty
  | false => simp only [ParameterPatch.set, empty, absent', Bool.false_eq_true, if_false]

end ItemPatched

/-! ## All path items -/

/-- A route that comes again keeps its place. -/
theorem eraseDups_concat (names : List String) (n : String) :
    (names ++ [n]).eraseDups =
      if n ∈ names.eraseDups then names.eraseDups else names.eraseDups ++ [n] := by
  rw [List.eraseDups_append]
  by_cases old : n ∈ names
  · simp [List.removeAll, old]
  · simp [List.removeAll, old, List.eraseDups_cons]

namespace PathsPatched

variable {paths patched given : Fields Json} {done rest : List ParameterPatch} {p : ParameterPatch}
  {route : String}

theorem start (paths : Fields Json) : PathsPatched paths [] [] where
  routes := rfl
  items _ mem := absurd mem List.not_mem_nil

theorem mem_names (h : PathsPatched paths done patched) :
    route ∈ patched.names ↔ route ∈ done.map ParameterPatch.route := by
  rw [h.routes, List.mem_eraseDups]

/-- The next patch on a route goes on from the item with all patches so far. -/
theorem itemBefore (h : PathsPatched paths done patched)
    (there : paths.get? route = some (.obj given)) :
    ∃ item, itemBefore? paths patched route = some (.obj item) ∧
      ItemPatched done route given item := by
  by_cases mem : route ∈ patched.names
  · obtain ⟨given', item, there', found, isPatched⟩ := h.items route mem
    obtain rfl : given = given' := Json.obj.inj (Option.some.inj (there.symm.trans there'))
    obtain ⟨p, isDone, rfl⟩ := List.mem_map.1 (h.mem_names.1 mem)
    exact ⟨item, itemBefore?_of_patched found (isPatched.filled isDone), isPatched⟩
  · have fresh : patched.get? route = none := Fields.get?_eq_none_iff.2 mem
    refine ⟨given, ?_, .start (fun old => mem (h.mem_names.2 old)) given⟩
    rw [itemBefore?_of_not_patched fresh, there]

/-- A route that is not among the paths is not among the patched ones. -/
theorem itemBefore_of_absent (h : PathsPatched paths done patched)
    (absent : paths.get? route = none) : itemBefore? paths patched route = none := by
  have fresh : patched.get? route = none := by
    rw [Fields.get?_eq_none_iff]
    intro mem
    obtain ⟨given, item, there, -⟩ := h.items route mem
    rw [absent] at there
    cases there
  rw [itemBefore?_of_not_patched fresh, absent]

/-- A patch that finds no operation in the paths fails, whatever patches came before it. -/
theorem set_of_absent (h : PathsPatched paths done patched) (fits : p.Fits paths)
    (absent : p.target? paths = none) :
    p.set ((itemBefore? paths patched p.route).getD .null) =
      .error (.noOperation p.verb p.route) := by
  cases there : paths.get? p.route with
  | none =>
    rw [h.itemBefore_of_absent there, Option.getD_none]
    exact ParameterPatch.set_of_isFalsy rfl
  | some v =>
    have isItem := fits.item
    rw [there, Option.all_some, Json.isObj_eq_true] at isItem
    obtain ⟨given, rfl⟩ := isItem
    obtain ⟨item, isBefore, isPatched⟩ := h.itemBefore there
    rw [isBefore, Option.getD_some]
    refine isPatched.set_of_absent ?_
    rwa [ParameterPatch.target?, there, Option.bind_some, Json.field?_obj] at absent

/-- A patch that finds its operation in the paths adds itself to those before it. -/
theorem concat (h : PathsPatched paths done patched) (fits : p.Fits paths)
    (found : (p.target? paths).isSome = true) :
    ∃ item, p.set ((itemBefore? paths patched p.route).getD .null) = .ok item ∧
      PathsPatched paths (done ++ [p]) (patched.put p.route (.obj item)) := by
  obtain ⟨v, target⟩ := Option.isSome_iff_exists.1 found
  have isOperation := fits.operation
  rw [target, Option.all_some, Json.isObj_eq_true] at isOperation
  obtain ⟨operation, rfl⟩ := isOperation
  obtain ⟨w, there, field⟩ := Option.bind_eq_some_iff.1 target
  obtain ⟨given, rfl, held⟩ := Json.field?_eq_some.1 field
  obtain ⟨item, isBefore, isPatched⟩ := h.itemBefore there
  obtain ⟨item', isSet, isPatched'⟩ := isPatched.concat held
  refine ⟨item', by rw [isBefore, Option.getD_some, isSet], ?routes, ?items⟩
  case routes =>
    rw [Fields.names_put, List.map_append, List.map_singleton, eraseDups_concat, ← h.routes]
  case items =>
    intro route mem
    by_cases here : p.route = route
    · subst here
      exact ⟨given, item', there, Fields.get?_put_self .., isPatched'⟩
    · obtain ⟨v, held⟩ := Fields.exists_of_mem_names mem
      rw [Fields.get?_put_of_ne here] at held
      obtain ⟨given, item, there, found, isPatched⟩ :=
        h.items route (Fields.mem_names_of_get? held)
      exact ⟨given, item, there, by rw [Fields.get?_put_of_ne here, found],
        isPatched.concat_of_ne here⟩

/-- The rest of the patches: the first of them that finds no operation in the paths ends it all, and
otherwise all are added. -/
theorem applyPatches_rest (h : PathsPatched paths done patched) (fit : ∀ p ∈ rest, p.Fits paths) :
    match rest.find? fun p => (p.target? paths).isNone with
    | some p => applyPatches paths patched rest = .error (.noOperation p.verb p.route)
    | none => ∃ final, applyPatches paths patched rest = .ok final ∧
        PathsPatched paths (done ++ rest) final := by
  induction rest generalizing done patched with
  | nil => exact ⟨patched, rfl, by rwa [List.append_nil]⟩
  | cons p rest ih =>
    rw [List.forall_mem_cons] at fit
    rw [List.find?_cons]
    cases target : p.target? paths with
    | none =>
      rw [applyPatches, h.set_of_absent fit.1 target]
      rfl
    | some v =>
      obtain ⟨item, isSet, isPatched⟩ := h.concat fit.1 (by rw [target]; rfl)
      rw [applyPatches, isSet, Results.ok_bind]
      have onward := ih isPatched fit.2
      rw [List.append_assoc] at onward
      exact onward

end PathsPatched

/-- **Patches are applied all or not at all, and the last one to an operation counts.** On any paths,
patches fail if and only if one of them goes to a route that is not among the paths, or to a verb
that the path item there lacks, and the first such patch is the one that the problem names.
Otherwise there is one path item for each patched route, in the order in which the routes come
first, in which nothing is changed but the parameters of the operations that are patched. -/
theorem applyPatches_lastOfEach {paths : Fields Json} {patches : List ParameterPatch}
    (fit : ∀ p ∈ patches, p.Fits paths) :
    (∀ problem, applyPatches paths [] patches = .error problem ↔
      ∃ p, patches.find? (fun p => (p.target? paths).isNone) = some p ∧
        problem = .noOperation p.verb p.route) ∧
    ((∀ p ∈ patches, (p.target? paths).isSome = true) →
      ∃ patched, applyPatches paths [] patches = .ok patched ∧
        PathsPatched paths patches patched) := by
  have ran := (PathsPatched.start paths).applyPatches_rest fit
  rw [List.nil_append] at ran
  refine ⟨fun problem => ?fails, fun found => ?reached⟩
  case fails =>
    cases first : patches.find? fun p => (p.target? paths).isNone with
    | none =>
      rw [first] at ran
      obtain ⟨patched, applied, -⟩ := ran
      rw [applied]
      exact ⟨nofun, nofun⟩
    | some p =>
      simp only [first] at ran
      rw [ran, Except.error.injEq]
      exact ⟨fun same => ⟨p, rfl, same.symm⟩, by rintro ⟨q, same, rfl⟩; cases same; rfl⟩
  case reached =>
    have none : (patches.find? fun p => (p.target? paths).isNone) = none := by
      rw [List.find?_eq_none]
      intro p mem
      rw [Option.isNone_iff_eq_none, ← Option.not_isSome_iff_eq_none, not_not]
      exact found p mem
    rw [none] at ran
    exact ran

/-- Paths before they are patched. A desk has no operation. -/
def shelfPaths : Fields Json := [
  ("/book", .obj [("x-documentName", .str "Book"),
    ("get", .obj [("parameters", .arr []), ("operationId", .str "getListBook")]),
    ("post", .obj [("operationId", .str "postBook")])]),
  ("/desk", .obj []),
  ("/shelf", .obj [("get", .obj [("operationId", .str "getListShelf")])])]

/-- Patches to two routes in turn, one of them to an operation that was patched before. -/
def shelfPatches : List ParameterPatch := [
  ⟨"/shelf", "get", [.obj [("name", .str "room")]]⟩, ⟨"/book", "get", [.obj [("name", .str "title")]]⟩,
  ⟨"/book", "post", []⟩, ⟨"/book", "get", [.obj [("name", .str "author")]]⟩]

/-- The books are filtered by author, and their other keys stay where they were; with patches to a
desk and to a lamp, the desk is the one that is missed. -/
theorem applyPatches_lastOfEach_shelf :
    (∀ p ∈ shelfPatches ++ [⟨"/desk", "get", []⟩, ⟨"/lamp", "get", []⟩], p.Fits shelfPaths) ∧
    applyPatches shelfPaths [] (shelfPatches ++ [⟨"/desk", "get", []⟩, ⟨"/lamp", "get", []⟩]) =
      .error (.noOperation "get" "/desk") ∧
    (∀ p ∈ shelfPatches, (p.target? shelfPaths).isSome = true) ∧
    ∃ patched book, applyPatches shelfPaths [] shelfPatches = .ok patched ∧
      patched.names = ["/shelf", "/book"] ∧ patched.get? "/book" = some (.obj book) ∧
      Fields.names book = ["x-documentName", "get", "post"] ∧
      Fields.get? book "get" = some (.obj [("parameters", .arr [.obj [("name", .str "author")]]),
        ("operationId", .str "getListBook")]) := by
  have fit : ∀ p ∈ shelfPatches ++ [⟨"/desk", "get", []⟩, ⟨"/lamp", "get", []⟩],
      p.Fits shelfPaths := by decide
  have found : ∀ p ∈ shelfPatches, (p.target? shelfPaths).isSome = true := by decide
  obtain ⟨patched, applied, isPatched⟩ :=
    (applyPatches_lastOfEach fun p mem => fit p (List.mem_append_left _ mem)).2 found
  have routes : patched.names = ["/shelf", "/book"] := isPatched.routes
  obtain ⟨given, book, there, isBook, isItem⟩ := isPatched.items "/book" (by rw [routes]; decide)
  obtain ⟨operation, held, isListing⟩ := isItem.set "get" _ rfl
  cases there
  cases held
  exact ⟨fit, ((applyPatches_lastOfEach fit).1 _).2 ⟨_, rfl, rfl⟩, found, patched, book, applied,
    routes, isBook, isItem.keys, isListing⟩

end ResourceApi
