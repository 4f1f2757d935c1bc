import ResourceApi.Proofs.Api.ComponentNames

/-! # Resources that share no name

The routes and the component names of a resource are put together from free text. They
can still be told apart: of two resources with different names in lower case, of which
none ends like the route of an item, no route is the same, whatever is put before them;
and of two with different interface names no component name is the same. -/

namespace ResourceApi

namespace Resource

variable {r s : Resource}

/-- Resources with different interface names have no component name in common. -/
theorem schemas_apart (differ : r.config.interfaceName ≠ s.config.interfaceName)
    {allowIdentifier : Bool} {name : String} (mem : name ∈ (r.schemas allowIdentifier).names) :
    name ∉ (s.schemas allowIdentifier).names := by
  intro mem'
  obtain ⟨v, found⟩ := Fields.exists_of_mem_names mem
  obtain ⟨v', found'⟩ := Fields.exists_of_mem_names mem'
  obtain ⟨verb, isVerb, ending, isEnding, named, -⟩ := component_of_get?_schemas found
  obtain ⟨verb', isVerb', ending', isEnding', named', -⟩ := component_of_get?_schemas found'
  exact differ (component_inj isVerb isVerb' isEnding isEnding' (named.symm.trans named')).2.1

/-! ## Routes -/

theorem collectionRoute_inj {c c' : DocumentConfig} {routePrefix : String} :
    collectionRoute c routePrefix = collectionRoute c' routePrefix ↔ c.lowerName = c'.lowerName :=
  String.append_right_inj _

theorem itemRoute_inj {c c' : DocumentConfig} {routePrefix : String} :
    itemRoute c routePrefix = itemRoute c' routePrefix ↔ c.lowerName = c'.lowerName :=
  (String.append_left_inj _).trans collectionRoute_inj

/-- The collection of one resource has the route of another's items only if its name ends so. -/
theorem collectionRoute_eq_itemRoute {c c' : DocumentConfig} {routePrefix : String} :
    collectionRoute c routePrefix = itemRoute c' routePrefix ↔
      c.lowerName = c'.lowerName ++ "/\x7bid\x7d" := by
  have item : itemRoute c' routePrefix =
      routeStem routePrefix ++ "/" ++ (c'.lowerName ++ "/\x7bid\x7d") := String.append_assoc
  rw [item, collectionRoute, String.append_right_inj]

/-- The name of the resource ends like the route of an item. -/
def EndsLikeItem (r : Resource) : Prop := ∃ stem, r.config.lowerName = stem ++ "/\x7bid\x7d"

/-- Resources with different names in lower case that do not end like the route of an item have no
route in common. -/
theorem paths_apart (differ : r.config.lowerName ≠ s.config.lowerName) (plain : ¬ r.EndsLikeItem)
    (plain' : ¬ s.EndsLikeItem) {routePrefix route : String}
    (mem : route ∈ (r.paths routePrefix).names) : route ∉ (s.paths routePrefix).names := by
  simp only [paths, Fields.names_cons, Fields.names_nil, List.mem_cons, List.not_mem_nil,
    or_false] at mem ⊢
  rintro (same | same) <;> rcases mem with rfl | rfl
  · exact differ (collectionRoute_inj.1 same)
  · exact plain' ⟨_, collectionRoute_eq_itemRoute.1 same.symm⟩
  · exact plain ⟨_, collectionRoute_eq_itemRoute.1 same⟩
  · exact differ (itemRoute_inj.1 same)

end Resource
end ResourceApi
