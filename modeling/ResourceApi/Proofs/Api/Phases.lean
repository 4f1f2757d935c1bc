import ResourceApi.Proofs.Api.Fragment

/-! # Adding a resource in two phases

A resource may be added to a document at once, or its paths first and then its
components. Adding at once patches the paths before they are merged; in two phases a
copy of what was merged is patched and merged again. Both come to the same: the paths
of the resource take the place of earlier ones on their routes, so the patches meet the
same path items, and a path item that is merged again keeps its place. -/

namespace ResourceApi

/-- Patches see only the path items on their routes. -/
theorem applyPatches_congr {paths paths' : Fields Json} {patches : List ParameterPatch}
    (same : ∀ p ∈ patches, paths.get? p.route = paths'.get? p.route) (patched : Fields Json) :
    applyPatches paths patched patches = applyPatches paths' patched patches := by
  induction patches generalizing patched with
  | nil => rfl
  | cons p rest ih =>
    rw [applyPatches, applyPatches, itemBefore?, itemBefore?, same p List.mem_cons_self]
    congr 1
    funext item
    exact ih (fun q mem => same q (List.mem_cons_of_mem _ mem)) _

namespace Resource

variable (r : Resource)

theorem nodup_pathItems (routePrefix : String) :
    (pathItems r.config r.properties r.methods routePrefix).names.Nodup := by
  simp [pathItems, routes_ne]

/-- The patches of a resource find its own path items in every document that they were merged
into, whatever stood on their routes before. -/
theorem applyPatches_merged (paths : Fields Json) (routePrefix : String) (n : Nat) :
    applyPatches (paths.merge (pathItems r.config r.properties r.methods routePrefix)) []
        (List.replicate n (r.patch routePrefix)) =
      applyPatches (pathItems r.config r.properties r.methods routePrefix) []
        (List.replicate n (r.patch routePrefix)) := by
  refine applyPatches_congr (fun p mem => ?_) []
  obtain rfl := List.eq_of_mem_replicate mem
  have there : (pathItems r.config r.properties r.methods routePrefix).get?
      (r.patch routePrefix).route = some (.obj r.bareCollection) := if_pos rfl
  rw [Fields.get?_merge (r.nodup_pathItems routePrefix), there]
  rfl

end Resource

namespace Document

/-- **Two phases add what one adds.** Adding the paths of a resource and then its components gives
the document that adding the resource gives, with the same values and the same order of keys, or
the same problem; whatever the document holds before, also on the same routes and under the same
names. -/
theorem addComponents_of_addPaths (d : Document) (schema : Fields Json) (options : Options) :
    (d.addPaths schema options.routePrefix >>= fun d' => d'.addComponents schema options) =
      d.addResource schema options := by
  unfold addPaths addComponents addResource
  rw [Resource.buildPaths_eq, Resource.buildComponents_eq]
  cases Resource.ofSchema schema with
  | error problem => rfl
  | ok r =>
    have merged := r.applyPatches_merged d.paths options.routePrefix
      (r.methods.count .getList)
    obtain ⟨patched, applied, -⟩ := r.applyPatches_patch options.routePrefix
    simp only [Except.map, Results.ok_bind, pure, Except.pure, merge, merged, applied]
    rw [Fields.merge_assoc (r.nodup_pathItems _), Fields.merge_nil]

end Document
end ResourceApi
