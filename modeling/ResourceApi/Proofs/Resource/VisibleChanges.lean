import ResourceApi.Proofs.Json.LikenessLaws
import ResourceApi.Proofs.Resource.Untouched

/-! # Changes that a comparison sees

Whether a schema was in normal form is told by comparing it with its normal form, up to
the order of fields and the kinds of numbers. Normalizing makes no change that such a
comparison overlooks: it puts new fields behind those that are there, and what it puts in
the place of a value is a list of texts, or comes from such changes further below. -/

namespace ResourceApi

open Required

namespace Fields

variable {α : Type}

/-- Fields with the same names in the same order are the same if the names find the same. -/
theorem eq_of_get? {fs fs' : Fields α} (nodup : fs.names.Nodup) (named : fs'.names = fs.names)
    (same : ∀ name v, fs.get? name = some v → fs'.get? name = some v) : fs' = fs := by
  induction fs generalizing fs' with
  | nil => exact List.map_eq_nil_iff.1 named
  | cons f rest ih =>
    obtain ⟨name, v⟩ := f
    obtain _ | ⟨⟨name', w⟩, rest'⟩ := fs'
    · cases named
    · rw [names_cons, names_cons, List.cons.injEq] at named
      obtain ⟨rfl, named⟩ := named
      rw [names_cons, List.nodup_cons] at nodup
      have first := same name' v (by rw [get?_cons, if_pos rfl])
      rw [get?_cons, if_pos rfl] at first
      cases first
      rw [ih nodup.2 named fun n u found => ?_]
      have other : name' ≠ n := fun here => nodup.1 (here ▸ mem_names_of_get? found)
      have later := same n u (by rw [get?_cons, if_neg other, found])
      rwa [get?_cons, if_neg other] at later

end Fields

/-! ## Flattening -/

namespace Required

/-- A node that is like what flattening makes of it is left as it is. The induction is on the
tree; what is like an object is an object with the same fields, so that the list and everything
that is put back below the node is like what was there. -/
theorem attached_eq_of_alike {location : String} {node : Json} {f : Flattened}
    (h : flatten location node = .ok f) (distinct : node.Distinct)
    (like : node.alike f.attached = true) : f.attached = node := by
  induction h using flatten_induction with
  | @items _ fields items g kind found below ih =>
    obtain ⟨v, here, like'⟩ := Json.get?_of_alike (Fields.names_prefix_put ..) like
      (Fields.get?_put_self fields "items" g.attached)
    cases found.symm.trans here
    have same := ih (distinct.get? found) like'
    exact congrArg Json.obj (same ▸ Fields.put_of_get? found)
  | @object _ fields properties properties' demanding kind found each ih =>
    rw [Flattening.attached_object] at like ⊢
    have grown := (Fields.names_prefix_put fields "properties" (.obj properties')).trans
      (Fields.names_prefix_put _ "required" (listJson (combine (kept fields properties) demanding)))
    obtain ⟨v, here, like'⟩ := Json.get?_of_alike grown like
      ((Fields.get?_put_of_ne (by decide) ..).trans (Fields.get?_put_self ..))
    cases found.symm.trans here
    have unchanged : properties' = properties := by
      refine Fields.eq_of_get? (distinct.get? found).nodup (flattenEach_names each) ?_
      intro name p isProperty
      obtain ⟨-, q, hq, isProperty', -⟩ := flattenEach_get? each isProperty
      have mem := Fields.mem_of_get? isProperty
      obtain ⟨w, isProperty'', like''⟩ := (Json.alike_obj.1 like').2 _ mem
      cases isProperty'.symm.trans isProperty''
      rw [isProperty', ih (name, p) mem hq ((distinct.get? found).get? isProperty) like'']
    obtain ⟨list, listed, like''⟩ := Json.get?_of_alike grown like (Fields.get?_put_self ..)
    obtain rfl := Json.alike_texts.1 like''
    rw [unchanged, Fields.put_of_get? found]
    exact congrArg Json.obj (Fields.put_of_get? listed)
  | other => rfl

end Required

/-! ## The root -/

namespace DocumentConfig

/-- A block that is like the completed one has its methods. -/
theorem completeBlock_eq_of_alike {b : Fields Json}
    (like : (Json.obj b).alike (.obj (completeBlock b)) = true) : completeBlock b = b := by
  rw [completeBlock] at like ⊢
  split
  · next lacks =>
    rw [if_pos lacks] at like
    obtain ⟨v, found, like'⟩ := Json.get?_of_alike (Fields.names_prefix_put ..) like
      (Fields.get?_put_self ..)
    have all : v.alike (listJson (Method.all.map Method.name)) = true := like'
    obtain rfl := Json.alike_texts.1 all
    rw [lacksMethods, Fields.nonNull?, found] at lacks
    cases lacks
  · rfl

end DocumentConfig

section Root

variable {schema normal : Fields Json}

/-- The normal form has all fields of the schema in their places, and perhaps more behind them. -/
theorem names_prefix_normalForm (h : normalForm schema = .ok normal) :
    schema.names <+: normal.names := by
  obtain ⟨-, object, f, hf, attached⟩ := normalForm_eq_ok.1 h
  have grown := (preserves_of_flatten hf object).of_prepared.keys
  rwa [attached] at grown

/-- A schema that is like its normal form has a complete configuration and a root with its type. -/
theorem prepared_eq_of_alike (h : normalForm schema = .ok normal)
    (like : (Json.obj schema).alike (.obj normal) = true) : prepared schema = schema := by
  have grown := names_prefix_normalForm h
  obtain ⟨b, hb, hb'⟩ := block_of_normalForm h
  have completed : DocumentConfig.completeBlock b = b := by
    obtain ⟨v, found, like'⟩ := Json.get?_of_alike grown like (DocumentConfig.block_eq_ok.1 hb').1
    cases (DocumentConfig.block_eq_ok.1 hb).1.symm.trans found
    exact DocumentConfig.completeBlock_eq_of_alike like'
  have object : isObject (.obj schema) = true := by
    obtain ⟨v, found, like'⟩ := Json.get?_of_alike grown like
      (isObject_eq_true.1 (isObject_of_normalForm h))
    exact isObject_eq_true.2 (Json.alike_str.1 like' ▸ found)
  rw [prepared, DocumentConfig.complete_of_completed (completed.symm ▸ hb),
    withRootType_of_isObject object]

/-- **No change is overlooked.** A schema is like its normal form only if it is its normal form. -/
theorem alike_normalForm_iff (distinct : (Json.obj schema).Distinct)
    (h : normalForm schema = .ok normal) :
    (Json.obj schema).alike (.obj normal) = true ↔ schema = normal := by
  constructor
  · intro like
    obtain ⟨-, -, f, hf, attached⟩ := normalForm_eq_ok.1 h
    rw [prepared_eq_of_alike h like] at hf
    have same := attached_eq_of_alike hf distinct (attached.symm ▸ like)
    exact Json.obj.inj (same.symm.trans attached)
  · rintro rfl
    exact Json.alike_self _ distinct

end Root

/-- A comparison does overlook changes of other kinds: the order of fields, and one for true. -/
example : (Json.obj [("a", .int 1), ("b", .null)]).alike (.obj [("b", .null), ("a", .bool true)]) =
    true := rfl

end ResourceApi
