import ResourceApi.Proofs.Resource.RequiredLists
import ResourceApi.Resource.Normal

/-! # The normal form of a schema

Every node that the normal form reaches is settled (`settled_of_normalForm`), and the
normal form of a normal form is itself (`normalForm_of_normalForm`). The second is read
off from the first: nothing is left to complete, the root has its type, and settled
nodes are left as they are. -/

namespace ResourceApi

open Results Required

/-! ## Completed configurations -/

namespace DocumentConfig

theorem block_congr {schema schema' : Fields Json}
    (h : schema.get? configKey = schema'.get? configKey) : block schema = block schema' := by
  rw [block, block, h]

/-- A block that can be read is the object under its key, and has its two names. -/
theorem block_eq_ok {schema b : Fields Json} :
    block schema = .ok b ↔ schema.get? configKey = some (.obj b) ∧
      nameKeys.find? (fun key => ((b.get? key).getD .null).isFalsy) = none := by
  rw [block]
  cases schema.get? configKey with
  | none => simp
  | some v =>
    cases v with
    | obj fields =>
      simp only [Option.bind_some, Json.fields?, Option.some.injEq, Json.obj.injEq]
      cases found : nameKeys.find? (fun key => ((Fields.get? fields key).getD .null).isFalsy) with
      | none =>
        simp only [Except.ok.injEq]
        refine ⟨fun same => ⟨same, same ▸ found⟩, And.left⟩
      | some key =>
        simp only [reduceCtorEq, false_iff, not_and]
        rintro rfl absent
        rw [found] at absent
        cases absent
    | _ => simp [Json.fields?]

theorem lacksMethods_completeBlock (b : Fields Json) : lacksMethods (completeBlock b) = false := by
  rw [completeBlock]
  cases h : lacksMethods b with
  | false => simpa using h
  | true =>
    rw [if_pos rfl, lacksMethods, Fields.nonNull?, Fields.get?_put_self]
    rfl

theorem completeBlock_completeBlock (b : Fields Json) :
    completeBlock (completeBlock b) = completeBlock b := by
  rw [completeBlock, lacksMethods_completeBlock]
  rfl

/-- Completing a block does not touch its names. -/
theorem completeBlock_get? (b : Fields Json) {key : String} (h : key ≠ "methods") :
    (completeBlock b).get? key = b.get? key := by
  rw [completeBlock]
  split
  · exact Fields.get?_put_of_ne (Ne.symm h) ..
  · rfl

/-- Completing a schema puts the completed block in the place of the block. -/
theorem complete_of_block {schema b : Fields Json} (h : block schema = .ok b) :
    complete schema = schema.put configKey (.obj (completeBlock b)) := by
  rw [complete, h]
  simp only
  split
  · rfl
  · next all =>
    rw [completeBlock, if_neg all, Fields.put_of_get? (block_eq_ok.1 h).1]

theorem block_complete {schema b : Fields Json} (h : block schema = .ok b) :
    block (complete schema) = .ok (completeBlock b) := by
  obtain ⟨_, named⟩ := block_eq_ok.1 h
  rw [complete_of_block h, block_eq_ok]
  refine ⟨Fields.get?_put_self .., ?_⟩
  rw [List.find?_eq_none] at named ⊢
  intro key mem
  rw [completeBlock_get? b (by rintro rfl; simp [nameKeys] at mem)]
  exact named key mem

/-- Completing a schema touches nothing but its block. -/
theorem complete_get? (schema : Fields Json) {key : String} (h : key ≠ configKey) :
    (complete schema).get? key = schema.get? key := by
  rw [complete]
  cases block schema with
  | error e => rfl
  | ok b =>
    dsimp only
    split
    · exact Fields.get?_put_of_ne h.symm ..
    · rfl

/-- A schema whose block is a completed one has nothing left to complete. -/
theorem complete_of_completed {schema b : Fields Json} (h : block schema = .ok (completeBlock b)) :
    complete schema = schema := by
  rw [complete, h]
  simp only [lacksMethods_completeBlock, Bool.false_eq_true, if_false]

/-- The configuration is read from the block alone. -/
theorem ofSchema_of_completed {schema schema' b : Fields Json} (h : block schema = .ok b)
    (h' : block schema' = .ok (completeBlock b)) : ofSchema schema' = ofSchema schema := by
  rw [ofSchema, ofSchema, h, h', ok_bind, ok_bind, completeBlock_completeBlock]

theorem block_of_ofSchema {schema : Fields Json} {config : DocumentConfig}
    (h : ofSchema schema = .ok config) : ∃ b, block schema = .ok b := by
  obtain ⟨b, hb, _⟩ := bind_eq_ok.1 h
  exact ⟨b, hb⟩

end DocumentConfig

/-! ## The root -/

/-- What is flattened: the completed schema with the type of its root. -/
def prepared (schema : Fields Json) : Fields Json := withRootType (DocumentConfig.complete schema)

theorem withRootType_get? (schema : Fields Json) {name : String} (h : name ≠ "type") :
    (withRootType schema).get? name = schema.get? name := by
  rw [withRootType]
  split
  · exact Fields.get?_put_of_ne (Ne.symm h) ..
  · rfl

theorem withRootType_of_isObject {schema : Fields Json} (h : isObject (.obj schema) = true) :
    withRootType schema = schema := by
  have typed : schema.has "type" = true :=
    Fields.has_eq_true_iff.2 ⟨_, isObject_eq_true.1 h⟩
  rw [withRootType, typed]
  rfl

theorem normalForm_eq (schema : Fields Json) :
    normalForm schema = DocumentConfig.ofSchema schema >>= fun _ =>
      if isObject (.obj (prepared schema)) then
        (flatten "" (.obj (prepared schema))).map fun root =>
          root.attached.fields?.getD (prepared schema)
      else .error .rootNotObject := by
  rw [normalForm]
  congr 1
  funext _
  change (if (!isObject (.obj (prepared schema))) = true then _ else _) = _
  cases isObject (.obj (prepared schema)) with
  | false => rfl
  | true =>
    change (flatten "" (.obj (prepared schema)) >>= fun root =>
      pure (root.attached.fields?.getD (prepared schema))) = _
    cases flatten "" (.obj (prepared schema)) <;> rfl

/-- The steps on the way to a normal form. -/
theorem normalForm_eq_ok {schema normal : Fields Json} :
    normalForm schema = .ok normal ↔ (∃ config, DocumentConfig.ofSchema schema = .ok config) ∧
      isObject (.obj (prepared schema)) = true ∧
      ∃ f, flatten "" (.obj (prepared schema)) = .ok f ∧ f.attached = .obj normal := by
  rw [normalForm_eq, bind_eq_ok, ← exists_and_right]
  refine exists_congr fun config => and_congr_right fun _ => ?_
  cases isObject (.obj (prepared schema)) with
  | false => simp
  | true =>
    simp only [if_true, map_eq_ok, true_and]
    refine exists_congr fun f => and_congr_right fun h => ?_
    have object := isObj_attached h
    cases attached : f.attached with
    | obj fields => simp [Json.fields?]
    | _ => rw [attached] at object; cases object

/-! ## Fields that stay -/

namespace Required

/-- A node that is flattened keeps its fields but for the list and what is below. -/
theorem field?_attached {location : String} {node : Json} {f : Flattened}
    (h : flatten location node = .ok f) {name : String} (properties : name ≠ "properties")
    (items : name ≠ "items") (required : name ≠ "required") :
    f.attached.field? name = node.field? name := by
  cases flatten_eq_ok.1 h with
  | items => exact Fields.get?_put_of_ne (Ne.symm items) ..
  | object =>
    exact (Fields.get?_put_of_ne (Ne.symm required) ..).trans
      (Fields.get?_put_of_ne (Ne.symm properties) ..)
  | other => rfl

/-- A condition on values that looks at the names of an object only, and that lists meet. -/
structure OnNames (p : Json → Bool) : Prop where
  list : ∀ texts, p (listJson texts) = true
  text : ∀ s, p (.str s) = true
  names : ∀ fields fields' : Fields Json, fields.names = fields'.names →
    p (.obj fields) = p (.obj fields')
  put : ∀ (fields : Fields Json) (name : String) (v : Json), p (.obj fields) = true →
    p (.obj (fields.put name v)) = true

theorem OnNames.listJson {p : Json → Bool} (on : OnNames p) (texts : List String) :
    (listJson texts).throughout p = true := by
  refine Json.throughout_arr.2 ⟨on.list texts, ?_⟩
  intro v mem
  obtain ⟨s, _, rfl⟩ := List.mem_map.1 mem
  exact on.text s

theorem OnNames.put_throughout {p : Json → Bool} (on : OnNames p) {fields : Fields Json}
    {name : String} {v : Json} (h : (Json.obj fields).throughout p = true)
    (value : v.throughout p = true) : (Json.obj (fields.put name v)).throughout p = true :=
  Json.throughout_put h (on.put fields name v (Json.throughout_obj.1 h).1) value

/-- Flattening keeps such a condition throughout a tree. -/
theorem throughout_attached {p : Json → Bool} (on : OnNames p) {location : String} {node : Json}
    {f : Flattened} (h : flatten location node = .ok f) (all : node.throughout p = true) :
    f.attached.throughout p = true := by
  induction h using flatten_induction with
  | items _ found below ih => exact on.put_throughout all (ih (Json.throughout_get? all found))
  | object _ found each ih =>
    have all' := Json.throughout_get? all found
    refine on.put_throughout (on.put_throughout all (Json.throughout_obj.2 ⟨?_, ?_⟩))
      (on.listJson _)
    · rw [on.names _ _ (flattenEach_names each)]
      exact (Json.throughout_obj.1 all').1
    · rintro ⟨name, w⟩ mem
      obtain ⟨v, q, mem', hq, rfl⟩ := flattenEach_mem each mem
      exact ih (name, v) mem' hq ((Json.throughout_obj.1 all').2 _ mem')
  | other => exact all

end Required

theorem prepared_throughout {p : Json → Bool} (on : OnNames p) {schema : Fields Json}
    (all : (Json.obj schema).throughout p = true) :
    (Json.obj (prepared schema)).throughout p = true := by
  have completed : (Json.obj (DocumentConfig.complete schema)).throughout p = true := by
    rw [DocumentConfig.complete]
    cases h : DocumentConfig.block schema with
    | error e => exact all
    | ok b =>
      simp only
      split
      · next lacks =>
        have found := (DocumentConfig.block_eq_ok.1 h).1
        refine on.put_throughout all ?_
        rw [DocumentConfig.completeBlock, if_pos lacks]
        exact on.put_throughout (Json.throughout_get? all found) (on.listJson (Method.all.map Method.name))
      · exact all
  rw [prepared, withRootType]
  split
  · exact on.put_throughout completed (on.text "object")
  · exact completed

/-- The normal form keeps every condition that lists meet and that looks at names only. -/
theorem normalForm_throughout {p : Json → Bool} (on : OnNames p) {schema normal : Fields Json}
    (h : normalForm schema = .ok normal) (all : (Json.obj schema).throughout p = true) :
    (Json.obj normal).throughout p = true := by
  obtain ⟨_, _, f, hf, attached⟩ := normalForm_eq_ok.1 h
  exact attached ▸ throughout_attached on hf (prepared_throughout on all)

theorem onNames_namesDistinct : OnNames Json.namesDistinct where
  list _ := rfl
  text _ := rfl
  names fields fields' same := by rw [Json.namesDistinct, Json.namesDistinct, same]
  put fields name v nodup := by
    rw [Json.namesDistinct, decide_eq_true_eq] at nodup ⊢
    exact Fields.nodup_put nodup name v

theorem normalForm_distinct {schema normal : Fields Json} (h : normalForm schema = .ok normal)
    (distinct : (Json.obj schema).Distinct) : (Json.obj normal).Distinct :=
  normalForm_throughout onNames_namesDistinct h distinct

/-! ## Normal forms -/

theorem settled_of_normalForm {schema normal : Fields Json} (h : normalForm schema = .ok normal)
    (distinct : (Json.obj schema).Distinct) {node : Json} (reached : Reached (.obj normal) node) :
    Settled node := by
  obtain ⟨_, object, f, hf, attached⟩ := normalForm_eq_ok.1 h
  exact settled_of_flatten (prepared_throughout onNames_namesDistinct distinct) hf object
    (attached ▸ reached)

/-- The block of a normal form is the completed block of its schema. -/
theorem block_of_normalForm {schema normal : Fields Json} (h : normalForm schema = .ok normal) :
    ∃ b, DocumentConfig.block schema = .ok b ∧
      DocumentConfig.block normal = .ok (DocumentConfig.completeBlock b) := by
  obtain ⟨⟨config, isConfig⟩, _, f, hf, attached⟩ := normalForm_eq_ok.1 h
  obtain ⟨b, hb⟩ := DocumentConfig.block_of_ofSchema isConfig
  have kept : normal.get? configKey = (DocumentConfig.complete schema).get? configKey := by
    rw [← Json.field?_obj, ← attached, field?_attached hf (by decide) (by decide) (by decide)]
    exact withRootType_get? _ (by decide)
  exact ⟨b, hb, (DocumentConfig.block_congr kept).trans (DocumentConfig.block_complete hb)⟩

/-- A normal form has the configuration of its schema. -/
theorem DocumentConfig.ofSchema_normalForm {schema normal : Fields Json}
    (h : normalForm schema = .ok normal) : ofSchema normal = ofSchema schema := by
  obtain ⟨b, hb, hb'⟩ := block_of_normalForm h
  exact ofSchema_of_completed hb hb'

theorem isObject_of_normalForm {schema normal : Fields Json} (h : normalForm schema = .ok normal) :
    isObject (.obj normal) = true := by
  obtain ⟨_, object, f, hf, attached⟩ := normalForm_eq_ok.1 h
  rw [← attached, isObject_attached hf, object]

/-- Nothing is left to complete in a normal form. -/
theorem prepared_of_normalForm {schema normal : Fields Json} (h : normalForm schema = .ok normal) :
    prepared normal = normal := by
  obtain ⟨_, _, completed⟩ := block_of_normalForm h
  rw [prepared, DocumentConfig.complete_of_completed completed,
    withRootType_of_isObject (isObject_of_normalForm h)]

/-- A normal form is its own normal form. -/
theorem normalForm_of_normalForm {schema normal : Fields Json} (distinct : (Json.obj schema).Distinct)
    (h : normalForm schema = .ok normal) : normalForm normal = .ok normal := by
  obtain ⟨⟨config, isConfig⟩, -⟩ := normalForm_eq_ok.1 h
  have object := isObject_of_normalForm h
  obtain ⟨g, hg, same, _⟩ := stable_of_settled object (normalForm_distinct h distinct)
    (fun _ => settled_of_normalForm h distinct) ""
  refine normalForm_eq_ok.2 ⟨⟨config, ?_⟩, ?_⟩
  · exact (DocumentConfig.ofSchema_normalForm h).trans isConfig
  · rw [prepared_of_normalForm h]
    exact ⟨object, g, hg, same⟩

/-- A resource with flags of both kinds, a stale list and objects in an array. The buyer is
switched off but requires something. -/
def orderSchema : Fields Json := [
  ("x-documentConfig", .obj [("documentName", .str "Order"), ("interfaceName", .str "Order"),
    ("methods", .null)]),
  ("required", .arr [.str "gone", .str "note", .str "note", .int 3, .str "total"]),
  ("properties", .obj [
    ("note", .obj [("type", .str "string")]),
    ("total", .obj [("type", .str "number"), ("required", .bool false)]),
    ("buyer", .obj [("type", .str "object"), ("required", .bool false), ("properties", .obj [
      ("mail", .obj [("type", .str "string"), ("required", .bool true)])])]),
    ("lines", .obj [("type", .str "array"), ("items", .obj [("type", .str "object"),
      ("properties", .obj [("sku", .obj [("required", .bool true)])])])])])]

def orderNormal : Fields Json := [
  ("x-documentConfig", .obj [("documentName", .str "Order"), ("interfaceName", .str "Order"),
    ("methods", DocumentConfig.allMethods)]),
  ("required", .arr [.str "note", .str "buyer"]),
  ("properties", .obj [
    ("note", .obj [("type", .str "string")]),
    ("total", .obj [("type", .str "number"), ("required", .bool false)]),
    ("buyer", .obj [("type", .str "object"), ("required", .arr [.str "mail"]), ("properties", .obj [
      ("mail", .obj [("type", .str "string"), ("required", .bool true)])])]),
    ("lines", .obj [("type", .str "array"), ("items", .obj [("type", .str "object"),
      ("properties", .obj [("sku", .obj [("required", .bool true)])]),
      ("required", .arr [.str "sku"])])])]),
  ("type", .str "object")]

theorem normalForm_orderSchema : normalForm orderSchema = .ok orderNormal := rfl

/-- **Normalizing twice is normalizing once.** What the first pass gives, the second gives back
with the same fields in the same order at every level. -/
theorem normalForm_idempotent {schema : Fields Json} (distinct : (Json.obj schema).Distinct) :
    (normalForm schema >>= normalForm) = normalForm schema := by
  cases h : normalForm schema with
  | error e => rfl
  | ok normal => exact normalForm_of_normalForm distinct h

theorem normalForm_idempotent_order : (Json.obj orderSchema).Distinct ∧
    (normalForm orderSchema >>= normalForm) = normalForm orderSchema :=
  ⟨by decide, normalForm_idempotent (by decide)⟩

/-- **Every node that a normal form reaches is settled.** It has a list of names and no flag; the
list names only properties that are not switched off, and names all that have the flag and all
objects that require something. -/
theorem normalForm_settled {schema normal : Fields Json} (distinct : (Json.obj schema).Distinct)
    (h : normalForm schema = .ok normal) {node : Json} (reached : Reached (.obj normal) node) :
    Settled node ∧ ∀ b, node.field? "required" ≠ some (.bool b) := by
  have settled := settled_of_normalForm h distinct reached
  obtain ⟨list, lists⟩ := settled.lists
  refine ⟨settled, fun b flag => ?_⟩
  rw [lists.written] at flag
  cases flag

/-- The items of the lines are reached, and are settled. -/
theorem normalForm_settled_lines : ∃ lines, Reached (.obj orderNormal) lines ∧
    (Settled lines ∧ ∀ b, lines.field? "required" ≠ some (.bool b)) ∧
    lines.field? "required" = some (listJson ["sku"]) := by
  have reached : Reached (.obj orderNormal) _ :=
    .single (.items (show property? _ "lines" = _ from rfl) rfl rfl)
  exact ⟨_, reached, normalForm_settled (by decide) normalForm_orderSchema reached, rfl⟩

end ResourceApi
