import ResourceApi.Resource.Config
import ResourceApi.Resource.Required

/-! # Normalized schemas

A schema is normalized by completing its configuration, giving the root the type
it is known to have, and writing every required list. -/

namespace ResourceApi

/-- A root with properties but no type is an object. -/
def withRootType (schema : Fields Json) : Fields Json :=
  if !schema.has "type" && ((schema.get? "properties").map Json.isObj).getD false then
    schema.put "type" (.str "object")
  else schema

/-- The schema in normal form. -/
def normalForm (schema : Fields Json) : Except Problem (Fields Json) := do
  let _ ← DocumentConfig.ofSchema schema
  let schema := withRootType (DocumentConfig.complete schema)
  if !Required.isObject (.obj schema) then throw .rootNotObject
  let root ← Required.flatten "" (.obj schema)
  pure (root.attached.fields?.getD schema)

end ResourceApi
