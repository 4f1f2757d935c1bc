import Mathlib.Data.List.Infix
import ResourceApi.Proofs.Api.Fragment

/-! # Component names

The name of a component schema is a verb, the interface name and an ending, put together
without anything between them. The three can be read off from it again, since of the verbs
none starts another and of the endings none ends another. So what a resource has under one
of its names hangs on the verb and the ending alone, also where several of its methods
register the name. -/

namespace ResourceApi

/-- The verbs of methods that register components. -/
def componentVerbs : List String := ["get", "post", "put", "patch"]

/-- What the names of components end in. -/
def componentEndings : List String := ["Response", "ResponseList", "Body"]

/-- A verb, a text and an ending are told apart in what they are put together to. -/
theorem component_inj {verb verb' ending ending' name name' : String}
    (isVerb : verb ∈ componentVerbs) (isVerb' : verb' ∈ componentVerbs)
    (isEnding : ending ∈ componentEndings) (isEnding' : ending' ∈ componentEndings)
    (same : verb ++ name ++ ending = verb' ++ name' ++ ending') :
    verb = verb' ∧ name = name' ∧ ending = ending' := by
  have verbs : ∀ v ∈ componentVerbs, ∀ w ∈ componentVerbs, v.toList <+: w.toList → v = w := by
    decide
  have endings : ∀ e ∈ componentEndings, ∀ g ∈ componentEndings, e.toList <:+ g.toList → e = g := by
    decide
  have chars := congrArg String.toList same
  simp only [String.toList_append, List.append_assoc] at chars
  obtain rfl : verb = verb' := by
    rcases List.prefix_or_prefix_of_prefix (List.prefix_append ..)
      (chars ▸ List.prefix_append verb'.toList _) with starts | starts
    · exact verbs _ isVerb _ isVerb' starts
    · exact (verbs _ isVerb' _ isVerb starts).symm
  rw [String.append_assoc, String.append_assoc, String.append_right_inj] at same
  have chars := congrArg String.toList same
  simp only [String.toList_append] at chars
  obtain rfl : ending = ending' := by
    rcases List.suffix_or_suffix_of_suffix (List.suffix_append ..)
      (chars ▸ List.suffix_append name'.toList _) with ends | ends
    · exact endings _ isEnding _ isEnding' ends
    · exact (endings _ isEnding' _ isEnding ends).symm
  exact ⟨rfl, (String.append_left_inj ending).1 same, rfl⟩

namespace Shapes

/-- What a resource has under a verb and an ending. -/
def component (s : Shapes) (verb ending : String) : Json :=
  if ending = "Response" then .obj s.response
  else if ending = "ResponseList" then .obj [("type", .str "array"), ("items", .obj s.response)]
  else if verb = "patch" then .obj s.change
  else .obj s.write

/-- A method registers what the resource has under its verb and the ending of the name. -/
theorem registered_component {s : Shapes} {interfaceName name : String} {v : Json} {m : Method}
    (h : (name, v) ∈ s.registered interfaceName m) :
    m.verb ∈ componentVerbs ∧ ∃ ending ∈ componentEndings,
      name = m.verb ++ interfaceName ++ ending ∧ v = s.component m.verb ending := by
  have list (verb : String) :
      listName verb interfaceName = verb ++ interfaceName ++ "ResponseList" := String.append_assoc
  cases m <;>
    simp only [registered, List.mem_cons, List.not_mem_nil, or_false, Prod.mk.injEq] at h
  case get =>
    obtain ⟨rfl, rfl⟩ := h
    exact ⟨by decide, "Response", by decide, rfl, rfl⟩
  case getList =>
    rcases h with ⟨rfl, rfl⟩ | ⟨rfl, rfl⟩
    · exact ⟨by decide, "Response", by decide, rfl, rfl⟩
    · exact ⟨by decide, "ResponseList", by decide, list "get", rfl⟩
  case post | put | patch =>
    rcases h with ⟨rfl, rfl⟩ | ⟨rfl, rfl⟩
    · exact ⟨by decide, "Body", by decide, rfl, rfl⟩
    · exact ⟨by decide, "Response", by decide, rfl, rfl⟩

end Shapes

namespace Resource

variable {r : Resource} {allowIdentifier : Bool} {name : String} {v : Json}

/-- The shapes of a resource. -/
def shapes (r : Resource) (allowIdentifier : Bool) : Shapes :=
  .of r.properties r.required allowIdentifier

/-- A request that gives every part of the resource. -/
def fullBody (r : Resource) : Fields Json := bodyShape r.properties (r.required.map .str)

/-- A request that creates or replaces. -/
def writeBody (r : Resource) (allowIdentifier : Bool) : Fields Json :=
  if allowIdentifier then r.fullBody else withoutIdentifier r.fullBody

/-- A request that changes parts. -/
def changeBody (r : Resource) : Fields Json := partialShape (withoutIdentifier r.fullBody)

/-- What is held under the name of a component is what the resource has under its verb and its
ending. -/
theorem component_of_get?_schemas (found : (r.schemas allowIdentifier).get? name = some v) :
    ∃ verb ∈ componentVerbs, ∃ ending ∈ componentEndings,
      name = verb ++ r.config.interfaceName ++ ending ∧
      v = (r.shapes allowIdentifier).component verb ending := by
  obtain ⟨m, -, registered⟩ := List.mem_flatMap.1 (Fields.mem_of_get?_ofPairs found)
  exact ⟨m.verb, Shapes.registered_component registered⟩

/-- What is held under the name of a body is the body that the resource has for the verb. -/
theorem body_of_get?_schemas {verb : String} (isVerb : verb ∈ componentVerbs)
    (found : (r.schemas allowIdentifier).get? (bodyName verb r.config.interfaceName) = some v) :
    v = (r.shapes allowIdentifier).component verb "Body" := by
  obtain ⟨verb', isVerb', ending, isEnding, same, rfl⟩ := component_of_get?_schemas found
  obtain ⟨rfl, -, rfl⟩ := component_inj isVerb isVerb' (by decide) isEnding same
  rfl

/-- **What a method registers is held**, whatever the other methods register. -/
theorem get?_schemas {m : Method} (listed : m ∈ r.methods)
    (registered : (name, v) ∈ (r.shapes allowIdentifier).registered r.config.interfaceName m) :
    (r.schemas allowIdentifier).get? name = some v := by
  refine Fields.get?_ofPairs (List.mem_flatMap.2 ⟨m, listed, registered⟩) fun w again => ?_
  obtain ⟨m', -, registered'⟩ := List.mem_flatMap.1 again
  obtain ⟨isVerb, ending, isEnding, rfl, rfl⟩ := Shapes.registered_component registered
  obtain ⟨isVerb', ending', isEnding', same, rfl⟩ := Shapes.registered_component registered'
  obtain ⟨verbs, -, rfl⟩ := component_inj isVerb isVerb' isEnding isEnding' same
  rw [verbs, shapes]

end Resource
end ResourceApi
