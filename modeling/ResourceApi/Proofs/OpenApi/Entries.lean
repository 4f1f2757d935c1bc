import ResourceApi.Api.Document
import ResourceApi.Proofs.Json.FieldLaws

/-! # Documents are checked entry by entry

A document is an API description if what stands before its entries is, and each of its
path items and component schemas has the shape of one, by itself. Documents that are
none have a fault of the document. -/

namespace ResourceApi

open OpenApi

/-- The value has the shape of a path item. -/
def FitsPath (v : Json) : Prop := check v (.record .pathItem) = []

/-- The value has the shape of a component schema. -/
def FitsSchema (v : Json) : Prop := check v schemaShape = []

instance (v : Json) : Decidable (FitsPath v) := inferInstanceAs (Decidable (_ = _))
instance (v : Json) : Decidable (FitsSchema v) := inferInstanceAs (Decidable (_ = _))

theorem checkValues_nil (shape : Shape) : Node.checkValues shape [] = [] := rfl

theorem checkValues_eq_nil {shape : Shape} {fields : Fields Json} :
    Node.checkValues shape (fieldChecks fields) = [] ↔ ∀ f ∈ fields, check f.2 shape = [] := by
  induction fields with
  | nil => simp [checkValues_nil, fieldChecks]
  | cons f rest ih =>
    rw [Node.checkValues] at ih
    simp [Node.checkValues, fieldChecks, ih]

theorem faults_eq_nil {v : Json} : faults v = [] ↔ findings v = [] := by
  rw [faults, Fields.ofPairs]
  cases findings v with
  | nil => exact iff_of_true rfl rfl
  | cons f rest =>
    refine iff_of_false (fun none => ?_) (List.cons_ne_nil _ _)
    have named : f.location ∈
        (Fields.merge [] ((f :: rest).map fun f => (f.location, f.fault))).names :=
      Fields.mem_names_merge.2 (.inr List.mem_cons_self)
    rw [none] at named
    cases named

namespace Document

/-- The document without its entries. -/
def bare (d : Document) : Document := { d with paths := [], schemas := [] }

/-- **A document has no findings** if it has none without its entries, and its entries fit. -/
theorem findings_toJson (d : Document) :
    findings d.toJson = [] ↔ findings d.bare.toJson = [] ∧
      (∀ p ∈ d.paths, FitsPath p.2) ∧ ∀ s ∈ d.schemas, FitsSchema s.2 := by
  simp only [findings, toJson, bare, check, fieldChecks, Node.check, Record.fields]
  simp [Node.checkField, Fields.get?, FieldRule.defaulted, FieldRule.needed, FieldRule.optional,
    externalDocs, Node.check, Record.fields, checkValues_eq_nil, checkValues_nil, FitsPath,
    FitsSchema, and_assoc]

/-- A document is finished as it is, or has a fault of the document. -/
theorem finish_eq (d : Document) :
    (findings d.toJson = [] ∧ d.finish = .ok d.toJson) ∨
      (findings d.toJson ≠ [] ∧
        ∃ count place first, d.finish = .error (.badDocument count place first)) := by
  rw [finish, checkedDescription, Ne, ← faults_eq_nil]
  cases faults d.toJson with
  | nil => exact .inl ⟨rfl, rfl⟩
  | cons f rest =>
    obtain ⟨place, fault⟩ := f
    exact .inr ⟨List.cons_ne_nil _ _, _, _, _, rfl⟩

theorem exists_finish_iff {d : Document} : (∃ v, d.finish = .ok v) ↔ findings d.toJson = [] := by
  rcases d.finish_eq with ⟨none, finished⟩ | ⟨some, count, place, first, refused⟩
  · exact iff_of_true ⟨_, finished⟩ none
  · rw [refused]
    exact iff_of_false (fun ⟨_, finished⟩ => by cases finished) some

theorem eq_of_finish {d : Document} {v : Json} (finished : d.finish = .ok v) : v = d.toJson := by
  rcases d.finish_eq with ⟨-, asItIs⟩ | ⟨-, count, place, first, refused⟩
  · exact Except.ok.inj (finished.symm.trans asItIs)
  · rw [refused] at finished
    cases finished

end Document
end ResourceApi
