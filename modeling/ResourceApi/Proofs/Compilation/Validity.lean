import ResourceApi.Proofs.Compilation.OwnEntries
import ResourceApi.Proofs.OpenApi.Skeleton

/-! # Which documents can be finished

Whatever resources a run adds to the empty document, the frame that it builds around
their schemas fits an API description. So the document can be finished exactly if its
component schemas are schemas, and its parameters have one each and no description but a
text; and it is finished as it is. -/

namespace ResourceApi

open OpenApi

namespace Document

variable {d : Document}

/-- The document fits an API description as far as its schemas and parameters do. -/
structure SkeletonFits (d : Document) : Prop where
  bare : findings d.bare.toJson = []
  paths : ∀ f ∈ d.paths, FitsPath f.2 ↔ ∀ p, ParameterOf f.2 p → ParameterFits p
  schemas : ∀ s ∈ d.schemas, FitsSchema s.2 ↔ IsSchema s.2

namespace SkeletonFits

theorem start (options : Options) : options.start.SkeletonFits where
  bare := rfl
  paths := fun _ mem => absurd mem List.not_mem_nil
  schemas := fun _ mem => absurd mem List.not_mem_nil

/-- Adding a resource keeps it so, whatever entries are replaced. -/
theorem add (h : d.SkeletonFits) (r : Resource) (options : Options) :
    (d.add (r.fragment options)).SkeletonFits where
  bare := h.bare
  paths := by
    intro f mem
    rcases Fields.mem_merge mem with old | new
    · exact h.paths f old
    · obtain ⟨item, isObject, generated⟩ := r.generated_paths new
      rw [isObject]
      exact fitsPath_iff_parameters generated
  schemas := by
    intro s mem
    rcases Fields.mem_merge mem with old | new
    · exact h.schemas s old
    · exact r.fitsSchema_iff new

theorem finish_iff (h : d.SkeletonFits) :
    (∃ v, d.finish = .ok v) ↔ (∀ s ∈ d.schemas, IsSchema s.2) ∧
      ∀ f ∈ d.paths, ∀ p, ParameterOf f.2 p → ParameterFits p := by
  rw [exists_finish_iff, findings_toJson]
  constructor
  · intro ⟨_, paths, schemas⟩
    exact ⟨fun s mem => (h.schemas s mem).1 (schemas s mem),
      fun f mem => (h.paths f mem).1 (paths f mem)⟩
  · intro ⟨schemas, paths⟩
    exact ⟨h.bare, fun f mem => (h.paths f mem).2 (paths f mem),
      fun s mem => (h.schemas s mem).2 (schemas s mem)⟩

end SkeletonFits

end Document

namespace Compilation

variable {options : Options} {d : Disk} {c : Compilation} {paths : List Path}

theorem skeletonFits_ofFiles (finished : (ofFiles options options.start d paths).result = .ok c) :
    c.document.SkeletonFits := by
  refine document_induction finished (.start options) fun document schema f before built => ?_
  rw [Resource.fragment_eq, Results.map_eq_ok] at built
  obtain ⟨r, -, rfl⟩ := built
  exact before.add r options

/-- **The frame of a document is always valid.** A run from the empty document over files that all
compile gives a document that can be finished exactly if each of its component schemas is a schema,
and each parameter of its operations has a schema and a description that is a text or is not there.
Finishing gives the document back as it is. -/
theorem ofFiles_valid_iff (each : ∀ p ∈ paths, Compiles options d p) :
    ∃ c, (ofFiles options options.start d paths).result = .ok c ∧ c.compiled = paths ∧
      ((∃ v, c.document.finish = .ok v) ↔ (∀ s ∈ c.document.schemas, IsSchema s.2) ∧
        ∀ f ∈ c.document.paths, ∀ p, ParameterOf f.2 p → ParameterFits p) ∧
      ∀ v, c.document.finish = .ok v → v = c.document.toJson := by
  obtain ⟨c, finished, all⟩ := ofFiles_of_compiles each
  exact ⟨c, finished, all, (skeletonFits_ofFiles finished).finish_iff,
    fun _ => Document.eq_of_finish⟩

/-- The document of orders and clients can be finished. -/
theorem ofFiles_valid_trade :
    (∀ p ∈ [orderPath, clientPath], Compiles {} tradeDisk p) ∧
      ∃ c, (ofFiles {} (Options.start {}) tradeDisk [orderPath, clientPath]).result = .ok c ∧
        c.document.finish = .ok c.document.toJson := by
  obtain ⟨c, finished, -, valid, same⟩ := ofFiles_valid_iff compile_trade.1
  have order : Fragment.at? {} tradeDisk orderPath = some (orderResource.fragment {}) :=
    fragment_of_resource finished (by decide) at?_trade.1
  have client : Fragment.at? {} tradeDisk clientPath = some (clientResource.fragment {}) :=
    fragment_of_resource finished (by decide) (at?_clientPath (SchemaFile.load_text rfl rfl))
  have document : c.document = ((Options.start {}).add (orderResource.fragment {})).add
      (clientResource.fragment {}) := by
    rw [(ofFiles_document finished).1]
    simp [order, client]
  have schemas : ∀ s ∈ c.document.schemas, FitsSchema s.2 := by
    rw [document]
    decide
  have paths : ∀ f ∈ c.document.paths, FitsPath f.2 := by
    rw [document]
    decide
  have fits := skeletonFits_ofFiles finished
  obtain ⟨v, ok⟩ := valid.2 ⟨fun s mem => (fits.schemas s mem).1 (schemas s mem),
    fun f mem => (fits.paths f mem).1 (paths f mem)⟩
  exact ⟨compile_trade.1, c, finished, same v ok ▸ ok⟩

end Compilation
end ResourceApi
