import Mathlib.Data.List.DropRight
import ResourceApi.Proofs.Compilation.TwoRuns

/-! # Route prefixes

A prefix stands before the routes of every resource and nowhere else. Routes that differ
still differ with the same text before them, so resources meet on a route under a prefix
exactly where they meet without one. A run under a prefix is therefore the run without
it, turn by turn: it writes the same files, reports the same and comes to the same
document, whose routes have the prefix before them. -/

namespace ResourceApi

namespace Outcome

variable {α β γ : Type}

/-- The outcome with another result; its disk and its notices stay. -/
def map (g : α → β) (o : Outcome α) : Outcome β := ⟨o.disk, o.notices, o.result.map g⟩

theorem map_andThen (o : Outcome α) (g : α → β) (next : Disk → β → Outcome γ) :
    (o.map g).andThen next = o.andThen fun d a => next d (g a) := by
  obtain ⟨d, notices, result⟩ := o
  cases result <;> rfl

/-- Outcomes of which one has the results of the other under a function. -/
theorem Alike.eq_map {g : α → β} {o : Outcome α} {o' : Outcome β}
    (alike : Alike (fun a b => b = g a) o o') : o' = o.map g := by
  cases alike with
  | reached disk notices related => rw [related]; rfl
  | stopped => rfl

theorem andThen_map (o : Outcome α) (next : Disk → α → Outcome β) (g : β → γ) :
    (o.andThen next).map g = o.andThen fun d a => (next d a).map g := by
  obtain ⟨d, notices, result⟩ := o
  cases result <;> rfl

end Outcome

/-! ## Routes -/

/-- A prefix is its stem, with slashes behind it. -/
theorem eq_routeStem_append (routePrefix : String) :
    ∃ n, routePrefix = routeStem routePrefix ++ String.ofList (List.replicate n '/') := by
  let slashes := routePrefix.toList.rtakeWhile (· == '/')
  have same : slashes = List.replicate slashes.length '/' := by
    refine List.eq_replicate_of_mem fun c mem => beq_iff_eq.1 ?_
    exact List.mem_rtakeWhile_imp (p := (· == '/')) mem
  refine ⟨slashes.length, String.toList_injective ?_⟩
  rw [String.toList_append, String.toList_ofList, ← same, routeStem, String.toList_ofList]
  exact List.rdropWhile_append_rtakeWhile.symm

/-- The stem does not end in a slash. -/
theorem getLast?_routeStem (routePrefix : String) :
    (routeStem routePrefix).toList.getLast? ≠ some '/' := by
  rw [routeStem, String.toList_ofList, List.getLast?_reverse]
  intro first
  have kept := List.head?_dropWhile_not (· == '/') routePrefix.toList.reverse
  rw [first] at kept
  cases kept

/-- The text that a prefix puts before a route. -/
def prefixed (routePrefix route : String) : String := routeStem routePrefix ++ route

theorem prefixed_injective (routePrefix : String) : Function.Injective (prefixed routePrefix) := by
  intro a b same
  exact (String.append_right_inj _).1 same

theorem collectionRoute_eq (config : DocumentConfig) (routePrefix : String) :
    collectionRoute config routePrefix = prefixed routePrefix (collectionRoute config "") := by
  have bare : routeStem "" = "" := rfl
  rw [prefixed, collectionRoute, collectionRoute, bare, String.empty_append, String.append_assoc]

theorem itemRoute_eq (config : DocumentConfig) (routePrefix : String) :
    itemRoute config routePrefix = prefixed routePrefix (itemRoute config "") := by
  rw [itemRoute, collectionRoute_eq, itemRoute, prefixed, prefixed, String.append_assoc]

/-! ## Documents under a prefix -/

/-- The fragment with the prefix before its routes. -/
def Fragment.underPrefix (routePrefix : String) (f : Fragment) : Fragment :=
  { f with paths := f.paths.mapNames (prefixed routePrefix) }

/-- The document with the prefix before its routes. -/
def Document.underPrefix (routePrefix : String) (d : Document) : Document :=
  { d with paths := d.paths.mapNames (prefixed routePrefix) }

/-- The compilation of the document with the prefix before its routes. -/
def Compilation.underPrefix (routePrefix : String) (c : Compilation) : Compilation :=
  { c with document := c.document.underPrefix routePrefix }

variable {options : Options} {d : Disk} {c : Compilation} {paths : List Path}

/-- The paths of a resource have the prefix before their routes, and its schemas do not know it. -/
theorem Resource.fragment_routePrefix (r : Resource) (options : Options) (routePrefix : String) :
    r.fragment { options with routePrefix } =
      (r.fragment { options with routePrefix := "" }).underPrefix routePrefix := by
  have routes : r.paths routePrefix = (r.paths "").mapNames (prefixed routePrefix) := by
    rw [Resource.paths, collectionRoute_eq, itemRoute_eq]
    rfl
  rw [Resource.fragment, routes]
  rfl

theorem Document.add_underPrefix (document : Document) (f : Fragment) (routePrefix : String) :
    (document.underPrefix routePrefix).add (f.underPrefix routePrefix) =
      (document.add f).underPrefix routePrefix := by
  simp only [add, merge, underPrefix, Fragment.underPrefix]
  rw [Fields.mapNames_merge (prefixed_injective routePrefix)]

/-- What a resource adds to a document under a prefix is what it adds without one. -/
theorem Document.add_fragment_underPrefix (document : Document) (r : Resource) (options : Options)
    (routePrefix : String) :
    (document.underPrefix routePrefix).add (r.fragment { options with routePrefix }) =
      (document.add (r.fragment { options with routePrefix := "" })).underPrefix routePrefix := by
  rw [r.fragment_routePrefix options routePrefix, add_underPrefix]

namespace Compilation

/-! ## Runs under a prefix -/

/-- Runs under a prefix and without one take the same turns, and come to the same. -/
theorem steps_underPrefix (c : Compilation) (paths : List Path) (routePrefix : String) :
    steps { options with routePrefix } d (c.underPrefix routePrefix) paths =
      (steps { options with routePrefix := "" } d c paths).map (underPrefix routePrefix) := by
  let Under (document document' : Document) : Prop := document' = document.underPrefix routePrefix
  have adds (document document' : Document) (r : Resource) (under : Under document document') :
      Under (document.add (r.fragment { options with routePrefix := "" }))
        (document'.add (r.fragment { options with routePrefix })) :=
    under ▸ document.add_fragment_underPrefix r options routePrefix
  have first : Abreast Under c (c.underPrefix routePrefix) := ⟨rfl, rfl, rfl⟩
  have alike := steps_alike (d := d) (by rfl) adds first paths
  refine Outcome.Alike.eq_map (alike.imp fun c c' _ _ abreast => ?_)
  obtain ⟨document, compiled, failed⟩ := c'
  obtain ⟨isDocument, isCompiled, isFailed⟩ := abreast
  subst isDocument isCompiled isFailed
  rfl

/-- What a run gives under a prefix is what it gives without it, with the stem before its routes. -/
theorem ofFiles_underPrefix (options : Options) (routePrefix : String) (d : Disk)
    (paths : List Path) :
    ofFiles { options with routePrefix } options.start d paths =
      (ofFiles { options with routePrefix := "" } options.start d paths).map
        (underPrefix routePrefix) := by
  have empty : ({ document := options.start } : Compilation) =
      underPrefix routePrefix { document := options.start } := rfl
  unfold ofFiles
  rw [empty, steps_underPrefix, Outcome.map_andThen, Outcome.andThen_map]
  congr 1
  funext d c
  change (if !paths.isEmpty && c.compiled.isEmpty then _ else _) = _
  split <;> rfl

/-- **A route prefix only renames routes.** A run from the empty document under a prefix leaves the
same disk and the same notices as the run without it, and stops for the same reason or gives the
same compiled paths, the same messages and the same document, with the prefix before each of its
routes, less the slashes that it ends in: the same path items in the same order, and the same
schemas. -/
theorem ofFiles_routePrefix (options : Options) (routePrefix : String) (d : Disk)
    (paths : List Path) :
    ∃ stem n, routePrefix = stem ++ String.ofList (List.replicate n '/') ∧
      stem.toList.getLast? ≠ some '/' ∧
      ofFiles { options with routePrefix } options.start d paths =
        (ofFiles { options with routePrefix := "" } options.start d paths).map fun c =>
          { c with document := { c.document with
              paths := c.document.paths.map fun x => (stem ++ x.1, x.2) } } := by
  obtain ⟨n, whole⟩ := eq_routeStem_append routePrefix
  exact ⟨routeStem routePrefix, n, whole, getLast?_routeStem routePrefix,
    ofFiles_underPrefix options routePrefix d paths⟩

end Compilation
end ResourceApi
