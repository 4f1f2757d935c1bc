import ResourceApi.Proofs.Compilation.Runs

/-! # The last write wins

Every key of a compiled document holds what the last file that has a value for it gives
it, and the key order is that of the start, then that of the files. Path items and
component schemas are overwritten apart from each other, so a path item may outlast
schemas that came with it. -/

namespace ResourceApi

/-! ## Writes over fields -/

/-- `last` is what is left when `writes` are made over `first`, one after the other. -/
structure Fields.LastWrite {α : Type} (first : Fields α) (writes : List (Fields α))
    (last : Fields α) : Prop where
  /-- A name has the value of the last write that has one, or else its first value. -/
  value : ∀ name, last.get? name =
    (writes.reverse.findSome? (·.get? name)).or (first.get? name)
  /-- The first names keep their places, and the new ones follow in the order they are written. -/
  names : last.names = first.names ++ newNames first.names (writes.flatMap Fields.names)

theorem Fields.lastWrite_foldl {α : Type} {writes : List (Fields α)}
    (nodup : ∀ new ∈ writes, new.names.Nodup) (first : Fields α) :
    LastWrite first writes (writes.foldl merge first) where
  value := get?_foldl_merge nodup first
  names := names_foldl_merge writes first

namespace Fragment

variable {options : Options} {d : Disk} {p : Path} {f : Fragment}

/-- A fragment has every path and every schema once. -/
theorem nodup_of_at? (found : at? options d p = some f) :
    f.paths.names.Nodup ∧ f.schemas.names.Nodup := by
  obtain ⟨schema, built⟩ := ofSchema_of_at? found
  rw [Resource.fragment_eq] at built
  obtain ⟨r, -, rfl⟩ := Results.map_eq_ok.1 built
  exact ⟨r.nodup_paths _, r.nodup_schemas _⟩

end Fragment

namespace Document

/-- Fragments are added to the paths and to the schemas apart from each other. -/
theorem foldl_add (fragments : List Fragment) (d : Document) :
    fragments.foldl add d =
      { d with
        paths := (fragments.map Fragment.paths).foldl Fields.merge d.paths
        schemas := (fragments.map Fragment.schemas).foldl Fields.merge d.schemas } := by
  induction fragments generalizing d with
  | nil => rfl
  | cons f rest ih => rw [List.foldl_cons, ih]; rfl

end Document

namespace Compilation

/-- The paths and the schemas after all turns are those of the files, written over the first. -/
theorem document_afterAll (options : Options) (start : Document) (d : Disk) (paths : List Path) :
    (afterAll options d { document := start } paths).document =
      { start with
        paths := (paths.filterMap fun p => (Fragment.at? options d p).map Fragment.paths).foldl
          Fields.merge start.paths
        schemas := (paths.filterMap fun p => (Fragment.at? options d p).map Fragment.schemas).foldl
          Fields.merge start.schemas } := by
  rw [afterAll, Document.foldl_add, List.map_filterMap, List.map_filterMap]

/-- **The last write wins.** After every run that gives a document, its paths and its schemas are
those of the start with the fragments of the files that have one, as the disk held them before the
run, written over them in the order of the paths; these files and no others were compiled. -/
theorem ofFiles_lastWrite {options : Options} {start : Document} {d : Disk} {paths : List Path}
    {c : Compilation} (finished : (ofFiles options start d paths).result = .ok c) :
    c.compiled = paths.filter (fun p => (Fragment.at? options d p).isSome) ∧
      c.document.openapi = start.openapi ∧ c.document.info = start.info ∧
      Fields.LastWrite start.paths
        ((paths.filterMap (Fragment.at? options d)).map Fragment.paths) c.document.paths ∧
      Fields.LastWrite start.schemas
        ((paths.filterMap (Fragment.at? options d)).map Fragment.schemas) c.document.schemas := by
  obtain ⟨document, compiled⟩ := ofFiles_document finished
  have nodup {f : Fragment} (mem : f ∈ paths.filterMap (Fragment.at? options d)) :
      f.paths.names.Nodup ∧ f.schemas.names.Nodup := by
    obtain ⟨p, -, found⟩ := List.mem_filterMap.1 mem
    exact Fragment.nodup_of_at? found
  rw [document, Document.foldl_add]
  refine ⟨compiled, rfl, rfl, Fields.lastWrite_foldl ?_ _, Fields.lastWrite_foldl ?_ _⟩
  · intro new mem
    obtain ⟨f, among, rfl⟩ := List.mem_map.1 mem
    exact (nodup among).1
  · intro new mem
    obtain ⟨f, among, rfl⟩ := List.mem_map.1 mem
    exact (nodup among).2

/-- A document with a path of its own and one that orders overwrite. -/
def shopDocument : Document where
  paths := [("/order", .null), ("/about", .null)]

theorem ofFiles_lastWrite_order :
    ∃ c, (ofFiles {} shopDocument orderDisk [orderPath, missingPath, orderPath]).result = .ok c ∧
      c.compiled = [orderPath, orderPath] ∧
      c.document.paths.names = ["/order", "/about", "/order/{id}"] ∧
      c.document.paths.get? "/order" = some (.obj orderResource.collection) ∧
      c.document.paths.get? "/about" = some .null := by
  obtain ⟨c, finished, -⟩ := ofFiles_order {} shopDocument
  have found : Fragment.at? {} orderDisk orderPath = some (orderResource.fragment {}) :=
    SchemaFile.fragment_eq_ok.1 (fragment_order {})
  have missing : Fragment.at? {} orderDisk missingPath = none := rfl
  have fragments : [orderPath, missingPath, orderPath].filterMap (Fragment.at? {} orderDisk) =
      [orderResource.fragment {}, orderResource.fragment {}] := by
    rw [List.filterMap_cons_some found, List.filterMap_cons_none missing,
      List.filterMap_cons_some found, List.filterMap_nil]
  obtain ⟨compiled, -, -, paths, -⟩ := ofFiles_lastWrite finished
  rw [fragments] at paths
  refine ⟨c, finished, ?_, paths.names, paths.value "/order", paths.value "/about"⟩
  rw [compiled, List.filter_cons_of_pos (by rw [found]; rfl),
    List.filter_cons_of_neg (by rw [missing]; decide),
    List.filter_cons_of_pos (by rw [found]; rfl), List.filter_nil]

end Compilation
end ResourceApi
