import ResourceApi.Proofs.Compilation.Orders

/-! # The entries of independent files

Where the resources of the files share no name, nothing that a file adds to the document
is overwritten by another one, and a file that comes twice adds the same again. So the
document of a run from the empty one holds the path items and the component schemas of
every resource as they are in its fragment, and holds no path item besides. -/

namespace ResourceApi

namespace Compilation

variable {options : Options} {start : Document} {d : Disk} {c : Compilation} {p : Path}
  {paths : List Path} {r : Resource}

/-! ## Files that compile -/

/-- A file compiles on its own. -/
def Compiles (options : Options) (d : Disk) (p : Path) : Prop :=
  ∃ document, (compileFile options d options.start p).result = .ok document

theorem compiles_iff_fragment :
    Compiles options d p ↔ ∃ f, Fragment.at? options d p = some f := by
  simp only [Compiles, compileFile_result, Results.map_eq_ok, SchemaFile.fragment_eq_ok]
  constructor
  · rintro ⟨_, f, found, _⟩
    exact ⟨f, found⟩
  · rintro ⟨f, found⟩
    exact ⟨_, f, found, rfl⟩

/-- A file compiles that holds the text of a schema and has a resource. -/
theorem compiles_of_text {schema : Fields Json} (storable : (Json.obj schema).Storable)
    (held : d.readBytes p = .ok (SchemaFile.text schema).toUTF8)
    (isResource : Resource.at? d p = some r) : Compiles options d p :=
  compiles_iff_fragment.2 ⟨_, Fragment.at?_of_text storable held isResource⟩

/-- In a run that finishes, a file contributes the fragment of its resource. -/
theorem fragment_of_resource (finished : (ofFiles options start d paths).result = .ok c)
    (mem : p ∈ paths) (isResource : Resource.at? d p = some r) :
    Fragment.at? options d p = some (r.fragment options) :=
  Fragment.at?_eq_some.2 ⟨⟨r, isResource, rfl⟩, ((ofFiles_eq_ok.1 finished).1 p mem).not_spoils⟩

/-- A run over files that all compile gives a document, and has compiled them all. -/
theorem ofFiles_of_compiles (each : ∀ p ∈ paths, Compiles options d p) :
    ∃ c, (ofFiles options start d paths).result = .ok c ∧ c.compiled = paths := by
  have fragments : ∀ p ∈ paths, ∃ f, Fragment.at? options d p = some f :=
    fun p mem => compiles_iff_fragment.1 (each p mem)
  have one : paths = [] ∨ ∃ p ∈ paths, (Fragment.at? options d p).isSome := by
    cases paths with
    | nil => exact Or.inl rfl
    | cons p rest =>
      exact Or.inr ⟨p, List.mem_cons_self,
        Option.isSome_iff_exists.2 (fragments p List.mem_cons_self)⟩
  have finished : (ofFiles options start d paths).result = .ok _ :=
    ofFiles_eq_ok.2 ⟨fun p mem => Or.inl (fragments p mem), one, rfl⟩
  refine ⟨_, finished, ?_⟩
  rw [(ofFiles_document finished).2]
  exact List.filter_eq_self.2 fun p mem => Option.isSome_iff_exists.2 (fragments p mem)

/-! ## Entries that stay -/

/-- What one file puts under a key stays, if no other file puts something there. -/
theorem get?_part {part : Fragment → Fields Json}
    (nodup : ∀ p f, Fragment.at? options d p = some f → (part f).names.Nodup) {f : Fragment}
    (mem : p ∈ paths) (found : Fragment.at? options d p = some f) {key : String} {v : Json}
    (held : (part f).get? key = some v)
    (apart : ∀ q ∈ paths, p ≠ q → ∀ g, Fragment.at? options d q = some g → key ∉ (part g).names)
    (first : Fields Json) :
    ((paths.filterMap fun p => (Fragment.at? options d p).map part).foldl
      Fields.merge first).get? key = some v := by
  refine Fields.get?_foldl_merge_of_only ?_
    (List.mem_filterMap.2 ⟨p, mem, Option.map_eq_some_iff.2 ⟨f, found, rfl⟩⟩) held ?_ first
  · intro new written
    obtain ⟨q, -, wrote⟩ := List.mem_filterMap.1 written
    obtain ⟨g, found', rfl⟩ := Option.map_eq_some_iff.1 wrote
    exact nodup q g found'
  · intro other written placed
    obtain ⟨q, mem', wrote⟩ := List.mem_filterMap.1 written
    obtain ⟨g, found', rfl⟩ := Option.map_eq_some_iff.1 wrote
    by_cases same : p = q
    · subst same
      rw [found] at found'
      rw [Option.some.inj found']
    · exact absurd placed (apart q mem' same g found')

/-- Two files are independent if their names differ and do not end like the route of an item. -/
theorem Independent.of_pair {q : Path} {s : Resource} (isResource : Resource.at? d p = some r)
    (isResource' : Resource.at? d q = some s)
    (lowerNames : r.config.lowerName ≠ s.config.lowerName)
    (interfaceNames : r.config.interfaceName ≠ s.config.interfaceName)
    (plain : ¬ r.EndsLikeItem) (plain' : ¬ s.EndsLikeItem) : Independent d [p, q] := by
  have named : ∀ a ∈ [p, q], ∀ x, Resource.at? d a = some x → (a = p ∧ x = r) ∨ (a = q ∧ x = s) := by
    intro a mem x found
    simp only [List.mem_cons, List.not_mem_nil, or_false] at mem
    rcases mem with rfl | rfl
    · exact Or.inl ⟨rfl, Option.some.inj (found.symm.trans isResource)⟩
    · exact Or.inr ⟨rfl, Option.some.inj (found.symm.trans isResource')⟩
  constructor
  case lowerNames =>
    intro a mem b mem' differ x y found found'
    rcases named a mem x found with ⟨rfl, rfl⟩ | ⟨rfl, rfl⟩ <;>
      rcases named b mem' y found' with ⟨rfl, rfl⟩ | ⟨rfl, rfl⟩
    · exact absurd rfl differ
    · exact lowerNames
    · exact lowerNames.symm
    · exact absurd rfl differ
  case interfaceNames =>
    intro a mem b mem' differ x y found found'
    rcases named a mem x found with ⟨rfl, rfl⟩ | ⟨rfl, rfl⟩ <;>
      rcases named b mem' y found' with ⟨rfl, rfl⟩ | ⟨rfl, rfl⟩
    · exact absurd rfl differ
    · exact interfaceNames
    · exact interfaceNames.symm
    · exact absurd rfl differ
  case plain =>
    intro a mem x found
    rcases named a mem x found with ⟨-, rfl⟩ | ⟨-, rfl⟩
    · exact plain
    · exact plain'

namespace Independent

/-- The document holds the path items of every resource. -/
theorem get?_paths (independent : Independent d paths)
    (finished : (ofFiles options start d paths).result = .ok c) (mem : p ∈ paths)
    (isResource : Resource.at? d p = some r) {route : String} {item : Json}
    (placed : (r.paths options.routePrefix).get? route = some item) :
    c.document.paths.get? route = some item := by
  have found := fragment_of_resource finished mem isResource
  rw [(ofFiles_eq_ok.1 finished).2.2, document_afterAll]
  refine get?_part (fun _ _ found => (Fragment.nodup_of_at? found).1) mem found placed ?_ _
  exact fun q mem' differ g found' =>
    independent.paths_apart mem mem' differ found found' (Fields.mem_names_of_get? placed)

/-- The document holds the component schemas of every resource. -/
theorem get?_schemas (independent : Independent d paths)
    (finished : (ofFiles options start d paths).result = .ok c) (mem : p ∈ paths)
    (isResource : Resource.at? d p = some r) {name : String} {schema : Json}
    (held : (r.schemas options.allowIdentifier).get? name = some schema) :
    c.document.schemas.get? name = some schema := by
  have found := fragment_of_resource finished mem isResource
  rw [(ofFiles_eq_ok.1 finished).2.2, document_afterAll]
  refine get?_part (fun _ _ found => (Fragment.nodup_of_at? found).2) mem found held ?_ _
  exact fun q mem' differ g found' =>
    independent.schemas_apart mem mem' differ found found' (Fields.mem_names_of_get? held)

end Independent

/-- A path item of a document that was made from the empty one is that of a resource. -/
theorem exists_of_get?_paths (finished : (ofFiles options options.start d paths).result = .ok c)
    {route : String} {item : Json} (placed : c.document.paths.get? route = some item) :
    ∃ p ∈ paths, ∃ r, Resource.at? d p = some r ∧
      (r.paths options.routePrefix).get? route = some item := by
  rw [(ofFiles_eq_ok.1 finished).2.2, document_afterAll] at placed
  have nodup : ∀ new ∈ paths.filterMap fun p => (Fragment.at? options d p).map Fragment.paths,
      new.names.Nodup := by
    intro new written
    obtain ⟨q, -, wrote⟩ := List.mem_filterMap.1 written
    obtain ⟨g, found, rfl⟩ := Option.map_eq_some_iff.1 wrote
    exact (Fragment.nodup_of_at? found).1
  rcases Fields.held_of_foldl_merge nodup placed with first | ⟨new, written, held⟩
  · cases first
  · obtain ⟨p, mem, wrote⟩ := List.mem_filterMap.1 written
    obtain ⟨f, found, rfl⟩ := Option.map_eq_some_iff.1 wrote
    obtain ⟨⟨r, isResource, rfl⟩, -⟩ := Fragment.at?_eq_some.1 found
    exact ⟨p, mem, r, isResource, held⟩

/-- The components of such a document are named as the resources name theirs. -/
theorem mem_names_schemas (finished : (ofFiles options options.start d paths).result = .ok c)
    {name : String} : name ∈ c.document.schemas.names ↔
      ∃ p ∈ paths, ∃ r, Resource.at? d p = some r ∧
        name ∈ (r.schemas options.allowIdentifier).names := by
  have empty : options.start.schemas.names = [] := rfl
  rw [(ofFiles_eq_ok.1 finished).2.2, document_afterAll, Fields.mem_names_foldl_merge, empty]
  simp only [List.not_mem_nil, false_or, List.mem_filterMap, Option.map_eq_some_iff]
  constructor
  · intro written
    obtain ⟨_, ⟨p, mem, f, found, rfl⟩, named⟩ := written
    obtain ⟨⟨r, isResource, rfl⟩, -⟩ := Fragment.at?_eq_some.1 found
    exact ⟨p, mem, r, isResource, named⟩
  · intro written
    obtain ⟨p, mem, r, isResource, named⟩ := written
    exact ⟨_, ⟨p, mem, _, fragment_of_resource finished mem isResource, rfl⟩, named⟩

/-! ## Orders and clients -/

def clientResource : Resource where
  config := ⟨"Client", "Client", ["getList"], none, none, []⟩
  properties := []
  required := []
  methods := [.getList]

/-- A name with another last character does not end like the route of an item. -/
theorem not_endsLikeItem (last : r.config.lowerName.toList.getLast? ≠ some '\x7d') :
    ¬ r.EndsLikeItem := by
  rintro ⟨stem, ends⟩
  rw [ends, String.toList_append] at last
  simp at last

theorem at?_clientPath {d : Disk} (loaded : SchemaFile.load d clientPath = .ok clientSchema) :
    Resource.at? d clientPath = some clientResource := by
  rw [Resource.at?, SchemaFile.normalized, loaded]
  rfl

/-- The two files compile, and share no name. -/
theorem compile_trade : (∀ p ∈ [orderPath, clientPath], Compiles {} tradeDisk p) ∧
    Independent tradeDisk [orderPath, clientPath] := by
  have order := at?_trade.1
  have client : Resource.at? tradeDisk clientPath = some clientResource :=
    at?_clientPath (SchemaFile.load_text rfl rfl)
  constructor
  · intro p mem
    simp only [List.mem_cons, List.not_mem_nil, or_false] at mem
    rcases mem with rfl | rfl
    · exact compiles_of_text (show (Json.obj orderSchema).Storable from rfl) rfl order
    · exact compiles_of_text (show (Json.obj clientSchema).Storable from rfl) rfl client
  · exact .of_pair order client (by decide) (by decide) (not_endsLikeItem (by decide))
      (not_endsLikeItem (by decide))

end Compilation
end ResourceApi
