import ResourceApi.Proofs.Api.Apart
import ResourceApi.Proofs.Compilation.LastWrite
import ResourceApi.Proofs.Disk.PathText

/-! # Files in another order

Files whose resources share no name can be compiled in any order. Each key of the
document, and each message that is kept, comes from one file at most, so it does not
matter which of the files comes last. Files with problems may stand between them. -/

namespace ResourceApi

/-- The resource of the file at a path, if the file can be compiled. -/
def Resource.at? (d : Disk) (p : Path) : Option Resource :=
  (SchemaFile.normalized d p).toOption.bind fun normal => (Resource.ofSchema normal).toOption

/-- A file contributes the fragment of its resource, unless the run spoils it. -/
theorem Fragment.at?_eq_some {options : Options} {d : Disk} {p : Path} {f : Fragment} :
    Fragment.at? options d p = some f ↔
      (∃ r, Resource.at? d p = some r ∧ r.fragment options = f) ∧
        ¬ SchemaFile.Spoils options.writeNormalized d p := by
  rw [← SchemaFile.fragment_eq_ok, SchemaFile.fragment, Results.bind_eq_ok]
  simp only [SchemaFile.normalizedFor_eq_ok, Results.mapError_eq_ok, Resource.fragment_eq,
    Results.map_eq_ok, Resource.at?, Option.bind_eq_some_iff, Results.toOption_eq_some]
  constructor
  · rintro ⟨normal, ⟨reached, kept⟩, r, read, rfl⟩
    exact ⟨⟨r, ⟨normal, reached, read⟩, rfl⟩, kept⟩
  · rintro ⟨⟨r, ⟨normal, reached, read⟩, rfl⟩, kept⟩
    exact ⟨normal, ⟨reached, kept⟩, r, read, rfl⟩

/-- A file that holds the text of a schema is not spoilt. -/
theorem Fragment.at?_of_text {options : Options} {d : Disk} {p : Path} {r : Resource}
    {schema : Fields Json} (storable : (Json.obj schema).Storable)
    (held : d.readBytes p = .ok (SchemaFile.text schema).toUTF8)
    (isResource : Resource.at? d p = some r) :
    Fragment.at? options d p = some (r.fragment options) :=
  at?_eq_some.2 ⟨⟨r, isResource, rfl⟩,
    SchemaFile.not_spoils_of_unhalved (SchemaFile.halved_of_text storable held) _⟩

namespace Compilation

/-- The files that compile have resources of which no two share a name. -/
structure Independent (d : Disk) (paths : List Path) : Prop where
  lowerNames : ∀ p ∈ paths, ∀ q ∈ paths, p ≠ q → ∀ r s, Resource.at? d p = some r →
    Resource.at? d q = some s → r.config.lowerName ≠ s.config.lowerName
  interfaceNames : ∀ p ∈ paths, ∀ q ∈ paths, p ≠ q → ∀ r s, Resource.at? d p = some r →
    Resource.at? d q = some s → r.config.interfaceName ≠ s.config.interfaceName
  plain : ∀ p ∈ paths, ∀ r, Resource.at? d p = some r → ¬ r.EndsLikeItem

variable {options : Options} {start : Document} {d : Disk} {c : Compilation}
  {p q : Path} {paths paths' : List Path}

namespace Independent

theorem paths_apart (independent : Independent d paths) (mem : p ∈ paths) (mem' : q ∈ paths)
    (differ : p ≠ q) {f g : Fragment} (found : Fragment.at? options d p = some f)
    (found' : Fragment.at? options d q = some g) {route : String} (placed : route ∈ f.paths.names) :
    route ∉ g.paths.names := by
  obtain ⟨⟨r, ofP, rfl⟩, -⟩ := Fragment.at?_eq_some.1 found
  obtain ⟨⟨s, ofQ, rfl⟩, -⟩ := Fragment.at?_eq_some.1 found'
  exact Resource.paths_apart (independent.lowerNames p mem q mem' differ r s ofP ofQ)
    (independent.plain p mem r ofP) (independent.plain q mem' s ofQ) placed

theorem schemas_apart (independent : Independent d paths) (mem : p ∈ paths) (mem' : q ∈ paths)
    (differ : p ≠ q) {f g : Fragment} (found : Fragment.at? options d p = some f)
    (found' : Fragment.at? options d q = some g) {name : String} (placed : name ∈ f.schemas.names) :
    name ∉ g.schemas.names := by
  obtain ⟨⟨r, ofP, rfl⟩, -⟩ := Fragment.at?_eq_some.1 found
  obtain ⟨⟨s, ofQ, rfl⟩, -⟩ := Fragment.at?_eq_some.1 found'
  exact Resource.schemas_apart (independent.interfaceNames p mem q mem' differ r s ofP ofQ) placed

end Independent

theorem noted_eq_some {note : Fields String} (h : noted options d p = some note) :
    note.names = [p.toString] := by
  unfold noted note? at h
  split at h
  · cases h
    rfl
  · cases h

/-- What the files put under one key is the same in another order, if no two put something there. -/
theorem get?_part_of_perm (perm : paths.Perm paths') {part : Fragment → Fields Json}
    (nodup : ∀ p f, Fragment.at? options d p = some f → (part f).names.Nodup)
    (apart : ∀ p ∈ paths, ∀ q ∈ paths, p ≠ q → ∀ f g, Fragment.at? options d p = some f →
      Fragment.at? options d q = some g → ∀ key ∈ (part f).names, key ∉ (part g).names)
    (first : Fields Json) (key : String) :
    ((paths'.filterMap fun p => (Fragment.at? options d p).map part).foldl
        Fields.merge first).get? key =
      ((paths.filterMap fun p => (Fragment.at? options d p).map part).foldl
        Fields.merge first).get? key := by
  refine (Fields.get?_foldl_merge_of_perm perm ?_ ?_ first key).symm
  · intro p _ new wrote
    obtain ⟨f, found, rfl⟩ := Option.map_eq_some_iff.1 wrote
    exact nodup p f found
  · intro p mem q mem' differ new new' wrote wrote'
    obtain ⟨f, found, rfl⟩ := Option.map_eq_some_iff.1 wrote
    obtain ⟨g, found', rfl⟩ := Option.map_eq_some_iff.1 wrote'
    exact apart p mem q mem' differ f g found found'

/-- **Independent files compile in any order.** If they compile in one order, they do in each other
order, with the same paths, the same schemas and the same messages under their keys; and the paths
that are compiled are the same in the new order. -/
theorem ofFiles_perm (proper : ∀ p ∈ paths, p.Proper) (independent : Independent d paths)
    (perm : paths.Perm paths') (finished : (ofFiles options start d paths).result = .ok c) :
    ∃ c', (ofFiles options start d paths').result = .ok c' ∧
      (∀ route, c'.document.paths.get? route = c.document.paths.get? route) ∧
      (∀ name, c'.document.schemas.get? name = c.document.schemas.get? name) ∧
      (∀ path, c'.failed.get? path = c.failed.get? path) ∧
      c'.compiled = paths'.filter (· ∈ c.compiled) := by
  obtain ⟨taken, one, rfl⟩ := ofFiles_eq_ok.1 finished
  refine ⟨afterAll options d { document := start } paths', ofFiles_eq_ok.2 ⟨?_, ?_, rfl⟩, ?_⟩
  · exact fun p mem => taken p (perm.mem_iff.2 mem)
  · exact one.imp (fun none => (none ▸ perm).nil_eq.symm)
      fun ⟨p, mem, compiles⟩ => ⟨p, perm.mem_iff.1 mem, compiles⟩
  rw [document_afterAll, document_afterAll]
  refine ⟨get?_part_of_perm perm (fun _ _ found => (Fragment.nodup_of_at? found).1) ?_ _,
    get?_part_of_perm perm (fun _ _ found => (Fragment.nodup_of_at? found).2) ?_ _,
    fun path => ?failed, ?compiled⟩
  · exact fun p mem q mem' differ _ _ found found' _ =>
      independent.paths_apart mem mem' differ found found'
  · exact fun p mem q mem' differ _ _ found found' _ =>
      independent.schemas_apart mem mem' differ found found'
  case failed =>
    refine (Fields.get?_foldl_merge_of_perm perm ?_ ?_ _ path).symm
    · intro p _ note wrote
      rw [noted_eq_some wrote]
      exact List.nodup_singleton _
    · intro p mem q mem' differ note note' wrote wrote' name placed placed'
      rw [noted_eq_some wrote, List.mem_singleton] at placed
      rw [noted_eq_some wrote', List.mem_singleton] at placed'
      exact differ ((proper p mem).eq_of_toString (proper q mem') (placed.symm.trans placed'))
  case compiled =>
    rw [afterAll, afterAll, List.nil_append, List.nil_append]
    refine List.filter_congr fun p mem => ?_
    simp [perm.mem_iff.2 mem]

/-- A resource that can only be listed. -/
def clientSchema : Fields Json := [
  ("x-documentConfig", .obj [("documentName", .str "Client"), ("interfaceName", .str "Client"),
    ("methods", .arr [.str "getList"])]),
  ("type", .str "object"),
  ("properties", .obj [])]

/-- A disk that holds two schema files. -/
def tradeDisk : Disk where
  entries := [(["order.json"], .file (SchemaFile.text orderSchema).toUTF8),
    (["client.json"], .file (SchemaFile.text clientSchema).toUTF8)]

def clientPath : Path := ⟨.here, ["client.json"]⟩

/-- The two files have the resources of orders and of clients. -/
theorem at?_trade : Resource.at? tradeDisk orderPath = some orderResource ∧
    Resource.at? tradeDisk missingPath = none ∧
    ∃ r, Resource.at? tradeDisk clientPath = some r ∧
      r.config.lowerName = "client" ∧ r.config.interfaceName = "Client" := by
  have order : SchemaFile.load tradeDisk orderPath = .ok orderSchema :=
    SchemaFile.load_text rfl rfl
  have client : SchemaFile.load tradeDisk clientPath = .ok clientSchema :=
    SchemaFile.load_text rfl rfl
  refine ⟨?_, rfl, ?_⟩
  · rw [Resource.at?, SchemaFile.normalized, order]
    rfl
  · rw [Resource.at?, SchemaFile.normalized, client]
    exact ⟨_, rfl, rfl, rfl⟩

theorem independent_trade : Independent tradeDisk [orderPath, missingPath, clientPath] := by
  obtain ⟨order, missing, client, isClient, lower, interface⟩ := at?_trade
  have named : ∀ p ∈ [orderPath, missingPath, clientPath], ∀ r, Resource.at? tradeDisk p = some r →
      (p = orderPath ∧ r.config.lowerName = "order" ∧ r.config.interfaceName = "Order") ∨
        (p = clientPath ∧ r.config.lowerName = "client" ∧ r.config.interfaceName = "Client") := by
    intro p mem r found
    simp only [List.mem_cons, List.not_mem_nil, or_false] at mem
    rcases mem with rfl | rfl | rfl
    · cases order.symm.trans found
      exact .inl ⟨rfl, rfl, rfl⟩
    · cases missing.symm.trans found
    · cases isClient.symm.trans found
      exact .inr ⟨rfl, lower, interface⟩
  refine ⟨?_, ?_, ?_⟩
  · intro p mem q mem' differ r s ofP ofQ
    rcases named p mem r ofP with ⟨rfl, lower, -⟩ | ⟨rfl, lower, -⟩ <;>
      rcases named q mem' s ofQ with ⟨rfl, lower', -⟩ | ⟨rfl, lower', -⟩ <;>
        simp_all
  · intro p mem q mem' differ r s ofP ofQ
    rcases named p mem r ofP with ⟨rfl, -, interface⟩ | ⟨rfl, -, interface⟩ <;>
      rcases named q mem' s ofQ with ⟨rfl, -, interface'⟩ | ⟨rfl, -, interface'⟩ <;>
        simp_all
  · rintro p mem r ofP ⟨stem, ends⟩
    have last := congrArg (fun name => name.toList.getLast?) ends
    rcases named p mem r ofP with ⟨-, lower, -⟩ | ⟨-, lower, -⟩ <;> simp [lower] at last

/-- Orders and clients come in either order, with a path between them that leads nowhere. -/
theorem ofFiles_perm_trade :
    ∃ c c', (ofFiles {} {} tradeDisk [orderPath, missingPath, clientPath]).result = .ok c ∧
      (ofFiles {} {} tradeDisk [clientPath, missingPath, orderPath]).result = .ok c' ∧
      (∀ route, c'.document.paths.get? route = c.document.paths.get? route) ∧
      (∀ name, c'.document.schemas.get? name = c.document.schemas.get? name) ∧
      (∀ path, c'.failed.get? path = c.failed.get? path) ∧
      c'.compiled = [clientPath, missingPath, orderPath].filter (· ∈ c.compiled) := by
  obtain ⟨order, -, client, isClient, -⟩ := at?_trade
  have orderFragment : Fragment.at? {} tradeDisk orderPath = _ :=
    Fragment.at?_of_text (show (Json.obj orderSchema).Storable from rfl) rfl order
  have clientFragment : Fragment.at? {} tradeDisk clientPath = _ :=
    Fragment.at?_of_text (show (Json.obj clientSchema).Storable from rfl) rfl isClient
  obtain ⟨note, missing⟩ : ∃ note, noted {} tradeDisk missingPath = some note := ⟨_, rfl⟩
  have taken : ∀ p ∈ [orderPath, missingPath, clientPath], Taken {} tradeDisk p := by
    intro p mem
    simp only [List.mem_cons, List.not_mem_nil, or_false] at mem
    rcases mem with rfl | rfl | rfl
    · exact .inl ⟨_, orderFragment⟩
    · exact .inr ⟨_, missing⟩
    · exact .inl ⟨_, clientFragment⟩
  have finished : (ofFiles {} {} tradeDisk [orderPath, missingPath, clientPath]).result = .ok _ :=
    ofFiles_eq_ok.2 ⟨taken, .inr ⟨orderPath, List.mem_cons_self, by rw [orderFragment]; rfl⟩, rfl⟩
  obtain ⟨c', finished', same⟩ := ofFiles_perm (by decide) independent_trade
    (show [orderPath, missingPath, clientPath].Perm [clientPath, missingPath, orderPath] by decide)
    finished
  exact ⟨_, c', finished, finished', same⟩

end Compilation
end ResourceApi
