import ResourceApi.Proofs.Compilation.OwnEntries

/-! # Identifiers of operations

The identifier of an operation is the name of its method and the interface name of its
resource, with nothing between them. The name of one method starts another: reading an
item of a resource that is named like a list of clients has the identifier of listing the
clients. That is the only way in which two operations of a document come to the same
identifier, if it was made from files whose resources share no name. -/

namespace ResourceApi

namespace Method

/-- Of the names of methods only one starts another. -/
theorem eq_of_prefix {m m' : Method} (starts : m.name.toList <+: m'.name.toList) :
    m = m' ∨ m = .get ∧ m' = .getList := by
  revert starts
  cases m <;> cases m' <;> decide

theorem name_getList_append (name : String) :
    getList.name ++ name = get.name ++ ("List" ++ name) := by
  rw [← String.append_assoc]
  rfl

/-- Method names with a text behind them are the same only if the methods and the texts are, or one
is `get` and goes on like `getList`. -/
theorem eq_of_name_append {m m' : Method} {name name' : String}
    (same : m.name ++ name = m'.name ++ name') :
    m = m' ∧ name = name' ∨ m = .get ∧ m' = .getList ∧ name = "List" ++ name' ∨
      m = .getList ∧ m' = .get ∧ name' = "List" ++ name := by
  have chars := congrArg String.toList same
  rw [String.toList_append, String.toList_append] at chars
  have either := List.prefix_or_prefix_of_prefix (List.prefix_append ..)
    (chars ▸ List.prefix_append m'.name.toList _)
  rcases either.imp eq_of_prefix eq_of_prefix with (rfl | ⟨rfl, rfl⟩) | (rfl | ⟨rfl, rfl⟩)
  · exact Or.inl ⟨rfl, (String.append_right_inj _).1 same⟩
  · rw [name_getList_append, String.append_right_inj] at same
    exact Or.inr (Or.inl ⟨rfl, rfl, same⟩)
  · exact Or.inl ⟨rfl, (String.append_right_inj _).1 same⟩
  · rw [name_getList_append, String.append_right_inj] at same
    exact Or.inr (Or.inr ⟨rfl, rfl, same.symm⟩)

end Method

namespace Document

/-- What stands on a route under a verb. -/
def operation? (d : Document) (route verb : String) : Option Json :=
  (d.paths.get? route).bind (·.field? verb)

/-- The identifier of the operation on a route under a verb. -/
def identifier? (d : Document) (route verb : String) : Option Json :=
  (d.operation? route verb).bind (·.field? "operationId")

/-- Different operations have different identifiers. -/
def IdentifiersDistinct (d : Document) : Prop :=
  ∀ route verb route' verb' id, d.identifier? route verb = some id →
    d.identifier? route' verb' = some id → route = route' ∧ verb = verb'

end Document

namespace Resource

variable {r s : Resource} {m : Method} {value : Json}

theorem IsOperation.identifier (isOperation : r.IsOperation m value) :
    value.field? "operationId" = some (.str (m.name ++ r.config.interfaceName)) := by
  rw [isOperation "operationId" (by decide)]
  rfl

/-- The names in a path item have no identifier. -/
theorem identifier_of_mem_nameFields {config : DocumentConfig} {verb : String}
    (named : (verb, value) ∈ nameFields config) : value.field? "operationId" = none := by
  simp only [nameFields, List.mem_cons, List.not_mem_nil, or_false, Prod.mk.injEq] at named
  rcases named with ⟨-, rfl⟩ | ⟨-, rfl⟩ <;> rfl

/-- Reading an item of the resource is named like listing the other one. -/
def ReadsLikeListing (r s : Resource) : Prop :=
  .get ∈ r.methods ∧ .getList ∈ s.methods ∧ r.config.interfaceName = "List" ++ s.config.interfaceName

end Resource

namespace Compilation

variable {options : Options} {d : Disk} {c : Compilation} {paths : List Path} {route verb : String}
  {id : Json}

/-- **The identifiers of a document** are those of the methods of its resources, each at the route
and the verb of the method. -/
theorem identifier?_eq_some (independent : Independent d paths)
    (finished : (ofFiles options options.start d paths).result = .ok c) :
    c.document.identifier? route verb = some id ↔
      ∃ p ∈ paths, ∃ r, Resource.at? d p = some r ∧ ∃ m ∈ r.methods,
        r.route options.routePrefix m = route ∧ m.verb = verb ∧
          id = .str (m.name ++ r.config.interfaceName) := by
  constructor
  · intro identified
    obtain ⟨value, there, identified⟩ := Option.bind_eq_some_iff.1 identified
    obtain ⟨item, placed, held⟩ := Option.bind_eq_some_iff.1 there
    obtain ⟨p, mem, r, isResource, placed⟩ := exists_of_get?_paths finished placed
    refine ⟨p, mem, r, isResource, ?_⟩
    rcases Resource.paths_field placed held with named | ⟨m, listed, onRoute, ofVerb, isOperation⟩
    · rw [Resource.identifier_of_mem_nameFields named] at identified
      cases identified
    · rw [isOperation.identifier] at identified
      exact ⟨m, listed, onRoute, ofVerb, (Option.some.inj identified).symm⟩
  · rintro ⟨p, mem, r, isResource, m, listed, rfl, rfl, rfl⟩
    obtain ⟨item, value, placed, held, isOperation⟩ := r.get?_paths listed options.routePrefix
    rw [Document.identifier?, Document.operation?,
      independent.get?_paths finished mem isResource placed, Option.bind_some, held,
      Option.bind_some]
    exact isOperation.identifier

/-- **Operations have different identifiers** exactly if no resource whose items can be read has the
interface name of one that can be listed with `List` before it. -/
theorem ofFiles_identifiersDistinct (each : ∀ p ∈ paths, Compiles options d p)
    (independent : Independent d paths) :
    ∃ c, (ofFiles options options.start d paths).result = .ok c ∧ c.compiled = paths ∧
      (c.document.IdentifiersDistinct ↔
        ∀ p ∈ paths, ∀ q ∈ paths, ∀ r s, Resource.at? d p = some r → Resource.at? d q = some s →
          ¬ r.ReadsLikeListing s) := by
  obtain ⟨c, finished, compiled⟩ :
      ∃ c, (ofFiles options options.start d paths).result = .ok c ∧ c.compiled = paths :=
    ofFiles_of_compiles each
  refine ⟨c, finished, compiled, ?_⟩
  constructor
  · intro distinct p mem q mem' r s isResource isResource' ⟨reads, lists, named⟩
    have reading := (identifier?_eq_some independent finished).2
      ⟨p, mem, r, isResource, .get, reads, rfl, rfl, rfl⟩
    have listing := (identifier?_eq_some independent finished).2
      ⟨q, mem', s, isResource', .getList, lists, rfl, rfl, rfl⟩
    rw [Method.name_getList_append, ← named] at listing
    obtain ⟨sameRoute, -⟩ := distinct _ _ _ _ _ listing reading
    exact independent.plain q mem' s isResource' ⟨_, Resource.collectionRoute_eq_itemRoute.1 sameRoute⟩
  · intro apart route verb route' verb' id identified identified'
    obtain ⟨p, mem, r, isResource, m, listed, rfl, rfl, rfl⟩ :=
      (identifier?_eq_some independent finished).1 identified
    obtain ⟨q, mem', s, isResource', m', listed', rfl, rfl, same⟩ :=
      (identifier?_eq_some independent finished).1 identified'
    rcases Method.eq_of_name_append (Json.str.inj same) with
      ⟨rfl, named⟩ | ⟨rfl, rfl, named⟩ | ⟨rfl, rfl, named⟩
    · by_cases samePath : p = q
      · subst samePath
        rw [isResource] at isResource'
        obtain rfl := Option.some.inj isResource'
        exact ⟨rfl, rfl⟩
      · exact absurd named
          (independent.interfaceNames p mem q mem' samePath r s isResource isResource')
    · exact absurd ⟨listed, listed', named⟩ (apart p mem q mem' r s isResource isResource')
    · exact absurd ⟨listed', listed, named⟩ (apart q mem' p mem s r isResource' isResource)

/-- Orders and clients have no identifier in common. -/
theorem ofFiles_identifiersDistinct_trade :
    ∃ c, (ofFiles {} (Options.start {}) tradeDisk [orderPath, clientPath]).result = .ok c ∧
      c.compiled = [orderPath, clientPath] ∧ c.document.IdentifiersDistinct := by
  obtain ⟨each, independent⟩ := compile_trade
  obtain ⟨c, finished, compiled, distinct⟩ := ofFiles_identifiersDistinct each independent
  have order := at?_trade.1
  have client : Resource.at? tradeDisk clientPath = some clientResource :=
    at?_clientPath (SchemaFile.load_text rfl rfl)
  refine ⟨c, finished, compiled, distinct.2 fun p mem q mem' r s isResource isResource' => ?_⟩
  rintro ⟨-, -, named⟩
  simp only [List.mem_cons, List.not_mem_nil, or_false] at mem mem'
  rcases mem with rfl | rfl <;> rcases mem' with rfl | rfl <;>
    simp only [order, client, Option.some.injEq] at isResource isResource' <;>
    subst isResource isResource' <;> exact absurd named (by decide)

/-! ## Two operations with one identifier -/

/-- A resource that can only be read, and that is named like the list of clients. -/
def clientListSchema : Fields Json := [
  ("x-documentConfig", .obj [("documentName", .str "Listing"), ("interfaceName", .str "ListClient"),
    ("methods", .arr [.str "get"])]),
  ("type", .str "object"),
  ("properties", .obj [])]

def clientListResource : Resource where
  config := ⟨"Listing", "ListClient", ["get"], none, none, []⟩
  properties := []
  required := []
  methods := [.get]

/-- A disk that holds the two schema files. -/
def clientsDisk : Disk where
  entries := [(["client.json"], .file (SchemaFile.text clientSchema).toUTF8),
    (["listing.json"], .file (SchemaFile.text clientListSchema).toUTF8)]

def listingPath : Path := ⟨.here, ["listing.json"]⟩

/-- The two files compile and share no name, and still listing the clients and reading an item of
the other resource have the same identifier. -/
theorem ofFiles_identifiers_clash :
    (∀ p ∈ [clientPath, listingPath], Compiles {} clientsDisk p) ∧
      Independent clientsDisk [clientPath, listingPath] ∧
      ∃ c, (ofFiles {} (Options.start {}) clientsDisk [clientPath, listingPath]).result = .ok c ∧
        c.document.identifier? "/client" "get" = some (.str "getListClient") ∧
        c.document.identifier? "/listing/\x7bid\x7d" "get" = some (.str "getListClient") ∧
        ¬ c.document.IdentifiersDistinct := by
  have client : Resource.at? clientsDisk clientPath = some clientResource :=
    at?_clientPath (SchemaFile.load_text rfl rfl)
  have loaded : SchemaFile.load clientsDisk listingPath = .ok clientListSchema :=
    SchemaFile.load_text rfl rfl
  have listing : Resource.at? clientsDisk listingPath = some clientListResource := by
    rw [Resource.at?, SchemaFile.normalized, loaded]
    rfl
  have each : ∀ p ∈ [clientPath, listingPath], Compiles {} clientsDisk p := by
    intro p mem
    simp only [List.mem_cons, List.not_mem_nil, or_false] at mem
    rcases mem with rfl | rfl
    · exact compiles_of_text (show (Json.obj clientSchema).Storable from rfl) rfl client
    · exact compiles_of_text (show (Json.obj clientListSchema).Storable from rfl) rfl listing
  have independent : Independent clientsDisk [clientPath, listingPath] :=
    .of_pair client listing (by decide) (by decide) (not_endsLikeItem (by decide))
      (not_endsLikeItem (by decide))
  obtain ⟨c, finished, -⟩ :
      ∃ c, (ofFiles {} (Options.start {}) clientsDisk [clientPath, listingPath]).result = .ok c ∧
        c.compiled = [clientPath, listingPath] :=
    ofFiles_of_compiles each
  have lists : c.document.identifier? "/client" "get" = some (.str "getListClient") :=
    (identifier?_eq_some independent finished).2
      ⟨clientPath, by decide, clientResource, client, .getList, by decide, rfl, rfl, rfl⟩
  have reads : c.document.identifier? "/listing/\x7bid\x7d" "get" =
      some (.str "getListClient") :=
    (identifier?_eq_some independent finished).2
      ⟨listingPath, by decide, clientListResource, listing, .get, by decide, rfl, rfl, rfl⟩
  refine ⟨each, independent, c, finished, lists, reads, fun distinct => ?_⟩
  exact absurd (distinct _ _ _ _ _ lists reads).1 (by decide)

end Compilation
end ResourceApi
