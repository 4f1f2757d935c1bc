import ResourceApi.Compilation.Directory
import ResourceApi.Proofs.Disk.Growth

/-! # Scanning a directory

The schema files of a directory are its entries with the ending of a schema file that
are no directories, in the order of their names. They stay the same on a disk that has
grown, as long as what was added to the directory can be looked up and is no schema
file itself. -/

namespace ResourceApi

namespace Disk

variable {d d' : Disk} {l k : Location} {dir : Path} {name : String}

/-! ## Names in a directory -/

/-- The names that are listed at a place, in the order of the entries. -/
def listed (d : Disk) (l : Location) : List String :=
  d.places.filterMap fun k => if k ≠ [] ∧ k.dropLast = l then k.getLast? else none

theorem mem_listed : name ∈ d.listed l ↔ l ++ [name] ∈ d.places := by
  rw [listed, List.mem_filterMap]
  constructor
  · rintro ⟨k, mem, found⟩
    split at found
    · next inside =>
      obtain ⟨named, rfl⟩ := inside
      obtain ⟨_, rfl⟩ := List.getLast?_eq_some_iff.1 found
      rwa [List.dropLast_concat]
    · cases found
  · intro mem
    refine ⟨_, mem, ?_⟩
    rw [if_pos ⟨by simp, List.dropLast_concat⟩, List.getLast?_append]
    rfl

theorem find?_of_listed (mem : name ∈ d.listed l) : ∃ e, d.find? (l ++ [name]) = some e := by
  have there := mem_listed.1 mem
  cases held : d.find? (l ++ [name]) with
  | some e => exact ⟨e, rfl⟩
  | none => exact absurd there ((find?_eq_none (by simp)).1 held)

theorem list_eq_ok {names : List String} :
    d.list dir = .ok names ↔ ∃ l, d.locate dir = .ok l ∧ d.find? l = some .directory ∧
      names = (d.listed l).mergeSort (· ≤ ·) := by
  rw [list, Results.bind_eq_ok]
  refine exists_congr fun l => and_congr_right fun _ => ?_
  rw [listed, places, List.filterMap_map]
  cases d.find? l with
  | none => simp
  | some e =>
    cases e with
    | file bytes => simp
    | directory =>
      constructor
      · intro listed
        exact ⟨rfl, (Except.ok.inj listed).symm⟩
      · rintro ⟨-, rfl⟩
        rfl

/-- A disk that has grown lists the new names behind the old ones. -/
theorem Grown.listed {output : Location} (grown : Grown output d d') (l : Location) :
    ∃ new, d'.listed l = d.listed l ++ new ∧
      ∀ name ∈ new, d.find? (l ++ [name]) = none ∧ name ∈ d'.listed l := by
  obtain ⟨added, places, fresh⟩ := grown.places
  refine ⟨added.filterMap fun k => if k ≠ [] ∧ k.dropLast = l then k.getLast? else none, ?_, ?_⟩
  · rw [Disk.listed, places, List.filterMap_append, Disk.listed]
  · intro name mem
    obtain ⟨k, among, found⟩ := List.mem_filterMap.1 mem
    split at found
    · next inside =>
      obtain ⟨named, rfl⟩ := inside
      obtain ⟨_, rfl⟩ := List.getLast?_eq_some_iff.1 found
      rw [List.dropLast_concat, mem_listed, places]
      exact ⟨fresh _ among, List.mem_append_right _ among⟩
    · cases found

/-! ## Paths of names in a directory -/

theorem follow_append (names more : List String) :
    d.follow k (names ++ more) = (d.follow k names >>= fun l => d.follow l more) := by
  induction names generalizing k with
  | nil => rfl
  | cons name rest ih =>
    rw [List.cons_append, follow, follow]
    cases d.find? k with
    | none => rfl
    | some e =>
      cases e with
      | file bytes => rfl
      | directory =>
        dsimp only
        split
        · exact ih
        · split
          · rfl
          · exact ih

/-- Where the path of a name leads, seen from a directory that is there. -/
theorem locate_child (leads : d.locate dir = .ok l) (held : d.find? l = some .directory)
    (name : String) :
    d.locate (dir.child name) = (checkText (dir.child name).toString >>= fun _ =>
      if name = ".." then .ok l.dropLast
      else if longestName < name.utf8ByteSize then .error .nameTooLong
      else .ok (l ++ [name])) := by
  obtain ⟨⟨⟩, -, followed⟩ := Results.bind_eq_ok.1 leads
  rw [locate]
  congr 1
  funext _
  have start : (dir.child name).isAbsolute = dir.isAbsolute := rfl
  rw [start, Path.child, follow_append, followed, Results.ok_bind, follow, held]
  rfl

/-- A name that does not lead up leads to its entry. -/
theorem eq_of_locate_child (leads : d.locate dir = .ok l) (held : d.find? l = some .directory)
    (down : name ≠ "..") (place : d.locate (dir.child name) = .ok k) : k = l ++ [name] := by
  rw [locate_child leads held, if_neg down] at place
  obtain ⟨⟨⟩, -, place⟩ := Results.bind_eq_ok.1 place
  split at place
  · cases place
  · exact (Except.ok.inj place).symm

/-- On a disk that has grown, the paths of names in a directory lead where they led. -/
theorem Grown.locate_child {output : Location} (grown : Grown output d d')
    (leads : d.locate dir = .ok l) (held : d.find? l = some .directory) (name : String) :
    d'.locate (dir.child name) = d.locate (dir.child name) := by
  rw [Disk.locate_child leads held, Disk.locate_child (grown.locate leads) (grown.directory held)]

theorem isDirectory_of_locate {p : Path} (leads : d.locate p = .ok l) :
    d.isDirectory p = .ok (decide (d.find? l = some .directory)) := by
  rw [isDirectory, lookup, leads, Results.ok_bind]
  cases d.find? l with
  | none => rfl
  | some e => cases e <;> simp

theorem isDirectory_of_error {p : Path} {reason : DiskError} (lost : d.locate p = .error reason) :
    d.isDirectory p =
      if reason = .nameTooLong then .error .nameTooLong else .ok false := by
  rw [isDirectory, lookup, lost, Results.error_bind]
  cases reason <;> rfl

variable {output : Location}

/-- A name that could be told to be a directory or not still can. -/
theorem Grown.told (grown : Grown output d d') (leads : d.locate dir = .ok l)
    (held : d.find? l = some .directory)
    (told : ∃ b, d.isDirectory (dir.child name) = .ok b) :
    ∃ b, d'.isDirectory (dir.child name) = .ok b := by
  have same := grown.locate_child leads held name
  cases place : d.locate (dir.child name) with
  | ok k => exact ⟨_, isDirectory_of_locate (same.trans place)⟩
  | error reason =>
    rw [isDirectory_of_error place] at told
    rwa [isDirectory_of_error (same.trans place)]

/-- A listed name is as much of a directory as it was. -/
theorem Grown.isDirectory_child (grown : Grown output d d') (leads : d.locate dir = .ok l)
    (held : d.find? l = some .directory) (mem : name ∈ d.listed l) (down : name ≠ "..") :
    d'.isDirectory (dir.child name) = d.isDirectory (dir.child name) := by
  have same := grown.locate_child leads held name
  cases place : d.locate (dir.child name) with
  | error reason => rw [isDirectory_of_error place, isDirectory_of_error (same.trans place)]
  | ok k =>
    rw [isDirectory_of_locate place, isDirectory_of_locate (same.trans place)]
    have inside := eq_of_locate_child leads held down place
    obtain ⟨e, found⟩ := find?_of_listed mem
    obtain ⟨e', found', kind⟩ := grown.kept found
    rw [inside, found, found']
    cases e <;> cases e' <;> first | rfl | cases kind

end Disk

namespace Compilation

variable {d d' : Disk} {l output : Location} {dir p : Path} {name : String} {paths : List Path}

/-! ## Schema files -/

/-- Whether a name in a directory is that of a schema file. -/
def isSchemaName (d : Disk) (dir : Path) (name : String) : Bool :=
  decide (Path.suffix name = schemaSuffix) &&
    match d.isDirectory (dir.child name) with
    | .ok false => true
    | _ => false

theorem isSchemaName_eq_true :
    isSchemaName d dir name = true ↔
      Path.suffix name = schemaSuffix ∧ d.isDirectory (dir.child name) = .ok false := by
  rw [isSchemaName, Bool.and_eq_true, decide_eq_true_eq]
  refine and_congr_right fun _ => ?_
  cases d.isDirectory (dir.child name) with
  | error reason => simp
  | ok b => cases b <;> simp

/-- The schema files among some names, if all of them can be told to be directories or not. -/
theorem schemaFiles_eq_ok {names : List String} :
    (schemaFiles d dir names).result = .ok paths ↔
      (∀ name ∈ names, ∃ b, d.isDirectory (dir.child name) = .ok b) ∧
        paths = (names.filter (isSchemaName d dir)).map dir.child := by
  induction names generalizing paths with
  | nil => simp [schemaFiles, eq_comm]
  | cons name rest ih =>
    rw [schemaFiles, List.forall_mem_cons]
    cases told : d.isDirectory (dir.child name) with
    | error reason => simp
    | ok b =>
      cases b with
      | true =>
        have passed : isSchemaName d dir name = false := by simp [isSchemaName, told]
        rw [List.filter_cons_of_neg (by simp [passed])]
        simp [ih]
      | false =>
        dsimp only
        split
        · next ending =>
          have taken : isSchemaName d dir name = true := isSchemaName_eq_true.2 ⟨ending, told⟩
          rw [List.filter_cons_of_pos taken, List.map_cons, Results.map_eq_ok]
          constructor
          · rintro ⟨others, found, rfl⟩
            obtain ⟨all, rfl⟩ := ih.1 found
            exact ⟨⟨⟨_, rfl⟩, all⟩, rfl⟩
          · rintro ⟨⟨-, all⟩, rfl⟩
            exact ⟨_, ih.2 ⟨all, rfl⟩, rfl⟩
        · next ending =>
          have passed : isSchemaName d dir name = false := by simp [isSchemaName, ending]
          rw [List.filter_cons_of_neg (by simp [passed])]
          simp [ih]

theorem schemaFiles_disk (d : Disk) (dir : Path) (names : List String) :
    (schemaFiles d dir names).disk = d := by
  induction names with
  | nil => rfl
  | cons name rest ih =>
    rw [schemaFiles]
    split
    · rfl
    · exact ih
    · dsimp only
      split
      · exact ih
      · exact ih

theorem find_disk (d : Disk) (dir : Path) : (find d dir).disk = d := by
  rw [find]
  split
  · rfl
  · exact schemaFiles_disk d dir _

/-- Names that are sorted out are sorted as they would be by themselves. -/
theorem filter_mergeSort (chosen : String → Bool) (names : List String) :
    (names.mergeSort (· ≤ ·)).filter chosen = (names.filter chosen).mergeSort (· ≤ ·) := by
  have sorted (some : List String) : (some.mergeSort (· ≤ ·)).Pairwise (· ≤ ·) := by
    have pairwise := @List.pairwise_mergeSort String (fun a b => decide (a ≤ b))
      (fun a b c ab bc => by simpa using String.le_trans (by simpa using ab) (by simpa using bc))
      (fun a b => by simpa using String.le_total a b) some
    simpa using pairwise
  refine List.Perm.eq_of_pairwise (fun a b _ _ => String.le_antisymm) ((sorted names).filter chosen)
    (sorted _) ?_
  exact ((List.mergeSort_perm names _).filter chosen).trans (List.mergeSort_perm _ _).symm

/-- **Scanning a directory** gives its schema files in the order of their names, if every name
in it can be told to be a directory or not. -/
theorem find_eq_ok :
    (find d dir).result = .ok paths ↔ ∃ l, d.locate dir = .ok l ∧ d.find? l = some .directory ∧
      (∀ name ∈ d.listed l, ∃ b, d.isDirectory (dir.child name) = .ok b) ∧
      paths = (((d.listed l).filter (isSchemaName d dir)).mergeSort (· ≤ ·)).map dir.child := by
  rw [find]
  cases names : d.list dir with
  | error reason =>
    constructor
    · intro found
      cases found
    · rintro ⟨l, leads, held, -⟩
      rw [Disk.list_eq_ok.2 ⟨l, leads, held, rfl⟩] at names
      cases names
  | ok listed =>
    obtain ⟨l, leads, held, rfl⟩ := Disk.list_eq_ok.1 names
    dsimp only
    rw [schemaFiles_eq_ok, filter_mergeSort]
    simp only [List.mem_mergeSort]
    constructor
    · rintro ⟨all, rfl⟩
      exact ⟨l, leads, held, all, rfl⟩
    · rintro ⟨k, leads', -, all, rfl⟩
      obtain rfl := Except.ok.inj (leads.symm.trans leads')
      exact ⟨all, rfl⟩

/-! ## Scanning again -/

/-- What has been added to a directory can be looked up by its path. -/
def AddedInReach (d d' : Disk) (dir : Path) : Prop :=
  ∀ l name, d.locate dir = .ok l → d.find? (l ++ [name]) = none →
    name ∈ d'.listed l → ∃ e, d'.lookup (dir.child name) = .ok e

theorem down_of_schema (ending : Path.suffix name = schemaSuffix) : name ≠ ".." := by
  rintro rfl
  exact absurd ending (by decide)

/-- The names that were there are schema files as before. -/
theorem filter_isSchemaName_of_grown (grown : Disk.Grown output d d') (leads : d.locate dir = .ok l)
    (held : d.find? l = some .directory) :
    (d.listed l).filter (isSchemaName d' dir) = (d.listed l).filter (isSchemaName d dir) := by
  refine List.filter_congr fun name mem => ?_
  by_cases ending : Path.suffix name = schemaSuffix
  · rw [isSchemaName, isSchemaName, grown.isDirectory_child leads held mem (down_of_schema ending)]
  · simp [isSchemaName, ending]

/-- A disk that has grown has the same schema files, if what was added is in reach and no schema
file. -/
theorem find_of_grown (grown : Disk.Grown output d d') (reach : AddedInReach d d' dir)
    (other : ∀ l name, d.locate dir = .ok l → output = l ++ [name] →
      Path.suffix name ≠ schemaSuffix)
    (found : (find d dir).result = .ok paths) : (find d' dir).result = .ok paths := by
  obtain ⟨l, leads, held, told, rfl⟩ := find_eq_ok.1 found
  obtain ⟨new, listed, fresh⟩ := grown.listed l
  refine find_eq_ok.2 ⟨l, grown.locate leads, grown.directory held, ?_, ?_⟩
  · intro name mem
    rw [listed] at mem
    rcases List.mem_append.1 mem with old | added
    · exact grown.told leads held (told name old)
    · obtain ⟨absent, mem'⟩ := fresh name added
      obtain ⟨e, reached⟩ := reach l name leads absent mem'
      exact ⟨_, Disk.isDirectory_of_lookup reached⟩
  · -- the old names are schema files as before, and of the new ones none is
    have old := filter_isSchemaName_of_grown grown leads held
    have none : new.filter (isSchemaName d' dir) = [] := by
      refine List.filter_eq_nil_iff.2 fun name added schema => ?_
      obtain ⟨absent, mem⟩ := fresh name added
      obtain ⟨e, reached⟩ := reach l name leads absent mem
      obtain ⟨ending, file⟩ := isSchemaName_eq_true.1 schema
      rw [Disk.isDirectory_of_lookup reached] at file
      cases e with
      | directory => cases file
      | file bytes =>
        obtain ⟨k, place, found⟩ := Disk.lookup_eq_ok.1 reached
        obtain rfl := Disk.eq_of_locate_child (grown.locate leads) (grown.directory held)
          (down_of_schema ending) place
        exact other l name leads (grown.added absent found).symm ending
    rw [listed, List.filter_append, old, none, List.append_nil]

/-! ## Scanning with one more file -/

/-- Another name is sorted in between the names that are there. -/
theorem mergeSort_concat {names : List String} (fresh : name ∉ names) :
    ∃ before after, names.mergeSort (· ≤ ·) = before ++ after ∧
      (names ++ [name]).mergeSort (· ≤ ·) = before ++ name :: after := by
  have perm := List.mergeSort_perm (names ++ [name]) (· ≤ ·)
  obtain ⟨before, after, sorted⟩ :=
    List.append_of_mem (perm.mem_iff.2 (List.mem_append_right names List.mem_cons_self))
  -- the name stands there once, so that the others are what is left without it
  have once : name ∉ before ∧ name ∉ after := by
    have count := perm.count_eq name
    rw [sorted, List.count_append, List.count_append, List.count_cons_self,
      List.count_eq_zero_of_not_mem fresh, List.count_cons_self, List.count_nil] at count
    exact ⟨List.count_eq_zero.1 (by omega), List.count_eq_zero.1 (by omega)⟩
  have others {some : List String} (absent : name ∉ some) : some.filter (· ≠ name) = some :=
    List.filter_eq_self.2 fun n mem => decide_eq_true fun same => absent (same ▸ mem)
  refine ⟨before, after, ?_, sorted⟩
  calc
    names.mergeSort (· ≤ ·) = ((names ++ [name]).filter (· ≠ name)).mergeSort (· ≤ ·) := by
      rw [List.filter_append, others fresh, List.filter_cons_of_neg (by simp), List.filter_nil,
        List.append_nil]
    _ = ((names ++ [name]).mergeSort (· ≤ ·)).filter (· ≠ name) := (filter_mergeSort _ _).symm
    _ = before ++ after := by
      rw [sorted, List.filter_append, others once.1, List.filter_cons_of_neg (by simp),
        others once.2]

/-- **One more file in a directory** is one more schema file at its place in the order, or none if
its name is not that of a schema file. -/
theorem find_set_file (found : (find d dir).result = .ok paths) (leads : d.locate dir = .ok l)
    (fresh : d.find? (l ++ [name]) = none)
    (reach : d.locate (dir.child name) = .ok (l ++ [name])) (bytes : ByteArray) :
    ∃ before after, paths = before ++ after ∧
      (find (d.set (l ++ [name]) (.file bytes)) dir).result =
        .ok (before ++ (if Path.suffix name = schemaSuffix then [dir.child name] else []) ++
          after) := by
  obtain ⟨l', leads', held, told, rfl⟩ := find_eq_ok.1 found
  obtain rfl := Except.ok.inj (leads.symm.trans leads')
  have named : l ++ [name] ≠ [] := by simp
  have absent : l ++ [name] ∉ d.places := (Disk.find?_eq_none named).1 fresh
  have grown : Disk.Grown (l ++ [name]) d (d.set (l ++ [name]) (.file bytes)) :=
    (Disk.Extended.set_file (by rw [fresh]; nofun) bytes).toGrown
  generalize isNew : d.set (l ++ [name]) (.file bytes) = d' at grown ⊢
  have listed : d'.listed l = d.listed l ++ [name] := by
    rw [Disk.listed, ← isNew, Disk.places_set, if_neg absent, List.filterMap_append, Disk.listed]
    simp
  have file : d'.isDirectory (dir.child name) = .ok false := by
    rw [Disk.isDirectory_of_locate (grown.locate reach), ← isNew, Disk.find?_set d _ _ named,
      if_pos rfl]
    rfl
  -- the names in the directory can still be told apart, and the new one is a file
  have told' : ∀ n ∈ d'.listed l, ∃ b, d'.isDirectory (dir.child n) = .ok b := by
    intro n mem
    rw [listed, List.mem_append, List.mem_singleton] at mem
    rcases mem with old | rfl
    · exact grown.told leads held (told n old)
    · exact ⟨_, file⟩
  have chosen : (d'.listed l).filter (isSchemaName d' dir) =
      (d.listed l).filter (isSchemaName d dir) ++ [name].filter (isSchemaName d' dir) := by
    rw [listed, List.filter_append, filter_isSchemaName_of_grown grown leads held]
  by_cases ending : Path.suffix name = schemaSuffix
  · rw [List.filter_cons_of_pos (isSchemaName_eq_true.2 ⟨ending, file⟩), List.filter_nil] at chosen
    have unlisted : name ∉ (d.listed l).filter (isSchemaName d dir) :=
      fun mem => absent (Disk.mem_listed.1 (List.mem_filter.1 mem).1)
    obtain ⟨before, after, sorted, sorted'⟩ := mergeSort_concat unlisted
    refine ⟨before.map dir.child, after.map dir.child, by rw [sorted, List.map_append],
      find_eq_ok.2 ⟨l, grown.locate leads, grown.directory held, told', ?_⟩⟩
    rw [chosen, sorted', if_pos ending]
    simp
  · rw [List.filter_cons_of_neg fun schema => ending (isSchemaName_eq_true.1 schema).1,
      List.filter_nil, List.append_nil] at chosen
    refine ⟨_, [], (List.append_nil _).symm,
      find_eq_ok.2 ⟨l, grown.locate leads, grown.directory held, told', ?_⟩⟩
    rw [chosen, if_neg ending, List.append_nil, List.append_nil]

end Compilation
end ResourceApi
