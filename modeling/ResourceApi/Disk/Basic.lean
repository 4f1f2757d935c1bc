import ResourceApi.Disk.Path
import ResourceApi.Json.Fields
import ResourceApi.Text.Lines
import ResourceApi.Text.Utf8

/-! # A disk

Files and directories as a value, with a working directory among them: reading looks
a path up, and writing gives a new disk. A name of a path can only be followed
through a directory that is there. -/

namespace ResourceApi

inductive Entry where
  | directory
  | file (bytes : ByteArray)

instance : DecidableEq Entry
  | .directory, .directory => isTrue rfl
  | .directory, .file _ => isFalse nofun
  | .file _, .directory => isFalse nofun
  | .file a, .file b =>
    match ByteArray.instDecidableEq a b with
    | isTrue same => isTrue (congrArg Entry.file same)
    | isFalse other => isFalse fun same => other (Entry.file.inj same)

/-- The place of an entry: the names that lead to it from the root. -/
abbrev Location := List String

structure Disk where
  /-- The place of the working directory, where relative paths start. -/
  home : Location := []
  entries : List (Location × Entry) := []

/-- Why the disk refuses an operation. -/
inductive DiskError where
  | noSuchFile
  | isDirectory
  | notDirectory
  | fileExists
  /-- A path, or a name in it, has more bytes than a disk takes. -/
  | nameTooLong
  /-- A name holds the null character, which ends every name. -/
  | nullInName
  deriving DecidableEq

def DiskError.message : DiskError → String
  | noSuchFile => "No such file or directory"
  | isDirectory => "Is a directory"
  | notDirectory => "Not a directory"
  | fileExists => "File exists"
  | nameTooLong => "File name too long"
  | nullInName => "embedded null byte"

namespace Disk

/-- The most bytes that the text of a path may have. -/
def longestPath : Nat := 4095

/-- The most bytes that a name may have. -/
def longestName : Nat := 255

/-- The disk with nothing on it but a working directory and the directories above that. -/
def around (home : Location) : Disk where
  home
  entries := (List.range home.length).map fun k => (home.take (k + 1), .directory)

/-- What stands at a place; the root is a directory. -/
def find? (d : Disk) (l : Location) : Option Entry :=
  if l = [] then some .directory else d.entries.lookup l

def setEntry : List (Location × Entry) → Location → Entry → List (Location × Entry)
  | [], l, e => [(l, e)]
  | (k, x) :: rest, l, e => if k = l then (k, e) :: rest else (k, x) :: setEntry rest l e

/-- The disk with `e` at the place `l`. -/
def set (d : Disk) (l : Location) (e : Entry) : Disk := { d with entries := setEntry d.entries l e }

theorem lookup_setEntry (entries : List (Location × Entry)) (l k : Location) (e : Entry) :
    (setEntry entries l e).lookup k = if k = l then some e else entries.lookup k := by
  induction entries with
  | nil =>
    by_cases h : k = l
    · subst h; simp [setEntry]
    · simp [setEntry, List.lookup_cons, beq_eq_false_iff_ne.2 h, h]
  | cons x rest ih =>
    obtain ⟨m, y⟩ := x
    by_cases hm : m = l
    · subst hm
      by_cases hk : k = m
      · subst hk; simp [setEntry]
      · simp [setEntry, List.lookup_cons, beq_eq_false_iff_ne.2 hk, hk]
    · by_cases hk : k = m
      · subst hk; simp [setEntry, hm]
      · simp [setEntry, hm, List.lookup_cons, beq_eq_false_iff_ne.2 hk, ih]

/-- A set place holds what was set, and every other place what it held. -/
theorem find?_set (d : Disk) {l : Location} (k : Location) (e : Entry) (named : l ≠ []) :
    (d.set l e).find? k = if k = l then some e else d.find? k := by
  unfold find?
  by_cases hk : k = []
  · subst hk; simp [Ne.symm named]
  · simp only [if_neg hk, set, lookup_setEntry]

/-- Follows names from a place. Every place but the last must be a directory; above the root is
the root. -/
def follow (d : Disk) (l : Location) : List String → Except DiskError Location
  | [] => .ok l
  | name :: rest =>
    match d.find? l with
    | none => .error .noSuchFile
    | some (.file _) => .error .notDirectory
    | some .directory =>
      if name = ".." then follow d l.dropLast rest
      else if longestName < name.utf8ByteSize then .error .nameTooLong
      else follow d (l ++ [name]) rest

/-- Whether a disk takes a text for a path, whatever there is on it. -/
def checkText (text : String) : Except DiskError Unit :=
  if text.toList.contains '\x00' then .error .nullInName
  else if longestPath < text.utf8ByteSize then .error .nameTooLong
  else .ok ()

/-- The place that a path names. -/
def locate (d : Disk) (p : Path) : Except DiskError Location := do
  checkText p.toString
  d.follow (if p.isAbsolute then [] else d.home) p.names

/-- What a path names. -/
def lookup (d : Disk) (p : Path) : Except DiskError Entry := do
  let l ← d.locate p
  match d.find? l with
  | some e => .ok e
  | none => .error .noSuchFile

/-- What a text names as a path. No text names a file with a slash behind it. -/
def lookupText (d : Disk) (text : String) : Except DiskError Entry := do
  checkText text
  if text = "" then throw .noSuchFile
  match ← d.lookup (.ofString text) with
  | .directory => .ok .directory
  | .file bytes =>
    let ending := (Path.pieces text.toList).getLast?.getD []
    if ending == [] || ending == ['.'] then .error .notDirectory else .ok (.file bytes)

/-- Whether a path names a directory. One that leads nowhere does not, but its names may be too
long to tell. -/
def isDirectory (d : Disk) (p : Path) : Except DiskError Bool :=
  match d.lookup p with
  | .ok .directory => .ok true
  | .ok (.file _) => .ok false
  | .error .nameTooLong => .error .nameTooLong
  | .error _ => .ok false

/-- The bytes of a file. -/
def readBytes (d : Disk) (p : Path) : Except DiskError ByteArray := do
  match ← d.lookup p with
  | .file bytes => .ok bytes
  | .directory => .error .isDirectory

/-- Gives a file new bytes; a file that is not there is made in its directory. -/
def writeBytes (d : Disk) (p : Path) (bytes : ByteArray) : Except DiskError Disk := do
  let l ← d.locate p
  match d.find? l with
  | some .directory => .error .isDirectory
  | _ => .ok (d.set l (.file bytes))

def writeText (d : Disk) (p : Path) (text : String) : Except DiskError Disk :=
  d.writeBytes p text.toUTF8

/-- The names in a directory, by code points. -/
def list (d : Disk) (p : Path) : Except DiskError (List String) := do
  let l ← d.locate p
  match d.find? l with
  | none => .error .noSuchFile
  | some (.file _) => .error .notDirectory
  | some .directory =>
    let names := d.entries.filterMap fun x =>
      if x.1 ≠ [] ∧ x.1.dropLast = l then x.1.getLast? else none
    .ok (names.mergeSort (· ≤ ·))

/-- Makes one directory in a directory that is there. -/
def makeDirectory (d : Disk) (p : Path) : Except DiskError Disk := do
  let l ← d.locate p
  match d.find? l with
  | some .directory => .ok d
  | some (.file _) => .error .fileExists
  | none => .ok (d.set l .directory)

/-- Makes a directory and those above it that are missing; `names` are its names, last first. -/
def makeDirectoriesFrom (d : Disk) (anchor : Anchor) : List String → Except DiskError Disk
  | [] => d.makeDirectory ⟨anchor, []⟩
  | name :: above =>
    let p : Path := ⟨anchor, (name :: above).reverse⟩
    match d.makeDirectory p with
    | .error .noSuchFile => do
      let d ← makeDirectoriesFrom d anchor above
      d.makeDirectory p
    | r => r

def makeDirectories (d : Disk) (p : Path) : Except DiskError Disk :=
  d.makeDirectoriesFrom p.anchor p.names.reverse

/-- The files below the working directory, with the names that lead to them from there. -/
def files (d : Disk) : List (Location × ByteArray) :=
  d.entries.filterMap fun x => match x.2 with
    | .file bytes =>
      if d.home.isPrefixOf x.1 then some (x.1.drop d.home.length, bytes) else none
    | .directory => none

end Disk

/-- The text of a file's bytes, every line ended by a line feed. -/
def textOfBytes (bytes : ByteArray) : Except Utf8Fault String :=
  match String.fromUTF8? bytes with
  | some s => .ok (String.ofList (Text.unifyLineEnds s.toList))
  | none => .error (Utf8Fault.firstIn bytes.toList)

end ResourceApi
