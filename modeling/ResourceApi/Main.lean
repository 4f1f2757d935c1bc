import ResourceApi.CommandLine.Run

/-! # The program

Runs a command line on the files below the working directory: they are read as a disk,
and what the run changes on the disk is written back. Of what lies elsewhere only the
directories above the working directory are known. -/

namespace ResourceApi

/-- The text of a place, as the file system takes it. -/
def placeText (l : Location) : String := Path.toString ⟨.root, l⟩

/-- The entries below a directory. Links to directories are not followed. -/
partial def entriesBelow (l : Location) : IO (List (Location × Entry)) := do
  let mut found : List (Location × Entry) := []
  let directory := (← IO.currentDir) / placeText l
  for e in ← directory.readDir do
    let place := l ++ [e.fileName]
    match (← e.path.symlinkMetadata).type with
    | .dir =>
      let below ← entriesBelow place
      found := found ++ (place, .directory) :: below
    | .other => pure ()
    | _ =>
      if !(← e.path.isDir) && (← e.path.pathExists) then
        found := found ++ [(place, .file (← IO.FS.readBinFile e.path))]
  return found

/-- Writes an entry that was not on the disk before. -/
def writeEntry (before : Disk) (l : Location) (e : Entry) : IO Unit := do
  if before.find? l = some e then return
  match e with
  | .directory => IO.FS.createDirAll (placeText l)
  | .file bytes => IO.FS.writeBinFile (placeText l) bytes

def showLine : CommandLine.Line → IO Unit
  | .out text => IO.println text
  | .err text => IO.eprintln text

def breakMessage : CommandLine.Break → String
  | .halt (.disk reason) | .options (.unreadable reason) => reason.message
  | .halt (.notUnicode fault) => fault.message
  | .options (.notUnicode fault) => fault.message
  | .halt (.longInt digits) => Numeral.tooLongMessage digits
  | .halt h => h.message?.getD ""
  | .options p => p.message?.getD "The options file is not valid YAML"

end ResourceApi

open ResourceApi in
def main (args : List String) : IO UInt32 := do
  let start := Disk.around (Path.ofString (← IO.currentDir).toString).names
  let before := { start with entries := start.entries ++ (← entriesBelow start.home) }
  let report := CommandLine.run before args
  for (l, e) in report.disk.entries do
    writeEntry before l e
  for line in report.lines do
    showLine line
  if let some b := report.broken then
    IO.eprintln (breakMessage b)
  return report.exitCode.toUInt32
