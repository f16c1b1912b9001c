/-
The program.

What the command looks at is read from disk into a `FileTree`, the command is carried out on
the tree, and what has changed in the tree is written back. All decisions are made by
`CommandLine.execute`.
-/
import ModelForge.CommandLine

namespace ModelForge.Program

/-- What a file on disk holds. Only documents are read. -/
def contentAt (path : String) : IO FileContent := do
  if (Path.fileName? path).bind Path.extension? == some "json" then
    return .ofBytes (← IO.FS.readBinFile path).data.toList
  else return .bytes []

/-- The tree with what is on disk at a place. -/
partial def readPlace (t : FileTree) (place : List String) (below : Bool) : IO FileTree := do
  let path := CommandLine.absolutePath place
  let found ← (do return some (← IO.FS.realPath path)) <|> return none
  match found with
  | none => return t
  | some real =>
    if ← real.isDir then
      let t := t.put place .directory
      if below then
        (← real.readDir).foldlM (fun t e => readPlace t (place ++ [e.fileName]) true) t
      else return t
    else return t.put place (.file (← contentAt path))

/-- The places that a path leads along. -/
def placesAlong (t : FileTree) (path : String) : List (List String) :=
  let parts := Path.components path
  (List.range (parts.length + 1)).map fun n =>
    (parts.take n).foldl (fun place part => if part = ".." then place.dropLast else place ++ [part])
      (t.start path)

/-- The tree with what is on disk along a path. -/
def readAlong (t : FileTree) (path : String) : IO FileTree :=
  (placesAlong t path).foldlM (fun t place => readPlace t place false) t

/-- The tree with what is on disk along a path and below it. -/
def readBelow (t : FileTree) (path : String) : IO FileTree := do
  let t ← readAlong t path
  match (placesAlong t path).getLast? with
  | some place => readPlace t place true
  | none => return t

/-- The tree with the file at a path. -/
def readFile (t : FileTree) (path : String) : IO FileTree := do
  let t ← readAlong t path
  match t.locate? path with
  | some place =>
    if t.entry? place matches some (.file _) then
      return t.put place (.file (.ofBytes (← IO.FS.readBinFile path).data.toList))
    else return t
  | none => return t

/-- Writes back what has changed. -/
def writeChanges (old new : FileTree) : IO Unit := do
  for (place, entry) in new.entries do
    if old.entries.lookup place != some entry then
      let path := CommandLine.absolutePath place
      match entry with
      | .directory => IO.FS.createDirAll path
      | .file (.text value) => IO.FS.writeFile path value
      | .file (.bytes _) => continue

/-- The tree that a request looks at. -/
def snapshot (request : CommandLine.Request) : IO FileTree := do
  let t := FileTree.empty (Path.components (← IO.currentDir).toString)
  match request with
  | .run _ settings =>
    let t ← readFile t (CommandLine.configPath settings)
    let t ← (CommandLine.sourceDirectory? t request).toList.foldlM readBelow t
    (CommandLine.touchedPaths t request).foldlM readAlong t
  | .help _ | .version => return t

/-- Runs the program with arguments. -/
def run (arguments : List String) : IO UInt32 := do
  let start ← IO.monoMsNow
  let t ← match CommandLine.readArguments arguments with
    | .ok request => snapshot request
    | .error _ => pure (FileTree.empty [])
  let execution := CommandLine.execute t arguments
  writeChanges t execution.tree
  let elapsed := (← IO.monoMsNow) - start
  for line in execution.output do
    IO.println (line.display (some elapsed))
  for line in execution.reported do
    IO.eprintln line
  return execution.exitCode.toUInt32

end ModelForge.Program

/-- Runs the program. -/
def main (arguments : List String) : IO UInt32 :=
  ModelForge.Program.run arguments
