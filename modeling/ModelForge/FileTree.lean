/-
Files and directories.

A `FileTree` says what there is at each place, a place being the names of the directories
that lead to it from the root. The root, the working directory and the directories above it
always exist. A path is followed name by name; relative paths start at the working
directory. What is read or written is called by its path, which may not be too long.

* `FileTree.resolve?` — where a path leads, `FileTree.locate?` — where it leads if it can be
  used to read or write;
* `FileTree.filesBelow` — all files below a place, in the order of their names;
* `FileTree.walk?` — those that are found on a walk through a directory;
* `FileTree.write` — puts a text at a path and makes the directories above it.
-/
import ModelForge.Path

namespace ModelForge

/-- What a file holds: a text, or bytes that are none. -/
inductive FileContent
  | text (value : String)
  | bytes (value : List UInt8)
deriving DecidableEq, Repr, Inhabited

/-- What there is at a place. -/
inductive FileEntry
  | directory
  | file (content : FileContent)
deriving DecidableEq, Repr, Inhabited

/-- The files and directories that there are. -/
structure FileTree where
  workDir : List String
  entries : List (List String × FileEntry)
deriving DecidableEq, Repr, Inhabited

/-- The content of a file with the given bytes. -/
def FileContent.ofBytes (bytes : List UInt8) : FileContent :=
  match String.fromUTF8? ⟨bytes.toArray⟩ with
  | some value => text value
  | none => .bytes bytes

namespace FileTree

/-- Nothing but the working directory. -/
def empty (workDir : List String) : FileTree :=
  ⟨workDir, []⟩

/-! ### Look-up -/

/-- What there is at a place. -/
def entry? (t : FileTree) (place : List String) : Option FileEntry :=
  if place.isPrefixOf t.workDir then some .directory else t.entries.lookup place

/-- The place that a part of a path leads to from a directory. -/
def step? (t : FileTree) (place : List String) (part : String) : Option (List String) :=
  match t.entry? place with
  | some .directory =>
    if part = "" ∨ part = "." then some place
    else if part = ".." then some place.dropLast
    else if (t.entry? (place ++ [part])).isSome then some (place ++ [part])
    else none
  | _ => none

/-- The place that the parts of a path lead to. -/
def follow? (t : FileTree) (place : List String) : List String → Option (List String)
  | [] => some place
  | part :: parts => (t.step? place part).bind (t.follow? · parts)

/-- Where a path starts. -/
def start (t : FileTree) (path : String) : List String :=
  if Path.isAbsolute path then [] else t.workDir

/-- The place of what a path leads to. The empty path leads nowhere. -/
def resolve? (t : FileTree) (path : String) : Option (List String) :=
  if path = "" then none else t.follow? (t.start path) (Path.parts path)

/-- The number of bytes that a path may have. -/
def maxPathLength : Nat := 4095

/-- Whether a path is short enough to read or write what it leads to. -/
def isUsable (path : String) : Bool :=
  path.utf8ByteSize ≤ maxPathLength

/-- The place of what a path leads to, if the path can be used. -/
def locate? (t : FileTree) (path : String) : Option (List String) :=
  if isUsable path then t.resolve? path else none

/-- What a path leads to. -/
def get? (t : FileTree) (path : String) : Option FileEntry :=
  (t.locate? path).bind t.entry?

/-- The place of the directory that a path leads to. -/
def directory? (t : FileTree) (path : String) : Option (List String) :=
  (t.locate? path).filter fun place => t.entry? place == some .directory

/-! ### Walking -/

/-- A file below a place, with the names that lead to it from there. -/
def fileBelow? (place : List String) : List String × FileEntry → Option (List String × FileContent)
  | (names, .file content) =>
    if place.isPrefixOf names then some (names.drop place.length, content) else none
  | (_, .directory) => none

/-- The names that lead from a place to a directory below it. -/
def directoryBelow? (place : List String) : List String × FileEntry → Option (List String)
  | (names, .directory) =>
    if place.isPrefixOf names then some (names.drop place.length) else none
  | (_, .file _) => none

/-- The files below a place, in the order of their names: what is in a directory stands where
the directory would. -/
def filesBelow (t : FileTree) (place : List String) : List (List String × FileContent) :=
  (t.entries.filterMap (fileBelow? place)).mergeSort fun a b => !List.lex b.1 a.1

/-- The path that the names lead to from a directory. -/
def pathBelow (directory : String) (names : List String) : String :=
  names.foldl Path.join directory

/-- The directories below a place. -/
def directoriesBelow (t : FileTree) (place : List String) : List (List String) :=
  t.entries.filterMap (directoryBelow? place)

/-- The files that are found on a walk through a directory at a place, in the order of their
names. A file whose path is too long is passed over, a directory whose path is too long ends
the walk. -/
def walk? (t : FileTree) (directory : String) (place : List String) :
    Option (List (List String × FileContent)) :=
  if (t.directoriesBelow place).all fun names => isUsable (pathBelow directory names) then
    some ((t.filesBelow place).filter fun f => isUsable (pathBelow directory f.1))
  else none

/-! ### Writing -/

/-- The number of bytes that a name may have. -/
def maxNameLength : Nat := 255

/-- Whether a file or directory can have a name. -/
def isName (name : String) : Bool :=
  name != "" && name != "." && name != ".." && name.utf8ByteSize ≤ maxNameLength &&
    !name.toList.contains '\x00'

/-- The entries with one more, or with the one at the same place replaced. -/
def replaceEntry (place : List String) (entry : FileEntry) :
    List (List String × FileEntry) → List (List String × FileEntry)
  | [] => [(place, entry)]
  | e :: es => if e.1 = place then (place, entry) :: es else e :: replaceEntry place entry es

/-- The tree with an entry. -/
def put (t : FileTree) (place : List String) (entry : FileEntry) : FileTree :=
  { t with entries := replaceEntry place entry t.entries }

/-- Goes from a directory to the one that a part of a path leads to, which is made if it is
missing. -/
def enter? (t : FileTree) (place : List String) (part : String) :
    Option (FileTree × List String) :=
  if part = "" ∨ part = "." then some (t, place)
  else if part = ".." then some (t, place.dropLast)
  else if isName part then
    match t.entry? (place ++ [part]) with
    | some .directory => some (t, place ++ [part])
    | some (.file _) => none
    | none => some (t.put (place ++ [part]) .directory, place ++ [part])
  else none

/-- Goes from a directory along the parts of a path and makes what is missing. -/
def enterAll? (t : FileTree) (place : List String) : List String → Option (FileTree × List String)
  | [] => some (t, place)
  | part :: parts => (t.enter? place part).bind fun (t, place) => t.enterAll? place parts

/-- Puts a file into a directory, unless a directory of that name is there. -/
def putFile? (t : FileTree) (place : List String) (name : String) (content : FileContent) :
    Option FileTree :=
  if isName name then
    match t.entry? (place ++ [name]) with
    | some .directory => none
    | _ => some (t.put (place ++ [name]) (.file content))
  else none

/-- Makes the directories that a path leads along. -/
def makeDirectories? (t : FileTree) (path : String) : Option FileTree :=
  (t.enterAll? (t.start path) (Path.parts path)).map (·.1)

/-- Writes a file and makes the directories above it. Fails with the path that cannot be made:
that of the directory or that of the file. -/
def write (t : FileTree) (path : String) (content : FileContent) : Except String FileTree :=
  let directory := (Path.parent? path).getD path
  if isUsable directory then
    match t.enterAll? (t.start path) (Path.parts path).dropLast with
    | none => .error directory
    | some (made, place) =>
      if isUsable path then
        match made.putFile? place ((Path.parts path).getLast?.getD "") content with
        | none => .error path
        | some written => .ok written
      else .error path
  else .error directory

/-- Writes texts at paths, in order, until one is refused. What was written before stays. -/
def writeAll (t : FileTree) : List (String × String) → FileTree × Except String Unit
  | [] => (t, .ok ())
  | (path, text) :: files =>
    match t.write path (.text text) with
    | .ok written => written.writeAll files
    | .error refused => (t, .error refused)

end FileTree

end ModelForge
