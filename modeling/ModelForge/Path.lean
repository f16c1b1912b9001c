/-
Paths of files.

A path is a text with `/` between its components. Components that are empty or a single dot
count for nothing, except a dot at the very beginning; a path that starts with `/` is
absolute.

* `Path.join` appends a path to another one, which an absolute path replaces;
* `Path.parent?` is the path without its last component;
* `Path.extension?` is what follows the last dot of a file's name;
* `Path.shownFrom` leaves out the directory that one works in.

The written form is kept as far as possible: nothing is normalized.
-/
import ModelForge.TypeName

namespace ModelForge.Path

/-- Whether a path starts at the root. -/
def isAbsolute (path : String) : Bool :=
  path.toList.head? == some '/'

/-- The path `path`, taken from the directory `base`. An empty `base` adds nothing. -/
def join (base path : String) : String :=
  if isAbsolute path then path
  else if base = "" then path
  else if base.toList.getLast? == some '/' then base ++ path
  else base ++ "/" ++ path

/-- The parts of a path between the slashes. -/
def slashParts : List Char → List (List Char)
  | [] => [[]]
  | c :: cs =>
    if c = '/' then [] :: slashParts cs
    else
      match slashParts cs with
      | [] => [[c]]
      | part :: parts => (c :: part) :: parts

/-- The parts of a path between the slashes, also those that count for nothing. -/
def parts (path : String) : List String :=
  (slashParts path.toList).map String.ofList

/-- The components of a path that count, without the root and a leading dot. -/
def components (path : String) : List String :=
  (parts path).filter fun part => part ≠ "" ∧ part ≠ "."

/-- The last component, unless it leads upwards. -/
def fileName? (path : String) : Option String :=
  match (components path).getLast? with
  | some name => if name = ".." then none else some name
  | none => none

/-- What follows the last dot of a name. A name that starts with its only dot has none. -/
def extension? (name : String) : Option String :=
  let rest := name.toList.reverse.takeWhile (· != '.')
  if rest.length + 1 < name.toList.length then some (String.ofList rest.reverse) else none

/-- The reversed path without the slashes and single dots it ends with. A slash at the very
beginning and a dot at the very beginning stay. -/
def trimEnd : List Char → List Char
  | ['/'] => ['/']
  | '/' :: rest => trimEnd rest
  | ['.', '/'] => ['/']
  | '.' :: '/' :: rest => trimEnd rest
  | cs => cs

/-- The path without its last component; the root and the empty path have none. -/
def parent? (path : String) : Option String :=
  match trimEnd path.toList.reverse with
  | [] => none
  | ['/'] => none
  | cs => some (String.ofList (trimEnd (cs.dropWhile (· != '/'))).reverse)

/-- A path as it is shown to someone who works in the directory `base`: an absolute path to
something in the directory starts there, any other path stays. -/
def shownFrom (base path : String) : String :=
  let below := (components path).drop (components base).length
  if isAbsolute path ∧ (components base).isPrefixOf (components path) ∧ below.head? ≠ some ".." then
    "/".intercalate below
  else path

end ModelForge.Path
