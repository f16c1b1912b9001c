/-
Reading what a run works on.

The source model is all files of its language below the input directory, in the order of
their names; the bundled library comes before them unless it is left out. A configuration
file is never a source file, wherever it lies. The first file that cannot be read or decoded
ends the run.

* `FileTree.loadSources` — the source files of a directory;
* `Config.load` — the index of a configured run;
* `FileTree.config?` — the configuration in a file.
-/
import ModelForge.Config
import ModelForge.Declaration.Json
import ModelForge.FileTree
import ModelForge.Index
import ModelForge.Library.Declarations

namespace ModelForge

/-- A language that source models are written in. -/
inductive Language
  | json
deriving DecidableEq, Repr, Inhabited

namespace Language

/-- The name of a language. -/
def name : Language → String
  | json => "json"

/-- The extensions of the files in a language. -/
def extensions : Language → List String
  | json => ["json"]

/-- The language of a name. -/
def ofName (name : String) : Except Problem Language :=
  if name = json.name then .ok json else .error (.unsupportedLanguage name)

/-- Whether a file of this name holds a source model. -/
def reads (l : Language) (fileName : String) : Bool :=
  fileName != Config.fileName &&
    ((Path.extension? fileName).map l.extensions.contains).getD false

/-- Decodes a source file. -/
def decode (l : Language) (path text : String) : Except Problem SourceFile :=
  match l with
  | json => (SourceFile.decode path text).mapError (.invalidSource path)

end Language

namespace FileTree

/-- The source file at a path with the given content. -/
def decodeSource (l : Language) (path : String) : FileContent → Except Problem SourceFile
  | .text value => l.decode path value
  | .bytes _ => .error (.access path .refused)

/-- Whether a file with the names that lead to it holds a source model. -/
def isSource (l : Language) (f : List String × FileContent) : Bool :=
  (f.1.getLast?.map l.reads).getD false

/-- The source files of a directory. -/
def loadSources (t : FileTree) (l : Language) (directory : String) :
    Except Problem (List SourceFile) :=
  match t.directory? directory with
  | none => .error (.access directory .missingDirectory)
  | some place =>
    match t.walk? directory place with
    | none => .error (.access directory .refused)
    | some files =>
      (files.filter (isSource l)).mapM fun f => decodeSource l (pathBelow directory f.1) f.2

/-- The configuration in the file at a path, if something is there. -/
def config? (t : FileTree) (path : String) : Except Problem (Option Config) :=
  match t.get? path with
  | none => .ok none
  | some (.file (.text value)) =>
    match Config.decode path value with
    | .ok config => .ok (some config)
    | .error cause => .error (.invalidConfig path cause)
  | some _ => .error (.access path .refused)

end FileTree

namespace Config

/-- The files that a run works on, in load order. -/
def sourceFiles (c : Config) (t : FileTree) : Except Problem (List SourceFile) := do
  let language ← Language.ofName c.language
  let sources ← t.loadSources language c.inputDir
  return if c.includePrelude then Library.sourceFile :: sources else sources

/-- The declarations that a run works on. -/
def load (c : Config) (t : FileTree) : Except Problem DeclarationIndex := do
  DeclarationIndex.build (← c.sourceFiles t)

end Config

end ModelForge
