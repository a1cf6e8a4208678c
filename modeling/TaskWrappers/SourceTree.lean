import TaskWrappers.Artifact
import TaskWrappers.Declaration.OfTree
import TaskWrappers.Language

/-!
# Source trees

The files below a directory that a pass reads, in an order that depends on their names only. Build
output, hidden directories and directories to skip are left out, and so is what a generator wrote.
-/

namespace TaskWrappers

/-- Something found on a walk: the path it was found under and where it really is. -/
structure Found where
  path : Path
  place : Place
  entry : Entry

namespace SourceTree

def buildDirs : List String := ["bin", "obj"]

def generatedSuffixes : List String := [".g.cs", ".generated.cs"]

def endsWith (s suffix : String) : Bool :=
  suffix.toList.isSuffixOf s.toList

/-- Whether a directory found under this path is left out, with all below it. -/
def isSkipped (skip : List Path) (name : String) (p : Path) : Bool :=
  name.toList.head? == some '.' || buildDirs.contains name || skip.any p.isWithin

def isGenerated (name : String) : Bool :=
  name == Artifact.generatedFile || generatedSuffixes.any (endsWith name)

/-- Whether a file found under this path is a source. -/
def isSource (language : Language) (p : Path) : Bool :=
  match p.fileName?, p.extension? with
  | some name, some ext => !isGenerated name && language.extensions.contains ext
  | _, _ => false

/-- What a name in a directory leads to, through a link if it is one. A link that leads back to a
directory on the way here leads nowhere. -/
def enter? (fs : FileSystem) (trail : List Place) (dir : Found) (name : String) : Option Found :=
  match fs.follow false FileSystem.linkLimit dir.place [.name name] with
  | .ok (.taken place entry) =>
    let isLinked := place != dir.place ++ [name]
    if entry == .directory && isLinked && trail.contains place then none
    else some ⟨dir.path.join ⟨name⟩, place, entry⟩
  | _ => none

/-- The files below a directory, each directory's entries by name; `depth` bounds how far down the
walk goes, and `trail` holds the directories on the way to this one. -/
def walk (fs : FileSystem) (skip : List Path) : Nat → List Place → Found → List Found
  | 0, _, _ => []
  | depth + 1, trail, dir =>
    let trail := dir.place :: trail
    (fs.names dir.place).flatMap fun name =>
      match enter? fs trail dir name with
      | none => []
      | some found =>
        if found.entry = .directory then
          if isSkipped skip name found.path then [] else walk fs skip depth trail found
        else [found]

/-- No walk goes further down than this: between two links at most every entry is passed once, and
every link on the way leads to a directory that was not on it. -/
def depthLimit (fs : FileSystem) : Nat :=
  (fs.entries.length + 1) * (fs.entries.length + 1)

def files (fs : FileSystem) (skip : List Path) (dir : Path) (place : Place) : List Found :=
  walk fs skip (depthLimit fs) [] ⟨dir, place, .directory⟩

/-- The sources below a directory, read. -/
def read (fs : FileSystem) (language : Language) (skip : List Path) (dir : Path) :
    Except Failure (List SourceFile) := do
  match fs.directory? dir with
  | none => throw (.noSources dir)
  | some place =>
    let sources := (files fs skip dir place).filter fun f =>
      fs.isFile f.path && isSource language f.path
    sources.mapM fun f => do
      let text ← (fs.readText f.path).mapError (.access f.path)
      return SourceFile.read f.path.text text

end SourceTree

namespace Path

/-- Whether a change to the file with this path can change the outcome of a pass. -/
def isRelevant (p : Path) : Bool :=
  p.fileName? != some Artifact.generatedFile
    && !p.parts.any (fun part => SourceTree.buildDirs.contains part.text)
    && ["cs", "csproj"].any (p.extension? == some ·)

end Path

end TaskWrappers
