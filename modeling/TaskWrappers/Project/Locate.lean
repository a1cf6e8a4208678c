import TaskWrappers.Failure
import TaskWrappers.Project

/-!
# Locating project files

A project file is the one asked for, or the first by name in the source directory.
-/

namespace TaskWrappers.Project

def load (fs : FileSystem) (p : Path) : Except Failure Project := do
  let text ← (fs.readText p).mapError (.access p)
  return { read text with path := some p.text }

/-- The project files directly in a directory, by name. -/
def filesIn (fs : FileSystem) (dir : Path) : List Path :=
  ((fs.namesIn dir).map fun name => dir.join ⟨name⟩).filter fun p =>
    fs.isFile p && p.extension? == some "csproj"

/-- The project file asked for, or else the first one in the source directory; where there is none
the project says nothing. -/
def locate (fs : FileSystem) (explicit : Option Path) (sourceDir : Path) :
    Except Failure Project :=
  match explicit with
  | some p => load fs p
  | none =>
    match filesIn fs sourceDir with
    | p :: _ => load fs p
    | [] => .ok ⟨none, [], false⟩

end TaskWrappers.Project
