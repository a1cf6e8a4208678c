import TaskWrappers.Config.Toml
import TaskWrappers.Failure

/-!
# Loading configurations

Paths in a configuration file are meant from the directory that the file is in.
-/

namespace TaskWrappers.Config

def fileName : String := "durabletask.toml"

def load (fs : FileSystem) (p : Path) : Except Failure Config := do
  let text ← (fs.readText p).mapError (.access p)
  match Toml.read text with
  | none => throw (.invalidConfig p)
  | some c =>
    match p.parent? with
    | some base => return if base.text.isEmpty then c else c.rebase base
    | none => return c

/-- The configuration in a directory's configuration file, if it has one. -/
def loadOrStandard (fs : FileSystem) (dir : Path) : Except Failure Config :=
  let p := dir.join ⟨fileName⟩
  if fs.isFile p then load fs p else .ok standard

end TaskWrappers.Config
