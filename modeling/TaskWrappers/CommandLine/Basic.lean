import TaskWrappers.Config.Load

/-!
# Commands

What can be asked for on a command line, and how it bears on the configuration: a configuration
file is read first, and then the command line's own settings replace or extend what it says.
-/

namespace TaskWrappers

inductive Command where
  | generate
  | check
  | watch
  deriving DecidableEq

namespace Command

def name : Command → String
  | generate => "generate"
  | check => "check"
  | watch => "watch"

def all : List Command := [generate, check, watch]

def ofName? (name : String) : Option Command :=
  all.find? (·.name == name)

end Command

/-- Settings given on a command line. -/
structure Overrides where
  sourceDir : Option Path
  outDir : Option Path
  projectFile : Option Path
  references : List String
  language : Option String
  deriving DecidableEq

namespace Overrides

/-- The output directory: the standard one moves along with a source directory that is given when
no file says otherwise. -/
def outDirFor (o : Overrides) (hasFile : Bool) (sourceDir outDir : Path) : Path :=
  match o.outDir with
  | some dir => dir
  | none => if o.sourceDir.isSome && !hasFile then sourceDir.join outDir else outDir

def apply (o : Overrides) (hasFile : Bool) (c : Config) : Config :=
  let sourceDir := o.sourceDir.getD c.sourceDir
  { sourceDir
    outDir := o.outDirFor hasFile sourceDir c.outDir
    projectFile := o.projectFile.or c.projectFile
    references := c.references ++ o.references
    language := o.language.getD c.language }

end Overrides

/-- A command line that could be read. -/
structure Request where
  command : Command
  configFile : Option Path
  verbosity : Nat
  asJson : Bool
  overrides : Overrides
  deriving DecidableEq

namespace Request

/-- The configuration file: the one asked for, or else the one in the working directory. -/
def file? (fs : FileSystem) (r : Request) : Option Path :=
  match r.configFile with
  | some p => some p
  | none =>
    let p : Path := ⟨Config.fileName⟩
    if fs.isFile p then some p else none

def config (fs : FileSystem) (r : Request) : Except Failure Config :=
  match r.file? fs with
  | some p => (Config.load fs p).map (r.overrides.apply true)
  | none => .ok (r.overrides.apply false Config.standard)

end Request

end TaskWrappers
