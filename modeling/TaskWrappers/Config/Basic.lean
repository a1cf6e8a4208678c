import TaskWrappers.Artifact
import TaskWrappers.Path

/-!
# Configurations

What a pass works on: where its sources are, where the generated file goes, which project file and
which modules besides it decide on the mode, and the language of the sources.
-/

namespace TaskWrappers

structure Config where
  sourceDir : Path
  outDir : Path
  projectFile : Option Path
  references : List String
  language : String
  deriving DecidableEq

namespace Config

def standard : Config := ⟨⟨"."⟩, ⟨"obj/generated"⟩, none, [], "csharp"⟩

/-- A value of a setting as far as some setting takes it: a text or a list of texts. -/
inductive Setting where
  | text (s : String)
  | texts (ss : List String)

/-- The configuration with one setting given by its key; an unknown key or a value of the wrong
shape is refused. -/
def set? (c : Config) : String → Setting → Option Config
  | "source_dir", .text s => some { c with sourceDir := ⟨s⟩ }
  | "out_dir", .text s => some { c with outDir := ⟨s⟩ }
  | "project_file", .text s => some { c with projectFile := some ⟨s⟩ }
  | "references", .texts ss => some { c with references := ss }
  | "language", .text s => some { c with language := s }
  | _, _ => none

/-- Takes the relative paths from `base`. -/
def rebase (base : Path) (c : Config) : Config :=
  { c with
    sourceDir := base.join c.sourceDir
    outDir := base.join c.outDir
    projectFile := c.projectFile.map base.join }

def outputPath (c : Config) : Path :=
  c.outDir.join ⟨Artifact.generatedFile⟩

end Config

end TaskWrappers
