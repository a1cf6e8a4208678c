import TaskWrappers.Digest
import TaskWrappers.Wrapper.Source

/-!
# Artifacts

The generated file with its digest, by which a pass tells whether it has changed.
-/

namespace TaskWrappers

structure Artifact where
  fileName : String
  text : String
  digest : String
  deriving DecidableEq

namespace Artifact

def generatedFile : String := "GeneratedDurableTaskExtensions.cs"

/-- The file for a set of tasks; no tasks need no file. -/
def generate (mode : Mode) (tasks : TaskSet) : Option Artifact :=
  if tasks.isEmpty then none
  else
    let text := (Plan.build mode tasks).text
    some ⟨generatedFile, text, Digest.ofText text⟩

end Artifact

end TaskWrappers
