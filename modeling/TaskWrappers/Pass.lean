import TaskWrappers.Config.Load
import TaskWrappers.FileSystem.Change
import TaskWrappers.Outcome
import TaskWrappers.Project.Locate
import TaskWrappers.SourceTree

/-!
# Passes

A pass reads the project file and the sources and finds out what is to be generated. A generating
pass then brings the generated file in line with that: it is written only where its digest
changes, and removed when there is nothing to generate.
-/

namespace TaskWrappers

/-- What a pass finds before it touches any file. -/
structure Analysis where
  project : Project
  fileCount : Nat
  tasks : TaskSet
  mode : Mode
  warnings : List Warning
  artifact : Option Artifact

namespace Analysis

def ofFiles (project : Project) (references : List String) (files : List SourceFile) : Analysis :=
  let damage := files.filterMap fun f => f.damage.map Warning.syntaxDamage
  let outcome := Outcome.run (.build files project.imports) (project.modules ++ references)
    (Candidate.scan files)
  ⟨project, files.length, outcome.tasks, outcome.mode, damage ++ outcome.warnings,
    outcome.artifact⟩

/-- Finds out what is to be generated; the output directory is no place for sources. -/
def run (fs : FileSystem) (c : Config) : Except Failure Analysis := do
  let project ← Project.locate fs c.projectFile c.sourceDir
  let language ← Language.find c.language
  let files ← SourceTree.read fs language [c.outDir] c.sourceDir
  return ofFiles project c.references files

end Analysis

/-- What became of the generated file. -/
inductive WriteStatus where
  | written
  | unchanged
  | removed
  | skipped
  deriving DecidableEq

/-- A file system after an attempt, and how the attempt ended. -/
abbrev Attempt (α : Type) := FileSystem × Except Failure α

namespace Artifact

/-- Whether the file at a path already holds this artifact. -/
def isCurrent (fs : FileSystem) (p : Path) (a : Artifact) : Bool :=
  match fs.readText p with
  | .ok text => Digest.ofText text == a.digest
  | .error _ => false

def write (fs : FileSystem) (p : Path) (a : Artifact) : Attempt WriteStatus :=
  if isCurrent fs p a then (fs, .ok .unchanged)
  else
    let dir := p.parent?.getD ⟨""⟩
    match fs.makeDirectories dir with
    | (fs, .error e) => (fs, .error (.access dir e))
    | (fs, .ok ()) =>
      match fs.write p (.text a.text) with
      | .error e => (fs, .error (.access p e))
      | .ok fs => (fs, .ok .written)

def erase (fs : FileSystem) (p : Path) : Attempt WriteStatus :=
  if fs.isFile p then
    match fs.removeFile p with
    | .error e => (fs, .error (.access p e))
    | .ok fs => (fs, .ok .removed)
  else (fs, .ok .skipped)

/-- Brings the file at a path in line with what is to be generated. -/
def store (fs : FileSystem) (p : Path) (artifact : Option Artifact) : Attempt WriteStatus :=
  match artifact with
  | some a => write fs p a
  | none => erase fs p

end Artifact

/-- What a generating pass reports. -/
structure Generation where
  analysis : Analysis
  output : Path
  status : WriteStatus

namespace Generation

def run (fs : FileSystem) (c : Config) : Attempt Generation :=
  match Analysis.run fs c with
  | .error e => (fs, .error e)
  | .ok analysis =>
    match Artifact.store fs c.outputPath analysis.artifact with
    | (after, .error e) => (after, .error e)
    | (after, .ok status) => (after, .ok ⟨analysis, after.shown c.outputPath, status⟩)

end Generation

end TaskWrappers
