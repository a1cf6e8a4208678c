import TaskWrappers.Artifact
import TaskWrappers.Candidate
import TaskWrappers.Naming
import TaskWrappers.Payload

/-!
# The outcome of a pass

Every candidate is described by a task, with a warning if its name had to fall back on the
declaration. Of the described tasks those that get their name are kept, and the artifact is made
from them.
-/

namespace TaskWrappers

structure Outcome where
  tasks : TaskSet
  mode : Mode
  warnings : List Warning
  artifact : Option Artifact

namespace Mode

def lower (s : String) : List Char := s.toList.map Text.lowerAscii

/-- Generated code runs in a host if the project refers to the host's module, in any case of ASCII
letters. -/
def detect (modules : List String) : Mode :=
  if modules.any (lower · == lower hostModule) then .hostIntegrated else .standalone

end Mode

/-- A described candidate. -/
inductive Described where
  | task (t : Task)
  | function (f : FunctionTask)

namespace Described

def declaration : Described → String
  | task t => t.declaration
  | function f => f.declaration

def name : Described → String
  | task t => t.name
  | function f => f.name

def source : Described → NameSource
  | task t => t.source
  | function f => f.source

/-- The warning for a name that fell back on the declaration. -/
def warning? (d : Described) : Option Warning :=
  match d.source with
  | .fallback expression span => some (.nonConstantName d.declaration expression d.name span)
  | _ => none

end Described

namespace Candidate

/-- A trigger's type as written, or no particular type where none is. -/
def triggerType (written : String) : String :=
  let text := Text.trimmed written
  if text.isEmpty then untyped else text

def describe (m : Model) : Candidate → Described
  | task kind file decl args =>
    let s := Scope.inside file decl
    let name := TaskName.resolve m s .durableTask decl.attributes decl.name
    let payload := Payload.ofArguments m s args
    .task ⟨kind, decl.fullName, name.name, name.source, payload.input, payload.inputDefault,
      payload.output, decl.span⟩
  | function file decl method _ trigger =>
    let s := Scope.inside file decl
    let name := TaskName.resolve m s .function method.attributes method.name
    .function ⟨name.name, name.source, functionResult method.returnType,
      ⟨trigger.name, triggerType trigger.type⟩, decl.fullName ++ "." ++ method.name, method.span⟩

end Candidate

namespace TaskSet

def ofDescribed (ds : List Described) : TaskSet where
  orchestrators := ds.filterMap fun
    | .task t => if t.kind = .orchestrator then some t else none
    | .function _ => none
  activities := ds.filterMap fun
    | .task t => if t.kind = .activity then some t else none
    | .function _ => none
  functions := ds.filterMap fun
    | .task _ => none
    | .function f => some f

end TaskSet

namespace Outcome

def run (m : Model) (modules : List String) (candidates : List Candidate) : Outcome :=
  let described := candidates.map (·.describe m)
  let (tasks, warnings) := (TaskSet.ofDescribed described).validate
  let mode := Mode.detect modules
  ⟨tasks, mode, described.filterMap (·.warning?) ++ warnings, Artifact.generate mode tasks⟩

end Outcome

end TaskWrappers
