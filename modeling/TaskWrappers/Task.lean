import TaskWrappers.Source.Span

/-!
# Tasks

What a pass discovers: orchestrators and activities declared as classes, and activities declared
as functions, each with the name it is called by and the types it is called with.
-/

namespace TaskWrappers

inductive TaskKind where
  | orchestrator
  | activity
  deriving DecidableEq

namespace TaskKind

/-- The class a task of this kind derives from. -/
def baseName : TaskKind → String
  | orchestrator => "TaskOrchestrator"
  | activity => "TaskActivity"

def ofBaseName? (name : String) : Option TaskKind :=
  [orchestrator, activity].find? (·.baseName == name)

def title : TaskKind → String
  | orchestrator => "Orchestrator"
  | activity => "Activity"

end TaskKind

/-- Where a task's name comes from: its declaration, an attribute, or its declaration because the
attribute's argument is no constant. -/
inductive NameSource where
  | declared
  | attributed
  | fallback (expression : String) (span : Span)
  deriving DecidableEq

/-- A task class. Its types are texts ready for the generated file; `inputDefault` is the input type
in the form that a default value fits. -/
structure Task where
  kind : TaskKind
  declaration : String
  name : String
  source : NameSource
  input : String
  inputDefault : String
  output : String
  span : Span
  deriving DecidableEq

/-- The parameter that a function's input is bound to. -/
structure FunctionInput where
  name : String
  type : String
  deriving DecidableEq

/-- An activity declared as a function. -/
structure FunctionTask where
  name : String
  source : NameSource
  result : String
  input : FunctionInput
  declaration : String
  span : Span
  deriving DecidableEq

structure TaskSet where
  orchestrators : List Task
  activities : List Task
  functions : List FunctionTask
  deriving DecidableEq

namespace TaskSet

def size (t : TaskSet) : Nat :=
  t.orchestrators.length + t.activities.length + t.functions.length

def isEmpty (t : TaskSet) : Bool := t.size == 0

end TaskSet

/-- Whether the generated functions run inside a host or the tasks are registered with a worker. -/
inductive Mode where
  | hostIntegrated
  | standalone
  deriving DecidableEq

namespace Mode

def hostModule : String := "Microsoft.Azure.Functions.Worker.Extensions.DurableTask"

end Mode

end TaskWrappers
