import TaskWrappers.Task

/-!
# The plan of the generated file

Which members the generated class has, in order. All that depends on the mode is decided here: in a
host each orchestrator has a shared instance and a trigger and each activity a trigger, and without
one there is a helper that registers every class.
-/

namespace TaskWrappers

inductive Member where
  /-- The instance that an orchestrator's trigger runs. -/
  | instance (task type : String)
  | orchestratorTrigger (task input output : String)
  | schedule (task inputDefault : String)
  | subOrchestration (task inputDefault output : String)
  | activityCall (task input output : String)
  | activityTrigger (task type inputDefault output : String)
  | functionCall (task : String) (input : FunctionInput) (result : String)
  /-- The context that activity triggers run activities in. -/
  | adapter
  | registration (orchestrators activities : List String)
  deriving DecidableEq

/-- The generated file before it is written out. -/
structure Plan where
  mode : Mode
  usings : List String
  space : String
  className : String
  members : List Member
  deriving DecidableEq

namespace Plan

def baseUsings : List String := ["System", "System.Threading.Tasks", "Microsoft.DurableTask.Client"]

def hostUsings : List String :=
  ["Microsoft.Azure.Functions.Worker", "Microsoft.DurableTask.Internal",
    "Microsoft.Extensions.DependencyInjection"]

def generatedSpace : String := "Microsoft.DurableTask"

def generatedClass : String := "GeneratedDurableTaskExtensions"

/-- What a mode that runs in a host adds. -/
def inHost {α : Type} (mode : Mode) (as : List α) : List α :=
  match mode with
  | .hostIntegrated => as
  | .standalone => []

def ofOrchestrator (mode : Mode) (t : Task) : List Member :=
  inHost mode [.orchestratorTrigger t.name t.input t.output]
    ++ [.schedule t.name t.inputDefault, .subOrchestration t.name t.inputDefault t.output]

def ofActivity (mode : Mode) (t : Task) : List Member :=
  .activityCall t.name t.input t.output
    :: inHost mode [.activityTrigger t.name t.declaration t.inputDefault t.output]

def ofFunction (f : FunctionTask) : Member := .functionCall f.name f.input f.result

/-- What comes after the wrappers. -/
def closing (mode : Mode) (t : TaskSet) : List Member :=
  match mode with
  | .hostIntegrated => if t.activities.isEmpty then [] else [.adapter]
  | .standalone =>
    [.registration (t.orchestrators.map (·.declaration)) (t.activities.map (·.declaration))]

def membersOf (mode : Mode) (t : TaskSet) : List Member :=
  inHost mode (t.orchestrators.map fun o => .instance o.name o.declaration)
    ++ t.orchestrators.flatMap (ofOrchestrator mode)
    ++ t.activities.flatMap (ofActivity mode)
    ++ t.functions.map ofFunction
    ++ closing mode t

def build (mode : Mode) (t : TaskSet) : Plan :=
  ⟨mode, baseUsings ++ inHost mode hostUsings, generatedSpace, generatedClass, membersOf mode t⟩

end Plan

end TaskWrappers
