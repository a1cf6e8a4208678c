import TaskWrappers.Text.Cut
import TaskWrappers.Wrapper.Plan

/-!
# The source of the generated file

Each member is a field, a method or a nested class. A method is first laid out as data, with its
parameters one by one, and then printed. Names and types are put in as they are: names have been
checked and types rendered before.
-/

namespace TaskWrappers

/-- A parameter with what stands before its type and the value it has by default. -/
structure WrapperParameter where
  lead : String
  type : String
  name : String
  default : Option String
  deriving DecidableEq

structure WrapperMethod where
  /-- The lines above the method: documentation or attributes. -/
  header : List String
  result : String
  name : String
  parameters : List WrapperParameter
  /-- Whether each parameter has a line of its own. -/
  isStacked : Bool
  body : List String
  deriving DecidableEq

/-- What a member is in the generated class. -/
inductive WrapperDecl where
  | field (type name value : String)
  | method (m : WrapperMethod)
  | nested (name : String) (lines : List String)
  deriving DecidableEq

namespace WrapperParameter

def plain (type name : String) : WrapperParameter := ⟨"", type, name, none⟩

def receiver (type name : String) : WrapperParameter := ⟨"this ", type, name, none⟩

def bound (marker type name : String) : WrapperParameter :=
  ⟨"[" ++ marker ++ "] ", type, name, none⟩

def optional (type name default : String) : WrapperParameter := ⟨"", type, name, some default⟩

def print (p : WrapperParameter) : String :=
  p.lead ++ p.type ++ " " ++ p.name ++
    match p.default with
    | none => ""
    | some d => " = " ++ d

end WrapperParameter

namespace WrapperMethod

/-- The parameters on lines of their own, the closing parenthesis after the last. -/
def stack : List WrapperParameter → List String
  | [] => [")"]
  | [p] => ["    " ++ p.print ++ ")"]
  | p :: ps => ("    " ++ p.print ++ ",") :: stack ps

def signature (m : WrapperMethod) : List String :=
  let start := "public static " ++ m.result ++ " " ++ m.name ++ "("
  if m.isStacked then start :: stack m.parameters
  else [start ++ ", ".intercalate (m.parameters.map (·.print)) ++ ")"]

def lines (m : WrapperMethod) : List String :=
  m.header ++ m.signature ++ ["\x7b"] ++ m.body.map ("    " ++ ·) ++ ["\x7d"]

end WrapperMethod

namespace Member

def taskOf (type : String) : String := "Task<" ++ type ++ ">"

/-- The string by which a task is called. -/
def key (task : String) : String := "\"" ++ task ++ "\""

def inherits (method : String) : List String := ["/// <inheritdoc cref=\"" ++ method ++ "\"/>"]

def functionMarker (task : String) : List String := ["[Function(nameof(" ++ task ++ "))]"]

open WrapperParameter

/-- A call of an activity. -/
def callMethod (task : String) (input : FunctionInput) (output : String) : WrapperMethod where
  header := inherits "TaskOrchestrationContext.CallActivityAsync"
  result := taskOf output
  name := "Call" ++ task ++ "Async"
  parameters :=
    [receiver "TaskOrchestrationContext" "ctx", plain input.type input.name,
      optional "TaskOptions?" "options" "null"]
  isStacked := false
  body :=
    ["return ctx.CallActivityAsync<" ++ output ++ ">(" ++ key task ++ ", " ++ input.name
      ++ ", options);"]

def orchestratorTriggerMethod (task input output : String) : WrapperMethod where
  header := functionMarker task
  result := taskOf "string"
  name := task
  parameters :=
    [bound "OrchestrationTrigger" "string" "orchestratorState",
      plain "FunctionContext" "executionContext"]
  isStacked := false
  body :=
    ["return DurableOrchestrator.LoadAndRunAsync<" ++ input ++ ", " ++ output
      ++ ">(orchestratorState, singleton" ++ task ++ ", executionContext);"]

def scheduleMethod (task inputDefault : String) : WrapperMethod where
  header := inherits "DurableTaskClient.ScheduleNewOrchestrationInstanceAsync"
  result := taskOf "string"
  name := "ScheduleNew" ++ task ++ "InstanceAsync"
  parameters :=
    [receiver "DurableTaskClient" "client", optional "string?" "instanceId" "null",
      optional inputDefault "input" "default", optional "DateTimeOffset?" "startTime" "null"]
  isStacked := true
  body :=
    ["return client.ScheduleNewOrchestrationInstanceAsync(", "    " ++ key task ++ ",",
      "    instanceId,", "    input,", "    startTime);"]

def subOrchestrationMethod (task inputDefault output : String) : WrapperMethod where
  header := inherits "TaskOrchestrationContext.CallSubOrchestratorAsync"
  result := taskOf output
  name := "Call" ++ task ++ "Async"
  parameters :=
    [receiver "TaskOrchestrationContext" "context", optional "string?" "instanceId" "null",
      optional inputDefault "input" "default", optional "TaskOptions?" "options" "null"]
  isStacked := true
  body :=
    ["return context.CallSubOrchestratorAsync<" ++ output ++ ">(", "    " ++ key task ++ ",",
      "    instanceId,", "    input,", "    options);"]

def activityTriggerMethod (task type inputDefault output : String) : WrapperMethod where
  header := functionMarker task
  result := "async " ++ taskOf output
  name := task
  parameters :=
    [bound "ActivityTrigger" inputDefault "input", plain "string" "instanceId",
      plain "FunctionContext" "executionContext"]
  isStacked := false
  body :=
    ["ITaskActivity activity = ActivatorUtilities.GetServiceOrCreateInstance<" ++ type
        ++ ">(executionContext.InstanceServices);",
      "TaskActivityContext context = new GeneratedActivityContext(" ++ key task
        ++ ", instanceId, input);",
      "object? result = await activity.RunAsync(context, input);",
      "return (" ++ output ++ ")result!;"]

def registrationMethod (orchestrators activities : List String) : WrapperMethod where
  header := []
  result := "DurableTaskRegistry"
  name := "AddAllGeneratedTasks"
  parameters := [receiver "DurableTaskRegistry" "builder"]
  isStacked := false
  body :=
    orchestrators.map ("builder.AddOrchestrator<" ++ · ++ ">();")
      ++ activities.map ("builder.AddActivity<" ++ · ++ ">();") ++ ["return builder;"]

def adapterName : String := "GeneratedActivityContext"

def adapterLines : List String :=
  ["sealed class " ++ adapterName ++ " : TaskActivityContext",
    "\x7b",
    "    readonly object? input;",
    "",
    "    public " ++ adapterName ++ "(TaskName name, string instanceId, object? input)",
    "    \x7b",
    "        this.Name = name;",
    "        this.InstanceId = instanceId;",
    "        this.input = input;",
    "    \x7d",
    "",
    "    public override TaskName Name \x7b get; \x7d",
    "",
    "    public override string InstanceId \x7b get; \x7d",
    "",
    "    public T GetInput<T>() => (T)this.input!;",
    "\x7d"]

def decl : Member → WrapperDecl
  | .instance task type => .field "ITaskOrchestrator" ("singleton" ++ task) ("new " ++ type ++ "()")
  | orchestratorTrigger task input output => .method (orchestratorTriggerMethod task input output)
  | schedule task inputDefault => .method (scheduleMethod task inputDefault)
  | subOrchestration task inputDefault output =>
    .method (subOrchestrationMethod task inputDefault output)
  | activityCall task input output => .method (callMethod task ⟨"input", input⟩ output)
  | activityTrigger task type inputDefault output =>
    .method (activityTriggerMethod task type inputDefault output)
  | functionCall task input result => .method (callMethod task input result)
  | adapter => .nested adapterName adapterLines
  | registration orchestrators activities => .method (registrationMethod orchestrators activities)

end Member

namespace WrapperDecl

def lines : WrapperDecl → List String
  | field type name value => ["static readonly " ++ type ++ " " ++ name ++ " = " ++ value ++ ";"]
  | method m => m.lines
  | nested _ ls => ls

end WrapperDecl

namespace Plan

/-- A line without the carriage return it may end with. -/
def dropReturn (cs : List Char) : List Char :=
  if cs.getLast? = some '\r' then cs.dropLast else cs

/-- A line at its place in the class; an empty one stays empty. -/
def laidLine (cs : List Char) : List Char :=
  let cs := dropReturn cs
  (if cs.isEmpty then [] else "        ".toList ++ cs) ++ ['\n']

def laid (cs : List Char) : List Char :=
  (Text.split (· == '\n') cs).flatMap laidLine

/-- One line of a member, which may itself be broken by a type that was written over several lines;
each part is indented unless it is empty. -/
def indented (line : String) : String :=
  .ofList (laid line.toList)

def memberText (m : Member) : String :=
  String.join (m.decl.lines.map indented)

/-- The text of the generated file. -/
def text (p : Plan) : String :=
  "// <auto-generated/>\n#nullable enable annotations\n#nullable disable warnings\n\n"
    ++ String.join (p.usings.map ("using " ++ · ++ ";\n"))
    ++ "\nnamespace " ++ p.space ++ "\n\x7b\n    public static class " ++ p.className
    ++ "\n    \x7b\n" ++ "\n".intercalate (p.members.map memberText) ++ "    \x7d\n\x7d\n"

end Plan

end TaskWrappers
