import TaskWrappers.Source.Reserved
import TaskWrappers.Text.Class
import TaskWrappers.Warning

/-!
# Task names that can be used

A task is kept if its name can be part of a method's name and no task before it has taken the name.
Orchestrators have names of their own; classes and functions share those of activities.
-/

namespace TaskWrappers

/-- Whether a name can be a method's. -/
def isIdentifier (name : String) : Bool :=
  match name.toList with
  | [] => false
  | c :: cs => Text.isNameStart c && cs.all Text.isNameRest && !reservedWords.contains name

/-- The names taken so far, each with the declaration that has it. -/
abbrev Taken := List (String × String)

/-- A name with its declaration is taken unless it cannot be used or another has taken it. -/
def take (kind : TaskKind) (taken : Taken) (name declaration : String) : Except Warning Taken :=
  if isIdentifier name then
    match taken.lookup name with
    | some kept => .error (.duplicateName kind name kept declaration)
    | none => .ok ((name, declaration) :: taken)
  else .error (.invalidName name declaration)

/-- The members of a list that get their name, the names taken in the end, and a warning for each
of the others. -/
def keep {α : Type} (kind : TaskKind) (name declaration : α → String) :
    Taken → List α → List α × Taken × List Warning
  | taken, [] => ([], taken, [])
  | taken, a :: as =>
    match take kind taken (name a) (declaration a) with
    | .ok taken =>
      let (kept, taken, warnings) := keep kind name declaration taken as
      (a :: kept, taken, warnings)
    | .error warning =>
      let (kept, taken, warnings) := keep kind name declaration taken as
      (kept, taken, warning :: warnings)

namespace TaskSet

/-- The tasks that get their name and the warnings for those that do not. -/
def validate (t : TaskSet) : TaskSet × List Warning :=
  let (orchestrators, _, ws₁) := keep .orchestrator Task.name Task.declaration [] t.orchestrators
  let (activities, taken, ws₂) := keep .activity Task.name Task.declaration [] t.activities
  let (functions, _, ws₃) :=
    keep .activity FunctionTask.name FunctionTask.declaration taken t.functions
  (⟨orchestrators, activities, functions⟩, ws₁ ++ ws₂ ++ ws₃)

end TaskSet

end TaskWrappers
