import TaskWrappers.ConstantExpr.Value
import TaskWrappers.Task

/-!
# Markers

The attributes that mark tasks, and the task name they can carry.
-/

namespace TaskWrappers

/-- An attribute class, without the `Attribute` at the end of its name. -/
structure Marker where
  space : String
  name : String
  deriving DecidableEq

namespace Marker

def durableTask : Marker := ⟨"Microsoft.DurableTask", "DurableTask"⟩

def function : Marker := ⟨"Microsoft.Azure.Functions.Worker", "Function"⟩

def activityTrigger : Marker := ⟨"Microsoft.Azure.Functions.Worker", "ActivityTrigger"⟩

/-- Whether a simple name is the marker's, with or without `Attribute` at its end. -/
def isNamed (m : Marker) (simple : String) : Bool :=
  simple == m.name || simple == m.name ++ "Attribute"

/-- Whether an attribute's name as written means the marker: by itself, or behind the marker's
namespace. -/
def isMeant (m : Marker) (written : String) : Bool :=
  match Text.cutLast? (· == '.') (Text.dropLead "global::" written) with
  | none => m.isNamed (.ofList (Text.dropLead "global::" written))
  | some (space, simple) => String.ofList space == m.space && m.isNamed (.ofList simple)

end Marker

/-- The argument for the task's name: the first positional one, or else the one called `name`. -/
def Attribute.nameArgument? (a : Attribute) : Option String :=
  (a.firstPositional <|> a.arguments.find? (·.name == some "name")).map (·.expression)

/-- A task's name and where it comes from. -/
structure TaskName where
  name : String
  source : NameSource
  deriving DecidableEq

namespace TaskName

/-- The name an attribute's argument gives to a declaration. -/
def ofArgument (m : Model) (s : Scope) (declared expression : String) (span : Span) : TaskName :=
  match m.constantValue s expression with
  | some name => ⟨name, .attributed⟩
  | none => ⟨declared, .fallback expression span⟩

/-- The first marker among the attributes that carries an argument for the name decides. -/
def resolve (m : Model) (s : Scope) (marker : Marker) (attributes : List Attribute)
    (declared : String) : TaskName :=
  let argument? (a : Attribute) : Option TaskName :=
    if marker.isMeant a.name then
      a.nameArgument?.map fun expression => ofArgument m s declared expression a.span
    else none
  (attributes.findSome? argument?).getD ⟨declared, .declared⟩

end TaskName

end TaskWrappers
