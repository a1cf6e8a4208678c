import TaskWrappers.Symbol
import TaskWrappers.TypeExpr.Printer

/-!
# Payload types

The types of a task's input and output as they are written into the generated file, which imports
`System`: a type directly in that namespace loses the namespace, every other type keeps its display.
-/

namespace TaskWrappers

/-- Stands for a type that is missing or not known. -/
def untyped : String := "object"

namespace Symbol

/-- The display without its namespace if that is `System` itself. -/
def shortDisplay (s : Symbol) : String :=
  if s.space = some systemSpace then
    (Text.dropLead? (systemSpace ++ ".") s.display).elim s.display .ofList
  else s.display

/-- The text for a resolved or unknown type, nullable where a default value must fit. -/
def payloadText (s : Option Symbol) (needsDefault : Bool) : String :=
  match s, needsDefault with
  | none, false => untyped
  | none, true => untyped ++ "?"
  | some s, false => s.shortDisplay
  | some s, true => s.toNullable.shortDisplay

end Symbol

structure Payload where
  input : String
  inputDefault : String
  output : String
  deriving DecidableEq

namespace Payload

/-- The payload of a task whose base has the given type arguments. -/
def ofArguments (m : Model) (s : Scope) (args : List (Option TypeExpr)) : Payload :=
  let symbol (k : Nat) : Option Symbol := (args[k]?.bind id).bind (m.resolve s)
  ⟨Symbol.payloadText (symbol 0) false, Symbol.payloadText (symbol 0) true,
    Symbol.payloadText (symbol 1) false⟩

end Payload

namespace TypeExpr

def taskNames : List String := ["Task", "ValueTask"]

/-- The result of a function that is declared to return this type: a task's own result, and no
particular type where there is none. -/
def resultText (type : TypeExpr) : String :=
  match type with
  | .keyword "void" => untyped
  | .named _ _ (.plain name) => if name ∈ taskNames then untyped else type.print
  | .named _ _ (.generic name (.given inner) []) =>
    if name ∈ taskNames then inner.print else type.print
  | _ => type.print

end TypeExpr

/-- The result of a function from its return type as written; what is no type is kept as it is. -/
def functionResult (written : String) : String :=
  match TypeExpr.read written with
  | .ok type => type.resultText
  | .error _ => Text.trimmed written

end TaskWrappers
