import TaskWrappers.Failure

/-!
# Languages

The languages that sources can be written in, each with the names it is asked for by and the
extensions of its files. There is one so far.
-/

namespace TaskWrappers

inductive Language where
  | csharp
  deriving DecidableEq

namespace Language

def name : Language → String
  | csharp => "csharp"

def names : Language → List String
  | csharp => ["csharp", "cs", "c#"]

def extensions : Language → List String
  | csharp => ["cs"]

def find (name : String) : Except Failure Language :=
  match [csharp].find? (·.names.contains name) with
  | some l => .ok l
  | none => .error (.unknownLanguage name)

end Language

end TaskWrappers
