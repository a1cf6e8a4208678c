/-!
# Type expressions

A type as it is written in C# source: a keyword, a name with an optional qualifier and dotted
segments, or one of these marked nullable, made an array or put into a tuple. What a written type
cannot lack is not a list here: a name has a last segment, an argument list a first argument, a
tuple its first two elements, and an array counts the commas between its brackets.
-/

namespace TaskWrappers

mutual

inductive TypeExpr where
  | keyword (word : String)
  | named (qualifier : Option String) (outer : List Segment) (last : Segment)
  | nullable (inner : TypeExpr)
  | array (element : TypeExpr) (commas : Nat)
  | tuple (first second : TupleElement) (rest : List TupleElement)

/-- One dotted part of a name, with the type arguments written after it. -/
inductive Segment where
  | plain (name : String)
  | generic (name : String) (first : TypeArg) (rest : List TypeArg)

/-- A type argument; `Dictionary<,>` leaves out both of its own. -/
inductive TypeArg where
  | omitted
  | given (type : TypeExpr)

inductive TupleElement where
  | mk (type : TypeExpr) (name : Option String)

end

instance : Inhabited TypeExpr := ⟨.keyword "object"⟩

namespace Segment

def name : Segment → String
  | plain n => n
  | generic n _ _ => n

/-- The written type arguments, of which a plain segment has none. -/
def args : Segment → List TypeArg
  | plain _ => []
  | generic _ a as => a :: as

def isGeneric : Segment → Bool
  | plain _ => false
  | generic .. => true

end Segment

namespace TypeExpr

/-- The keywords that name a type. -/
def keywords : List String :=
  ["bool", "byte", "sbyte", "char", "decimal", "double", "float", "int", "uint", "nint",
    "nuint", "long", "ulong", "short", "ushort", "object", "string", "void", "dynamic"]

/-- The qualifier that starts a name at the global namespace. -/
def globalQualifier : String := "global"

end TypeExpr

end TaskWrappers
