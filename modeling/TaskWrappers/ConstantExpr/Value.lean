import TaskWrappers.ConstantExpr.Token
import TaskWrappers.Model

/-!
# Values of constant expressions

An expression is a sum of terms: strings, sums in parentheses, `nameof`, and names of constants. A
constant's own expression is read in the scope of its declaration, and references are followed to a
fixed depth, so that constants which depend on themselves have no value.
-/

namespace TaskWrappers

namespace ConstantExpr

open ConstantToken

/-- The last name in the parentheses of `nameof` that stands in no inner pair and in no angle
brackets, and what follows the closing parenthesis. -/
def nameof : Nat → Nat → Option String → List ConstantToken → Option (String × List ConstantToken)
  | _, _, _, [] => none
  | depth, angles, last, t :: ts =>
    match t with
    | leftParen => nameof (depth + 1) angles last ts
    | rightParen =>
      match depth with
      | 0 => last.map (·, ts)
      | depth + 1 => nameof depth angles last ts
    | other '<' => nameof depth (angles + 1) last ts
    | other '>' => nameof depth (angles - 1) last ts
    | name n => nameof depth angles (if depth = 0 ∧ angles = 0 then some n else last) ts
    | _ => nameof depth angles last ts

/-- The rest of a dotted path. -/
def path (first : String) : List ConstantToken → Option (String × List ConstantToken)
  | dot :: name n :: ts => path (first ++ "." ++ n) ts
  | dot :: _ => none
  | ts => some (first, ts)

/-- A path, in front of which `global::` says nothing. -/
def fullPath (first : String) (ts : List ConstantToken) : Option (String × List ConstantToken) :=
  match ts with
  | colons :: rest =>
    if first = "global" then
      match rest with
      | name n :: rest => path n rest
      | _ => none
    else path first ts
  | _ => path first ts

/-- How a path is given the value of the constant it names. -/
abbrev Lookup := String → Option String

def term (lookup : Lookup) (sum : List ConstantToken → Option (String × List ConstantToken)) :
    List ConstantToken → Option (String × List ConstantToken)
  | text value :: ts => some (.ofList value, ts)
  | leftParen :: ts =>
    match sum ts with
    | some (value, rightParen :: ts) => some (value, ts)
    | _ => none
  | name "nameof" :: leftParen :: ts => nameof 0 0 none ts
  | name first :: ts => do
    let (path, ts) ← fullPath first ts
    return (← lookup path, ts)
  | _ => none

/-- A sum and what follows it. The number bounds how many terms are read; the number of tokens is
always enough. -/
def sum (lookup : Lookup) : Nat → List ConstantToken → Option (String × List ConstantToken)
  | 0, _ => none
  | n + 1, ts => do
    let (value, ts) ← term lookup (sum lookup n) ts
    match ts with
    | plus :: ts =>
      let (more, ts) ← sum lookup n ts
      return (value ++ more, ts)
    | ts => return (value, ts)

/-- The value of a whole expression. -/
def value? (lookup : Lookup) (expression : String) : Option String := do
  let tokens ← scan expression.toList
  let (value, rest) ← sum lookup (tokens.length + 1) tokens
  if rest.isEmpty then some value else none

/-- The value of an expression in which references nest to less than a given depth. -/
def valueWithin (m : Model) : Nat → Scope → String → Option String
  | 0, _, _ => none
  | n + 1, s, expression =>
    value? (fun path => do
      let c ← (m.candidates s path).findSome? m.constant?
      valueWithin m n c.scope c.value) expression

/-- References are followed this deep from the expression itself. -/
def maxDepth : Nat := 16

end ConstantExpr

/-- The string that a constant expression in a scope stands for. -/
def Model.constantValue (m : Model) (s : Scope) (expression : String) : Option String :=
  ConstantExpr.valueWithin m (ConstantExpr.maxDepth + 1) s expression

end TaskWrappers
