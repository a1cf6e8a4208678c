import TaskWrappers.Declaration.Basic
import TaskWrappers.Text.Cut

/-!
# Declarations from their texts

What the text of a `using` directive, of an attribute's argument, of a base and of a constant's
declarator says.
-/

namespace TaskWrappers

open Text

/-- The words in front of a directive's target, and what comes after them. -/
def Using.leadingWords : Nat → List Char → List String × List Char
  | 0, cs => ([], cs)
  | n + 1, cs =>
    match cut? isSpace cs with
    | none => ([], cs)
    | some (word, tail) =>
      if String.ofList word ∈ ["global", "using", "unsafe", "static"] then
        let (words, rest) := leadingWords n (trimStart tail)
        (.ofList word :: words, rest)
      else ([], cs)

/-- The directive a text spells, with all white space taken out of its target. -/
def Using.ofText? (text : String) : Option Using :=
  let body := trimEnd ((trim text.toList).reverse.dropWhile (· == ';')).reverse
  let (words, rest) := leadingWords body.length body
  let isGlobal := words.contains "global"
  let target (cs : List Char) : String := .ofList (withoutSpace cs)
  if rest.isEmpty then none
  else match cut? (· == '=') rest with
    | some (name, cs) => some ⟨.aliased (.ofList (trim name)), target cs, isGlobal⟩
    | none => some ⟨if words.contains "static" then .static else .space, target rest, isGlobal⟩

/-- An argument's name is the word in front of a single `=` or `:`. -/
def Argument.ofText (text : String) : Argument :=
  let cs := trim text.toList
  let (mark, tail) := match cs with
    | '@' :: tail => (['@'], tail)
    | _ => ([], cs)
  let word := tail.takeWhile isNameRest
  let positional : Argument := ⟨none, .ofList cs⟩
  let named (value : List Char) : Argument := ⟨some (.ofList word), .ofList (trim value)⟩
  if (mark ++ word).isEmpty then positional
  else match trimStart (tail.dropWhile isNameRest) with
    | '=' :: value => if value.head? = some '=' then positional else named value
    | ':' :: value => if value.head? = some ':' then positional else named value
    | _ => positional

/-- A base without the arguments of a primary constructor. -/
def baseName? (text : String) : Option String :=
  let cs := trim (text.toList.takeWhile (· != '('))
  if cs.isEmpty then none else some (.ofList cs)

/-- A declarator names a constant if it has a value. -/
def Constant.ofDeclarator? (type text : String) : Option Constant :=
  (cut? (· == '=') text.toList).map fun (name, value) =>
    ⟨.ofList (trim name), type, .ofList (trim value)⟩

end TaskWrappers
