import TaskWrappers.Task

/-!
# Warnings

Conditions under which less is generated than was asked for. None of them stops a pass.
-/

namespace TaskWrappers

inductive Warning where
  | nonConstantName (declaration expression fallback : String) (span : Span)
  | duplicateName (kind : TaskKind) (name kept skipped : String)
  | invalidName (name declaration : String)
  | syntaxDamage (span : Span)
  deriving DecidableEq

namespace Warning

def message : Warning → String
  | nonConstantName declaration expression fallback _ =>
    "Task name for '" ++ declaration ++ "' is not a compile-time constant (" ++ expression
      ++ "); using '" ++ fallback ++ "'"
  | duplicateName kind name _ skipped =>
    kind.title ++ " name '" ++ name ++ "' is declared more than once; skipping '" ++ skipped ++ "'"
  | invalidName name declaration =>
    "Task name '" ++ name ++ "' on '" ++ declaration
      ++ "' is not a valid C# identifier; no wrappers generated"
  | syntaxDamage span =>
    "Syntax errors in " ++ span.file ++ "; declarations in the damaged region may be missed"

def code : Warning → String
  | nonConstantName .. => "durabletask::names::non_constant"
  | duplicateName .. => "durabletask::names::duplicate"
  | invalidName .. => "durabletask::names::invalid_identifier"
  | syntaxDamage _ => "durabletask::parse::recovered"

def help : Warning → Option String
  | nonConstantName .. =>
    some "Pass a string literal, a nameof() expression or a const string field"
  | duplicateName .. =>
    some ("Task names must be unique per kind. Rename one of them or override it with "
      ++ "[DurableTask(\"...\")]")
  | invalidName .. => some "Generated wrappers embed the task name in method names"
  | syntaxDamage _ => none

end Warning

end TaskWrappers
