import TaskWrappers.Marker
import TaskWrappers.TypeExpr.Reader

/-!
# Candidates

Declarations that have the form of a task, before anything about them is resolved: classes with a
generic task base, and methods with a function attribute and a trigger among their parameters.
-/

namespace TaskWrappers

inductive Candidate where
  /-- A class with the type arguments of its base, none where one is left out. -/
  | task (kind : TaskKind) (file : SourceFile) (decl : TypeDecl) (args : List (Option TypeExpr))
  | function (file : SourceFile) (decl : TypeDecl) (method : Method) (marker : Attribute)
      (trigger : Parameter)

def TypeArg.type? : TypeArg → Option TypeExpr
  | .omitted => none
  | .given type => some type

/-- The kind of task and the type arguments of a base that makes a class a task. -/
def taskBase? (base : String) : Option (TaskKind × List (Option TypeExpr)) :=
  match TypeExpr.read base with
  | .ok (.named _ _ (.generic name first rest)) =>
    (TaskKind.ofBaseName? name).map (·, (first :: rest).map TypeArg.type?)
  | _ => none

namespace TypeDecl

/-- A class or record is a task by the first of its bases that makes it one, unless it is abstract
or generic. -/
def taskCandidate? (file : SourceFile) (d : TypeDecl) : Option Candidate :=
  if !d.kind.isDerivable || d.modifiers.contains "abstract" || 0 < d.arity then none
  else (d.bases.findSome? taskBase?).map fun (kind, args) => .task kind file d args

def functionCandidate? (file : SourceFile) (d : TypeDecl) (m : Method) : Option Candidate := do
  let marker ← m.attributes.find? (Marker.function.isMeant ·.name)
  let trigger ← m.parameters.find? (·.attributes.any (Marker.activityTrigger.isMeant ·.name))
  return .function file d m marker trigger

def candidates (file : SourceFile) (d : TypeDecl) : List Candidate :=
  (d.taskCandidate? file).toList ++ d.methods.filterMap (d.functionCandidate? file)

end TypeDecl

/-- The candidates of all files in the order of their declarations. -/
def Candidate.scan (files : List SourceFile) : List Candidate :=
  files.flatMap fun f => f.types.flatMap (·.candidates f)

end TaskWrappers
