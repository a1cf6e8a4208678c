import TaskWrappers.Catalog
import TaskWrappers.Scope
import TaskWrappers.Text.Cut

/-!
# The declarations of a pass

All types and constants that the files of a pass declare, on top of the framework's. A type is
found by its full name and number of type parameters, a constant by its full name, and where two
declarations share them the later one counts. A reference is looked up under every full name it may
stand for, in order: enclosing types and namespaces from the inside out, the name as it is written,
imports, and the targets of an alias that its first part names.
-/

namespace TaskWrappers

structure KnownType where
  fullName : String
  arity : Nat
  space : Option String
  isReference : Bool
  deriving DecidableEq

/-- A constant's text and the scope in which it is read. -/
structure KnownConstant where
  fullName : String
  value : String
  scope : Scope

/-- The known types and constants, latest first. -/
structure Model where
  types : List KnownType
  constants : List KnownConstant
  globalUsings : List Using
  implicitSpaces : List String

namespace KnownType

def ofFramework (t : FrameworkType) : KnownType :=
  ⟨t.fullName, t.arity, some t.space, t.isReference⟩

def ofDecl (d : TypeDecl) : KnownType :=
  ⟨d.fullName, d.arity, d.space, d.kind.isReference⟩

end KnownType

def KnownConstant.ofDecl (file : SourceFile) (d : TypeDecl) : List KnownConstant :=
  d.constants.map fun c => ⟨d.fullName ++ "." ++ c.name, c.value, .inside file d⟩

namespace Model

def build (files : List SourceFile) (implicitSpaces : List String) : Model where
  types :=
    (files.flatMap fun f => f.types.map .ofDecl).reverse
      ++ Catalog.frameworkTypes.map .ofFramework
  constants := (files.flatMap fun f => f.types.flatMap (KnownConstant.ofDecl f)).reverse
  globalUsings := files.flatMap fun f => f.usings.filter (·.isGlobal)
  implicitSpaces := implicitSpaces

def type? (m : Model) (fullName : String) (arity : Nat) : Option KnownType :=
  m.types.find? fun t => t.fullName == fullName && t.arity == arity

def constant? (m : Model) (fullName : String) : Option KnownConstant :=
  m.constants.find? (·.fullName == fullName)

end Model

namespace Scope

def dotted (parts : List String) : String := ".".intercalate parts

/-- The non-empty initial parts of a list, longest first. -/
def outward (parts : List String) : List (List String) :=
  (List.range parts.length).map fun k => parts.take (parts.length - k)

/-- The names under which an enclosing type may declare `name`, from the innermost type out. -/
def inTypes (s : Scope) (name : String) : List String :=
  (outward s.chain).map fun types => dotted (s.space.toList ++ types) ++ "." ++ name

/-- The names under which an enclosing namespace may declare `name`, from the innermost out. -/
def inSpaces (s : Scope) (name : String) : List String :=
  match s.space with
  | none => []
  | some space =>
    (outward (Text.dotParts space)).map fun parts => dotted parts ++ "." ++ name

end Scope

namespace Model

/-- The directives that are in force in a scope, those of its own file first. -/
def usingsIn (m : Model) (s : Scope) : List Using :=
  s.usings ++ m.globalUsings

/-- The name that a directive imports; a namespace is imported only for names without dots. -/
def imported? (name : String) (isSimple : Bool) (u : Using) : Option String :=
  match u.kind with
  | .space => if isSimple then some (u.target ++ "." ++ name) else none
  | .static => some (u.target ++ "." ++ name)
  | .aliased _ => none

/-- Every full name that a dotted name may stand for, in the order of lookup. -/
def candidates (m : Model) (s : Scope) (name : String) : List String :=
  let usings := m.usingsIn s
  let cut := Text.cut? (· == '.') name.toList
  s.inTypes name ++ s.inSpaces name ++ [name]
    ++ usings.filterMap (imported? name cut.isNone)
    ++ match cut with
      | none => m.implicitSpaces.map (· ++ "." ++ name)
      | some (first, rest) =>
        (usings.filter (·.isAlias (.ofList first))).map (·.target ++ "." ++ .ofList rest)

end Model

end TaskWrappers
