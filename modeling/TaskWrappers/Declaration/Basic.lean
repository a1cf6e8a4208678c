import TaskWrappers.Source.Span

/-!
# Declarations

What a source file declares, as far as tasks depend on it: its `using` directives and its types
with their base lists, attributes, methods and constants. Types are listed flat and each remembers
the types it is nested in, outermost first.
-/

namespace TaskWrappers

inductive TypeKind where
  | «class»
  | struct
  | interface
  | enum
  | record
  | recordStruct
  | delegate
  deriving DecidableEq

namespace TypeKind

def isReference : TypeKind → Bool
  | struct | enum | recordStruct => false
  | _ => true

/-- Whether the kind can derive from a class. -/
def isDerivable : TypeKind → Bool
  | «class» | record => true
  | _ => false

end TypeKind

inductive UsingKind where
  | space
  | static
  | aliased (name : String)
  deriving DecidableEq

structure Using where
  kind : UsingKind
  target : String
  isGlobal : Bool
  deriving DecidableEq

/-- An argument of an attribute. -/
structure Argument where
  name : Option String
  expression : String
  deriving DecidableEq

structure Attribute where
  name : String
  arguments : List Argument
  span : Span
  deriving DecidableEq

def Attribute.firstPositional (a : Attribute) : Option Argument :=
  a.arguments.find? (·.name.isNone)

structure Parameter where
  name : String
  type : String
  attributes : List Attribute
  modifiers : List String
  deriving DecidableEq

structure Method where
  name : String
  returnType : String
  parameters : List Parameter
  attributes : List Attribute
  modifiers : List String
  span : Span
  deriving DecidableEq

/-- A constant field with the text of its value. -/
structure Constant where
  name : String
  type : String
  value : String
  deriving DecidableEq

structure TypeDecl where
  name : String
  kind : TypeKind
  space : Option String
  containers : List String
  arity : Nat
  modifiers : List String
  attributes : List Attribute
  bases : List String
  methods : List Method
  constants : List Constant
  span : Span
  deriving DecidableEq

namespace TypeDecl

/-- The namespace, the enclosing types and the name, with dots between. -/
def fullName (d : TypeDecl) : String :=
  ".".intercalate (d.space.toList ++ d.containers ++ [d.name])

end TypeDecl

structure SourceFile where
  path : String
  usings : List Using
  types : List TypeDecl
  damage : Option Span

end TaskWrappers
