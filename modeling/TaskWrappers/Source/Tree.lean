import TaskWrappers.Declaration.Basic
import TaskWrappers.Source.Pattern

/-!
# Syntax trees

A source file as a tree of items. The tree keeps what shapes declarations as it is written, and
everything else, such as statements, properties and operators, as an item without content. The
branches of a conditional directive nest: an `#else` is the last item of the branch before it.
-/

namespace TaskWrappers.Source

/-- An attribute with the texts of its arguments. -/
structure Application where
  name : String
  arguments : List String
  extent : Extent

structure ParameterForm where
  name : String
  type : String
  attributes : List Application
  modifiers : List String

structure MethodForm where
  name : String
  returnType : String
  parameters : List ParameterForm
  attributes : List Application
  modifiers : List String
  extent : Extent

/-- A field with the texts of its declarators. -/
structure FieldForm where
  type : String
  declarators : List String
  modifiers : List String

/-- A type without its members. The bases are the texts between the commas of the base list, and
each comment beside them counts as one more. -/
structure TypeForm where
  name : String
  kind : TypeKind
  arity : Nat
  modifiers : List String
  attributes : List Application
  bases : List String
  extent : Extent

inductive Item where
  | usingLine (text : String)
  | spaceBlock (name : String) (body : List Item)
  /-- A namespace that ends in a semicolon. What it covers stands behind it, not inside. -/
  | spaceLine (name : String)
  | conditional (body : List Item)
  | type (form : TypeForm) (members : List Item)
  | method (form : MethodForm)
  | field (form : FieldForm)
  | other

/-- A file's items and the first damage met in reading them. -/
structure Tree where
  items : List Item
  damage : Option Extent

end TaskWrappers.Source
