import TaskWrappers.Declaration.Basic

/-!
# Scopes

Where a reference stands: the namespace, the types around it and the directives of its file.
-/

namespace TaskWrappers

/-- The namespace and enclosing types of a reference, outermost first, and its file's directives. -/
structure Scope where
  space : Option String
  chain : List String
  usings : List Using

namespace Scope

/-- No namespace and no directives, so that only full names resolve. -/
def global : Scope := ⟨none, [], []⟩

/-- The scope of a declaration's body and base list. -/
def inside (file : SourceFile) (decl : TypeDecl) : Scope :=
  ⟨decl.space, decl.containers ++ [decl.name], file.usings⟩

end Scope

namespace Using

def isAlias (u : Using) (name : String) : Bool :=
  match u.kind with
  | .aliased a => a == name
  | _ => false

/-- The target of the first directive that gives a name to something. -/
def aliasTarget? (usings : List Using) (name : String) : Option String :=
  (usings.find? (·.isAlias name)).map (·.target)

end Using

end TaskWrappers
