import TaskWrappers.Declaration.Text
import TaskWrappers.Source.Reader

/-!
# Declarations of a syntax tree

Nesting is flattened in document order: a type comes before the types inside it. Conditional
branches are transparent, wherever they stand, so the declarations of all branches count. A
namespace that ends in a semicolon covers the items after it, up to the end of what encloses it. A
namespace whose name is missing is passed over, with all that stands in it.
-/

namespace TaskWrappers

open Source

/-- A nested namespace's full name. -/
def joinSpace (outer : Option String) (inner : String) : String :=
  match outer with
  | some o => o ++ "." ++ inner
  | none => inner

/-- Whether a namespace has a name, white space apart. -/
def isNamed (name : String) : Bool := !(Text.joined name).isEmpty

/-- The namespace that is open behind the head of another one. -/
def openedSpace (outer : Option String) (name : String) : Option String :=
  if isNamed name then joinSpace outer (Text.joined name) else outer

def Extent.toSpan (e : Extent) (file : String) : Span := ⟨file, e.start, e.stop⟩

namespace Source

variable (file : String)

def Application.toAttribute (a : Application) : Attribute :=
  ⟨Text.joined a.name, a.arguments.map Argument.ofText, a.extent.toSpan file⟩

def ParameterForm.toParameter (p : ParameterForm) : Parameter :=
  ⟨p.name, p.type, p.attributes.map (·.toAttribute file), p.modifiers⟩

def MethodForm.toMethod (m : MethodForm) : Method :=
  ⟨m.name, m.returnType, m.parameters.map (·.toParameter file),
    m.attributes.map (·.toAttribute file), m.modifiers, m.extent.toSpan file⟩

/-- The constants of a field, which only a `const` field has. -/
def FieldForm.constants (f : FieldForm) : List Constant :=
  if f.modifiers.contains "const" then f.declarators.filterMap (Constant.ofDeclarator? f.type)
  else []

/-- The methods among a type's members, those in conditional branches included. -/
def methodsOf : List Item → List Method
  | [] => []
  | .method form :: is => form.toMethod file :: methodsOf is
  | .conditional body :: is => methodsOf body ++ methodsOf is
  | _ :: is => methodsOf is

def constantsOf : List Item → List Constant
  | [] => []
  | .field form :: is => form.constants ++ constantsOf is
  | .conditional body :: is => constantsOf body ++ constantsOf is
  | _ :: is => constantsOf is

def TypeForm.toDecl (form : TypeForm) (space : Option String) (containers : List String)
    (members : List Item) : TypeDecl where
  name := form.name
  kind := form.kind
  space := space
  containers := containers
  arity := form.arity
  modifiers := form.modifiers
  attributes := form.attributes.map (·.toAttribute file)
  bases := form.bases.filterMap baseName?
  methods := methodsOf file members
  constants := constantsOf members
  span := form.extent.toSpan file

/-- The types among a type's members, each followed by the types inside it. -/
def nestedTypes (space : Option String) : List String → List Item → List TypeDecl
  | _, [] => []
  | containers, .type form members :: is =>
    form.toDecl file space containers members
      :: (nestedTypes space (containers ++ [form.name]) members ++ nestedTypes space containers is)
  | containers, .conditional body :: is =>
    nestedTypes space containers body ++ nestedTypes space containers is
  | containers, _ :: is => nestedTypes space containers is

/-- The types among the items of a namespace. -/
def typesOf : Option String → List Item → List TypeDecl
  | _, [] => []
  | space, .type form members :: is =>
    form.toDecl file space [] members
      :: (nestedTypes file space [form.name] members ++ typesOf space is)
  | space, .spaceBlock name body :: is =>
    (if isNamed name then typesOf (openedSpace space name) body else []) ++ typesOf space is
  | space, .spaceLine name :: is => typesOf (openedSpace space name) is
  | space, .conditional body :: is => typesOf space body ++ typesOf space is
  | space, _ :: is => typesOf space is

/-- The directives of a file, those in namespaces included. -/
def usingsOf : List Item → List Using
  | [] => []
  | .usingLine text :: is => (Using.ofText? text).toList ++ usingsOf is
  | .spaceBlock name body :: is => (if isNamed name then usingsOf body else []) ++ usingsOf is
  | .conditional body :: is => usingsOf body ++ usingsOf is
  | _ :: is => usingsOf is

end Source

namespace SourceFile

def ofTree (path : String) (tree : Tree) : SourceFile :=
  ⟨path, usingsOf tree.items, typesOf path none tree.items, tree.damage.map (·.toSpan path)⟩

/-- The declarations of a source text. -/
def read (path source : String) : SourceFile :=
  ofTree path (Tree.read source)

end SourceFile

end TaskWrappers
