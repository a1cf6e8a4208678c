import TaskWrappers.Text.Cut

/-!
# Paths

A path is kept as it was written, since that is how it is shown. What it means shows in its parts:
repeated separators and parts that stay in place are not among them, except for a dot that opens
the path.
-/

namespace TaskWrappers

structure Path where
  text : String
  deriving DecidableEq

namespace Path

inductive Part where
  | root
  | here
  | up
  | name (text : String)
  deriving DecidableEq

def Part.text : Part → String
  | root => "/"
  | here => "."
  | up => ".."
  | name s => s

/-- What one segment between separators means, if anything. -/
def part? (segment : List Char) : Option Part :=
  match segment with
  | [] | ['.'] => none
  | ['.', '.'] => some .up
  | s => some (.name (.ofList s))

def segments (cs : List Char) : List (List Char) :=
  Text.split (· == '/') cs

/-- The part that a path opens with, if it is a root or a dot, and the text behind it. -/
def opening : List Char → Option Part × List Char
  | '/' :: cs => (some .root, cs)
  | ['.'] => (some .here, [])
  | '.' :: '/' :: cs => (some .here, '/' :: cs)
  | cs => (none, cs)

def parts (p : Path) : List Part :=
  let (first, body) := opening p.text.toList
  first.toList ++ (segments body).filterMap part?

def isAbsolute (p : Path) : Bool :=
  p.text.toList.head? == some '/'

/-- The path `p` taken from `base`: an absolute path leaves it. -/
def join (base p : Path) : Path :=
  if p.isAbsolute || base.text.isEmpty then p
  else if base.text.toList.getLast? == some '/' then ⟨base.text ++ p.text⟩
  else ⟨base.text ++ "/" ++ p.text⟩

def dropIdle (segments : List (List Char)) : List (List Char) :=
  (segments.reverse.dropWhile fun s => (part? s).isNone).reverse

/-- The path without its last part; a bare root has none, nor has the empty path. -/
def parent? (p : Path) : Option Path :=
  let (first, body) := opening p.text.toList
  match dropIdle (segments body) with
  | [] => if first = some .here then some ⟨""⟩ else none
  | kept =>
    let outer := dropIdle kept.dropLast
    some ⟨(first.map (·.text)).getD "" ++ .ofList (['/'].intercalate outer)⟩

/-- The name that a path ends in. -/
def fileName? (p : Path) : Option String :=
  match p.parts.getLast? with
  | some (.name s) => some s
  | _ => none

/-- What follows the last dot of the file name, if something comes before that dot. -/
def extension? (p : Path) : Option String := do
  let name ← p.fileName?
  let (before, after) ← Text.cutLast? (· == '.') name.toList
  if before.isEmpty then none else some (.ofList after)

/-- The parts that lead somewhere: `./x` and `x` name the same place. -/
def steps (p : Path) : List Part :=
  p.parts.filter (· != .here)

/-- Whether `p` lies at or below `base`, as far as their texts tell. -/
def isWithin (p base : Path) : Bool :=
  base.steps.isPrefixOf p.steps

/-- How many parts two lists have in common at their start. -/
def commonLength : List Part → List Part → Nat
  | a :: as, b :: bs => if a = b then commonLength as bs + 1 else 0
  | _, _ => 0

/-- An absolute path as seen from the directory `home`; a relative path stays as it is. -/
def seenFrom (home : List String) (p : Path) : Path :=
  if p.isAbsolute then
    let base := .root :: home.map .name
    let shared := commonLength p.parts base
    let climb := List.replicate (base.length - shared) Part.up
    ⟨"/".intercalate ((climb ++ p.parts.drop shared).map (·.text))⟩
  else p

end Path

end TaskWrappers
