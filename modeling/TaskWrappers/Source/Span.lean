/-!
# Places in source files

Lines and columns count from zero and columns count bytes of UTF-8; only the form shown to people
counts from one.
-/

namespace TaskWrappers

structure Position where
  line : Nat
  column : Nat
  deriving DecidableEq, Inhabited

namespace Position

def zero : Position := ⟨0, 0⟩

def afterChar (p : Position) (c : Char) : Position :=
  if c = '\n' then ⟨p.line + 1, 0⟩ else ⟨p.line, p.column + c.utf8Size⟩

/-- The position after a stretch of text that starts at `p`. -/
def advance (p : Position) (cs : List Char) : Position :=
  cs.foldl afterChar p

end Position

structure Span where
  file : String
  start : Position
  stop : Position
  deriving DecidableEq, Inhabited

namespace Span

/-- File, line and column as an editor shows them. -/
def print (s : Span) : String :=
  s.file ++ ":" ++ toString (s.start.line + 1) ++ ":" ++ toString (s.start.column + 1)

end Span

end TaskWrappers
