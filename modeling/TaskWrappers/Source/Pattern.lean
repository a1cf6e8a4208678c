import TaskWrappers.Source.Lexeme

/-!
# Patterns of lexemes

A grammar is data: patterns that name rules, and a pattern for each rule. Reading tries the
alternatives of a choice in order and keeps the first that fits. A lenient cursor supplies what is
missing at the end of a block and remembers the first place where it had to.
-/

namespace TaskWrappers

inductive Pattern (ρ : Type) where
  /-- A word or symbol spelled this way. -/
  | text (spelling : String)
  /-- The same with nothing between it and the lexeme before. -/
  | tight (spelling : String)
  | kind (kind : LexemeKind)
  /-- A word that no list of reserved ones holds. -/
  | nameOutside (reserved : List String)
  /-- A directive that opens with this word. -/
  | directive (word : String)
  | semicolon
  | rule (name : ρ)
  | all (parts : List (Pattern ρ))
  | any (choices : List (Pattern ρ))
  | many (part : Pattern ρ)
  | maybe (part : Pattern ρ)
  | ahead (part : Pattern ρ)
  | absent (part : Pattern ρ)

instance {ρ : Type} : Coe String (Pattern ρ) := ⟨.text⟩

structure Extent where
  start : Position
  stop : Position

/-- What is still to be read, whether damage is mended on the way, and where it first was. -/
structure Cursor where
  rest : List Lexeme
  lenient : Bool
  damage : Option Extent

namespace Lexeme

def isSpelled (l : Lexeme) (spelling : String) : Bool :=
  (l.kind == .word || l.kind == .symbol) && l.text == spelling

/-- The word that opens a directive. -/
def directiveWord (l : Lexeme) : String :=
  .ofList (((l.text.toList.drop 1).dropWhile fun c => c == ' ' || c == '\t').takeWhile
    Text.isAsciiLetter)

end Lexeme

namespace Cursor

/-- Past one lexeme, if it passes the test. -/
def next (c : Cursor) (test : Lexeme → Bool) : Option Cursor :=
  match c.rest with
  | l :: ls => if test l then some { c with rest := ls } else none
  | [] => none

/-- Remembers damage unless there was some before. -/
def damaged (c : Cursor) (extent : Extent) : Cursor :=
  { c with damage := c.damage <|> extent }

def isAt (c : Cursor) (spelling : String) : Bool :=
  (c.rest.head?.map (·.isSpelled spelling)).getD false

/-- Past a semicolon, or in front of the closing brace that came instead of one. -/
def semicolon (c : Cursor) : Option Cursor :=
  match c.next (·.isSpelled ";") with
  | some c => some c
  | none =>
    match c.rest with
    | l :: _ =>
      if c.lenient && l.isSpelled "\x7d" then some (c.damaged ⟨l.before, l.before⟩) else none
    | [] => none

/-- The lexemes read between two cursors. -/
def lexemesTo (c later : Cursor) : List Lexeme :=
  match later.rest with
  | [] => c.rest
  | l :: _ => c.rest.takeWhile (·.start ≠ l.start)

def textTo (c later : Cursor) : String :=
  Lexeme.textOf (c.lexemesTo later)

/-- From the start of the first lexeme read to the end of the last. -/
def extentTo (c later : Cursor) : Extent :=
  let ls := c.lexemesTo later
  ⟨(ls.head?.map (·.start)).getD .zero, (ls.getLast?.map (·.stop)).getD .zero⟩

end Cursor

namespace Pattern

variable {ρ : Type}

/-- Reads what a pattern stands for. The number bounds how deep patterns nest. -/
def read (grammar : ρ → Pattern ρ) : Nat → Pattern ρ → Cursor → Option Cursor
  | 0, _, _ => none
  | n + 1, p, c =>
    match p with
    | text s => c.next (·.isSpelled s)
    | tight s => c.next fun l => l.isSpelled s && l.gap.isEmpty
    | kind k => c.next (·.kind == k)
    | nameOutside reserved => c.next fun l => l.kind == .word && !reserved.contains l.text
    | directive w => c.next fun l => l.kind == .conditional && l.directiveWord == w
    | semicolon => c.semicolon
    | rule r => read grammar n (grammar r) c
    | all ps => ps.foldlM (fun c p => read grammar n p c) c
    | any ps => ps.findSome? (fun p => read grammar n p c)
    | many p =>
      match read grammar n p c with
      | some c => read grammar n (many p) c
      | none => some c
    | maybe p => some ((read grammar n p c).getD c)
    | ahead p => (read grammar n p c).map fun _ => c
    | absent p => if (read grammar n p c).isNone then some c else none

/-- One or more, with commas between. -/
def commas (p : Pattern ρ) : Pattern ρ :=
  all [p, many (all [",", p])]

end Pattern

end TaskWrappers
