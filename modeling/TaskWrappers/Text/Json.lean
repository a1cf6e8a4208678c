import TaskWrappers.Text.Class

/-!
# JSON documents

Documents of texts, natural numbers, truth values, lists and objects, and their indented form. An
object keeps its members in the order they are given in.
-/

namespace TaskWrappers

inductive Document where
  | null
  | truth (b : Bool)
  | number (n : Nat)
  | text (s : String)
  | list (items : List Document)
  | object (members : List (String × Document))

namespace Document

def optional (s : Option String) : Document := s.elim null text

def texts (ss : List String) : Document := list (ss.map text)

/-- Two hexadecimal digits. -/
def hexPair (n : Nat) : List Char := [Nat.digitChar (n / 16), Nat.digitChar (n % 16)]

def escaped (c : Char) : List Char :=
  match c with
  | '"' => ['\\', '"']
  | '\\' => ['\\', '\\']
  | '\n' => ['\\', 'n']
  | '\r' => ['\\', 'r']
  | '\t' => ['\\', 't']
  | '\x08' => ['\\', 'b']
  | '\x0c' => ['\\', 'f']
  | c => if c < ' ' then ['\\', 'u', '0', '0'] ++ hexPair c.toNat else [c]

def quote (s : String) : String :=
  .ofList ('"' :: s.toList.flatMap escaped ++ ['"'])

def indent (depth : Nat) : String :=
  "\n" ++ .ofList (List.replicate (2 * depth) ' ')

/-- Items between brackets, each on a line of its own. -/
def bracket (depth : Nat) (left right : String) (items : List String) : String :=
  if items.isEmpty then left ++ right
  else left ++ ",".intercalate (items.map (indent (depth + 1) ++ ·)) ++ indent depth ++ right

mutual

/-- The indented form at some depth. -/
def printAt (depth : Nat) : Document → String
  | null => "null"
  | truth b => if b then "true" else "false"
  | number n => toString n
  | text s => quote s
  | list items => bracket depth "[" "]" (printItems (depth + 1) items)
  | object members => bracket depth "\x7b" "\x7d" (printMembers (depth + 1) members)

def printItems (depth : Nat) : List Document → List String
  | [] => []
  | d :: ds => d.printAt depth :: printItems depth ds

def printMembers (depth : Nat) : List (String × Document) → List String
  | [] => []
  | (key, d) :: rest => (quote key ++ ": " ++ d.printAt depth) :: printMembers depth rest

end

def print (d : Document) : String := d.printAt 0

end Document

end TaskWrappers
