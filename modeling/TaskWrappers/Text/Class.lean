import TaskWrappers.Text.Edges

/-!
# Classes of characters

The classes that decide where names start and end and what counts as white space. Each is settled
by plain comparisons for the first 128 code points and by its list of edges beyond them, so that
the common case never looks at a table.
-/

namespace TaskWrappers.Text

/-- Membership in the class whose edges are listed: an odd number of them lie at or below. -/
def inEdges (edges : List Nat) (n : Nat) : Bool :=
  (edges.takeWhile (· ≤ n)).length % 2 == 1

def isAsciiLetter (c : Char) : Bool :=
  ('a' ≤ c && c ≤ 'z') || ('A' ≤ c && c ≤ 'Z')

def isAsciiDigit (c : Char) : Bool :=
  '0' ≤ c && c ≤ '9'

def isAsciiHexDigit (c : Char) : Bool :=
  isAsciiDigit c || ('a' ≤ c && c ≤ 'f') || ('A' ≤ c && c ≤ 'F')

def isLetter (c : Char) : Bool :=
  if c.toNat < 128 then isAsciiLetter c else inEdges alphabeticEdges c.toNat

/-- Numbers of every kind: digits, fractions, superscripts and letter numbers. -/
def isNumber (c : Char) : Bool :=
  if c.toNat < 128 then isAsciiDigit c
  else inEdges decimalDigitEdges c.toNat || inEdges otherNumberEdges c.toNat

def isSpace (c : Char) : Bool :=
  if c.toNat < 128 then c == ' ' || ('\t' ≤ c && c ≤ '\r')
  else inEdges whiteSpaceEdges c.toNat

def isNameStart (c : Char) : Bool :=
  isLetter c || c == '_'

def isNameRest (c : Char) : Bool :=
  isLetter c || isNumber c || c == '_'

/-- Word characters, between which and anything else a word boundary lies: letters, marks, decimal
digits, connectors and the two joiners. -/
def isWord (c : Char) : Bool :=
  if c.toNat < 128 then isAsciiLetter c || isAsciiDigit c || c == '_'
  else inEdges alphabeticEdges c.toNat || inEdges markEdges c.toNat
    || inEdges decimalDigitEdges c.toNat || inEdges connectorEdges c.toNat
    || c.toNat == 0x200C || c.toNat == 0x200D

/-- Letters that can open a word of source text: marks that count as letters cannot. -/
def isWordStart (c : Char) : Bool :=
  if c.toNat < 128 then isAsciiLetter c || c == '_'
  else inEdges alphabeticEdges c.toNat && !inEdges markEdges c.toNat

/-- Letters and digits that have no shape of their own, only one on the character before. -/
def isJoined (c : Char) : Bool :=
  128 ≤ c.toNat && inEdges joinedLetterEdges c.toNat

def lowerAscii (c : Char) : Char :=
  if 'A' ≤ c && c ≤ 'Z' then Char.ofNat (c.toNat + 32) else c

end TaskWrappers.Text
