import TaskWrappers.Config.Basic
import TaskWrappers.Text.CodePoint

/-!
# Configuration files

A configuration file is a TOML document. Every setting is a text or a list of texts at the top
level, so a document with any other value, with a table or with a dotted key gives no
configuration, whatever it says. Readers give back what follows what they read.
-/

namespace TaskWrappers.Toml

open Text

def isBlank (c : Char) : Bool := c == ' ' || c == '\t'

/-- Characters that may stand in a line: all but the control characters, of which only the tab. -/
def isInLine (c : Char) : Bool :=
  c == '\t' || (' ' ≤ c && c != '\x7f')

def isBareKey (c : Char) : Bool :=
  isAsciiLetter c || isAsciiDigit c || c == '_' || c == '-'

def skipBlanks (cs : List Char) : List Char :=
  cs.dropWhile isBlank

def newline? : List Char → Option (List Char)
  | '\n' :: cs => some cs
  | '\r' :: '\n' :: cs => some cs
  | _ => none

def skipNewline (cs : List Char) : List Char :=
  (newline? cs).getD cs

/-- Skips blanks, line ends and comments. -/
def skipLines (inComment : Bool) : List Char → List Char
  | '\r' :: '\n' :: cs => skipLines false cs
  | '\n' :: cs => skipLines false cs
  | '#' :: cs => skipLines true cs
  | c :: cs =>
    if isBlank c || (inComment && isInLine c) then skipLines inComment cs else c :: cs
  | [] => []

/-- What follows the line, if nothing but blanks and a comment is left on it. -/
def lineEnd? (cs : List Char) : Option (List Char) :=
  match skipBlanks cs with
  | [] => some []
  | '#' :: cs =>
    match cs.dropWhile isInLine with
    | [] => some []
    | cs => newline? cs
  | cs => newline? cs

def escaped? : Char → Option Char
  | 'b' => some '\x08'
  | 't' => some '\t'
  | 'n' => some '\n'
  | 'f' => some '\x0c'
  | 'r' => some '\r'
  | '"' => some '"'
  | '\\' => some '\\'
  | _ => none

def numbered? (digits : List Char) : Option Char :=
  if digits.all isAsciiHexDigit then charOf? (hexValue digits) else none

/-- A text from after its opening quotation mark. -/
def basic : List Char → Option (List Char × List Char)
  | [] => none
  | '"' :: cs => some ([], cs)
  | '\\' :: 'u' :: a :: b :: c :: d :: cs => do
    let x ← numbered? [a, b, c, d]
    (basic cs).map fun (s, rest) => (x :: s, rest)
  | '\\' :: 'U' :: a :: b :: c :: d :: e :: f :: g :: h :: cs => do
    let x ← numbered? [a, b, c, d, e, f, g, h]
    (basic cs).map fun (s, rest) => (x :: s, rest)
  | '\\' :: c :: cs => do
    let x ← escaped? c
    (basic cs).map fun (s, rest) => (x :: s, rest)
  | c :: cs =>
    if c != '\\' && isInLine c then (basic cs).map fun (s, rest) => (c :: s, rest) else none

/-- What a run of marks that closes a text over several lines leaves: up to two marks more than the
three that close it belong to the text. -/
def closed (mark : Char) (cs : List Char) : List Char × List Char :=
  let extra := (cs.take 2).takeWhile (· == mark)
  (extra, cs.drop extra.length)

/-- A text over several lines from after its opening marks. A backslash at the end of a line drops
the blanks and line ends that follow; `dropping` says that this is going on. -/
def basicLines (dropping : Bool) : List Char → Option (List Char × List Char)
  | [] => none
  | '"' :: '"' :: '"' :: cs => some (closed '"' cs)
  | '\\' :: 'u' :: a :: b :: c :: d :: cs => do
    let x ← numbered? [a, b, c, d]
    (basicLines false cs).map fun (s, rest) => (x :: s, rest)
  | '\\' :: 'U' :: a :: b :: c :: d :: e :: f :: g :: h :: cs => do
    let x ← numbered? [a, b, c, d, e, f, g, h]
    (basicLines false cs).map fun (s, rest) => (x :: s, rest)
  | '\\' :: c :: cs =>
    match escaped? c with
    | some x => (basicLines false cs).map fun (s, rest) => (x :: s, rest)
    | none =>
      if (newline? (skipBlanks (c :: cs))).isSome then basicLines true (c :: cs) else none
  | '\r' :: '\n' :: cs =>
    if dropping then basicLines true cs
    else (basicLines false cs).map fun (s, rest) => ('\n' :: s, rest)
  | c :: cs =>
    if dropping && (isBlank c || c == '\n') then basicLines true cs
    else if c != '\\' && (isInLine c || c == '\n') then
      (basicLines false cs).map fun (s, rest) => (c :: s, rest)
    else none

/-- A text without escapes from after its opening mark. -/
def literal : List Char → Option (List Char × List Char)
  | [] => none
  | '\'' :: cs => some ([], cs)
  | c :: cs => if isInLine c then (literal cs).map fun (s, rest) => (c :: s, rest) else none

def literalLines : List Char → Option (List Char × List Char)
  | [] => none
  | '\'' :: '\'' :: '\'' :: cs => some (closed '\'' cs)
  | '\r' :: '\n' :: cs => (literalLines cs).map fun (s, rest) => ('\n' :: s, rest)
  | c :: cs =>
    if isInLine c || c == '\n' then (literalLines cs).map fun (s, rest) => (c :: s, rest)
    else none

/-- A text on one line. -/
def line? : List Char → Option (List Char × List Char)
  | '"' :: cs => basic cs
  | '\'' :: cs => literal cs
  | _ => none

def text? : List Char → Option (List Char × List Char)
  | '"' :: '"' :: '"' :: cs => basicLines false (skipNewline cs)
  | '\'' :: '\'' :: '\'' :: cs => literalLines (skipNewline cs)
  | cs => line? cs

/-- A key that is not dotted. -/
def key? (cs : List Char) : Option (List Char × List Char) :=
  match line? cs with
  | some found => some found
  | none =>
    let key := cs.takeWhile isBareKey
    if key.isEmpty then none else some (key, cs.drop key.length)

/-- The texts of a list from after its opening bracket; each step reads one of them. -/
def texts : Nat → List Char → Option (List String × List Char)
  | 0, _ => none
  | n + 1, cs =>
    match skipLines false cs with
    | ']' :: rest => some ([], rest)
    | cs => do
      let (s, rest) ← text? cs
      match skipLines false rest with
      | ',' :: rest => (texts n rest).map fun (ss, rest) => (.ofList s :: ss, rest)
      | ']' :: rest => some ([.ofList s], rest)
      | _ => none

def setting? : List Char → Option (Config.Setting × List Char)
  | '[' :: cs => (texts cs.length cs).map fun (ss, rest) => (.texts ss, rest)
  | cs => (text? cs).map fun (s, rest) => (.text (.ofList s), rest)

/-- The key and the value on a line, and what follows the line. -/
def entry? (cs : List Char) : Option ((String × Config.Setting) × List Char) := do
  let (key, rest) ← key? (skipBlanks cs)
  match skipBlanks rest with
  | '=' :: rest =>
    let (setting, rest) ← setting? (skipBlanks rest)
    let rest ← lineEnd? rest
    return ((.ofList key, setting), rest)
  | _ => none

/-- The entries of a document; each step reads one line. -/
def entries : Nat → List Char → Option (List (String × Config.Setting))
  | _, [] => some []
  | 0, _ :: _ => none
  | n + 1, c :: cs =>
    match lineEnd? (c :: cs) with
    | some rest => entries n rest
    | none => do
      let (entry, rest) ← entry? (c :: cs)
      (entries n rest).map (entry :: ·)

def skipMark : List Char → List Char
  | '\ufeff' :: cs => cs
  | cs => cs

/-- The configuration that a document gives; no key may come twice. -/
def read (document : String) : Option Config := do
  let cs := skipMark document.toList
  let found ← entries cs.length cs
  if (found.map (·.1)).Nodup then
    found.foldlM (fun c (key, setting) => c.set? key setting) Config.standard
  else none

end TaskWrappers.Toml
