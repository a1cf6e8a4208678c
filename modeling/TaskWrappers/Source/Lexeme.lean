import TaskWrappers.Source.Span
import TaskWrappers.Text.Class

/-!
# Lexemes of C# source

Source text falls into lexemes, each of which keeps the gap before it: blanks, comments and the
directives that stand between declarations without shaping them. So the text of any run of lexemes
can be put together again from the run alone. Strings with holes are read with a stack of modes:
inside the quotes there are chunks of text, inside a hole there is code.
-/

namespace TaskWrappers

inductive Trivia where
  | blank (text : String)
  | comment (text : String)
  | directive (text : String)
  deriving DecidableEq

def Trivia.text : Trivia → String
  | blank t => t
  | comment t => t
  | directive t => t

inductive LexemeKind where
  | word
  | number
  | character
  | string
  | symbol
  | conditional
  | quoteOpen
  | quoteText
  | quoteClose
  | holeOpen
  | holeClose
  | bad
  deriving DecidableEq

structure Lexeme where
  kind : LexemeKind
  text : String
  gap : List Trivia
  /-- Where the gap starts, which is where the lexeme before ends. -/
  before : Position
  start : Position
  stop : Position

namespace Lexeme

/-- How an interpolated string is quoted: verbatim or not, how many quotation marks close it when
it is raw, and how many braces open a hole. -/
structure Quote where
  verbatim : Bool
  marks : Nat
  braces : Nat

namespace Quote

def isRaw (q : Quote) : Bool := 3 ≤ q.marks

end Quote

/-- What the scanner is inside of: the text of a string, one of its holes with the brackets open
there, or the format after a hole's colon. -/
inductive Mode where
  | text (quote : Quote)
  | hole (quote : Quote) (depth : Nat)
  | format (quote : Quote)

inductive PieceKind where
  | trivia (make : String → Trivia)
  | lexeme (kind : LexemeKind)

/-- The next piece of text: what it is, how many characters follow its first one, and the modes
after it. -/
structure Piece where
  kind : PieceKind
  more : Nat
  modes : List Mode

def isBlank (c : Char) : Bool :=
  c == ' ' || ('\t' ≤ c && c ≤ '\r') || c == '\u00a0' || c == '\ufeff' || c == '\u3000'

def isWordRest (c : Char) : Bool :=
  Text.isWord c

def countWhile (p : Char → Bool) (cs : List Char) : Nat :=
  (cs.takeWhile p).length

/-- The characters up to and including the end of a block comment. -/
def blockCommentEnd : List Char → Option Nat
  | [] => none
  | '*' :: '/' :: _ => some 2
  | _ :: cs => (blockCommentEnd cs).map (· + 1)

/-- The characters up to and including the closing quotation mark of a plain string. -/
def plainEnd : List Char → Option Nat
  | [] => none
  | '"' :: _ => some 1
  | '\n' :: _ => none
  | ['\\'] => none
  | '\\' :: c :: cs => if c = '\n' then none else (plainEnd cs).map (· + 2)
  | _ :: cs => (plainEnd cs).map (· + 1)

def verbatimEnd : List Char → Option Nat
  | [] => none
  | '"' :: '"' :: cs => (verbatimEnd cs).map (· + 2)
  | '"' :: _ => some 1
  | _ :: cs => (verbatimEnd cs).map (· + 1)

/-- The characters up to and including the first run of `marks` quotation marks. -/
def rawEnd (marks : Nat) : List Char → Option Nat
  | [] => none
  | c :: cs =>
    if marks ≤ countWhile (· == '"') (c :: cs) then some marks
    else (rawEnd marks cs).map (· + 1)

/-- The letters and signs that a backslash can stand before. -/
def simpleEscapes : List Char := "abefnrtv'\"\\?0".toList

/-- The characters of an escape sequence after its backslash. -/
def escapeLength : List Char → Option Nat
  | 'x' :: cs =>
    let digits := min 4 (countWhile Text.isAsciiHexDigit cs)
    if 2 ≤ digits then some (1 + digits) else none
  | 'u' :: cs => if 4 ≤ countWhile Text.isAsciiHexDigit cs then some 5 else none
  | 'U' :: cs => if 8 ≤ countWhile Text.isAsciiHexDigit cs then some 9 else none
  | c :: _ => if simpleEscapes.contains c then some 1 else none
  | [] => none

def characterEnd : List Char → Option Nat
  | '\\' :: cs =>
    (escapeLength cs).bind fun n => if (cs.drop n).head? = some '\'' then some (n + 2) else none
  | c :: '\'' :: _ => if c = '\'' || c = '\n' then none else some 2
  | _ => none

/-- The digits that a text starts with. Underscores can stand among them but not end them. -/
def digitsLength (isDigit : Char → Bool) (cs : List Char) : Nat :=
  let run := cs.takeWhile fun c => isDigit c || c == '_'
  (run.reverse.dropWhile (· == '_')).length

/-- The same for digits that an underscore cannot open. -/
def decimalLength (cs : List Char) : Nat :=
  if (cs.head?.map Text.isAsciiDigit).getD false then digitsLength Text.isAsciiDigit cs else 0

def exponentLength (cs : List Char) : Nat :=
  match cs with
  | e :: cs =>
    let sign := if cs.head? == some '+' || cs.head? == some '-' then 1 else 0
    let digits := decimalLength (cs.drop sign)
    if (e == 'e' || e == 'E') && digits ≠ 0 then 1 + sign + digits else 0
  | [] => 0

/-- The letter that makes a number a floating-point or decimal one. -/
def realSuffixLength (cs : List Char) : Nat :=
  if (cs.head?.map "fFdDmM".toList.contains).getD false then 1 else 0

/-- The letters that make a whole number unsigned, long or both. -/
def wholeSuffixLength : List Char → Nat
  | a :: cs =>
    let isU (c : Char) := c == 'u' || c == 'U'
    let isL (c : Char) := c == 'l' || c == 'L'
    let second (p : Char → Bool) : Nat := if (cs.head?.map p).getD false then 2 else 1
    if isU a then second isL else if isL a then second isU else 0
  | [] => 0

/-- The fraction, exponent and suffix after a whole part. -/
def fractionLength (cs : List Char) : Nat :=
  let point := if cs.head? == some '.' then decimalLength (cs.drop 1) else 0
  let fraction := if point = 0 then 0 else 1 + point
  let exponent := exponentLength (cs.drop fraction)
  fraction + exponent + realSuffixLength (cs.drop (fraction + exponent))

/-- The digits after the mark of another base. -/
def markedLength : List Char → Nat
  | '0' :: x :: cs =>
    let digits :=
      if x == 'x' || x == 'X' then digitsLength Text.isAsciiHexDigit cs
      else if x == 'b' || x == 'B' then digitsLength (fun c => c == '0' || c == '1') cs
      else 0
    if digits = 0 then 0 else 2 + digits
  | _ => 0

/-- The number that a text starts with. -/
def numberLength (cs : List Char) : Nat :=
  let marked := markedLength cs
  let whole := decimalLength cs
  let fraction := fractionLength (cs.drop whole)
  if marked ≠ 0 then marked + wholeSuffixLength (cs.drop marked)
  else if fraction ≠ 0 then whole + fraction
  else whole + wholeSuffixLength (cs.drop whole)

/-- The symbols of more than one character. A run of `>` is left in pieces, which closing angle
brackets and shifts share. -/
def longSymbols : List (List Char) :=
  ["??=", "<<=", "=>", "==", "!=", "<=", "<<", "+=", "-=", "*=", "/=", "%=", "&=", "|=", "^=",
    "&&", "||", "??", "++", "--", "->", "::", ".."].map String.toList

def isSymbolChar (c : Char) : Bool :=
  "{}()[]<>.,;:?=+-*/%&|^!~".toList.contains c

/-- The characters after the first of the symbol that starts a text. -/
def symbolMore (cs : List Char) : Nat :=
  match longSymbols.find? (·.isPrefixOf cs) with
  | some s => s.length - 1
  | none => 0

/-- Directives that choose between declarations; all others only stand between them. -/
def conditionals : List String := ["if", "elif", "else", "endif"]

def plainDirectives : List String :=
  ["region", "endregion", "line", "pragma", "nullable", "error", "warning", "define", "undef"]

def isLineEnd (c : Char) : Bool := c == '\n' || c == '\r'

/-- Directives that have to say something. -/
def tellingDirectives : List String := ["if", "elif", "error", "warning", "define", "undef"]

/-- The directive in the line after a number sign. One that stands between declarations has to end
its line. -/
def directive (first : Bool) (cs : List Char) : PieceKind × Nat :=
  let length := countWhile (!isLineEnd ·) cs
  let blank (c : Char) : Bool := c == ' ' || c == '\t'
  let start := cs.dropWhile blank
  let word := String.ofList (start.takeWhile Text.isAsciiLetter)
  let isEmpty := ((start.drop word.length).take length).dropWhile blank |>.head?.all isLineEnd
  let isLast := (cs.drop length).isEmpty
  if word ∈ tellingDirectives && isEmpty then (.lexeme .bad, 0)
  else if word ∈ conditionals then (.lexeme .conditional, length)
  else if word ∈ plainDirectives && !isLast || (first && cs.head? = some '!') then
    (.trivia .directive, length)
  else (.lexeme .bad, 0)

/-- The suffix that makes a string one of bytes. -/
def suffixLength : List Char → Nat
  | 'u' :: '8' :: _ => 2
  | 'U' :: '8' :: _ => 2
  | _ => 0

/-- A whole string whose text after the first character is `cs`, its opening quotation included in
the `opening` characters. -/
def wholeString (modes : List Mode) (cs : List Char) (opening : Nat)
    (ending : List Char → Option Nat) : Piece :=
  match ending (cs.drop opening) with
  | some n => ⟨.lexeme .string, opening + n + suffixLength (cs.drop (opening + n)), modes⟩
  | none => ⟨.lexeme .bad, cs.length, modes⟩

def quotePiece (modes : List Mode) (cs : List Char) : Piece :=
  let marks := 1 + countWhile (· == '"') cs
  if marks = 2 then ⟨.lexeme .string, 1 + suffixLength (cs.drop 1), modes⟩
  else if 3 ≤ marks then wholeString modes cs (marks - 1) (rawEnd marks)
  else wholeString modes cs 0 plainEnd

/-- An interpolated string's opening after its dollar sign. -/
def interpolated? (modes : List Mode) (cs : List Char) : Option Piece :=
  let dollars := countWhile (· == '$') cs
  let rest := cs.drop dollars
  let marks := countWhile (· == '"') rest
  if 3 ≤ marks then
    some ⟨.lexeme .quoteOpen, dollars + marks, .text ⟨false, marks, dollars + 1⟩ :: modes⟩
  else if dollars ≠ 0 then none
  else match rest with
    | '"' :: _ => some ⟨.lexeme .quoteOpen, 1, .text ⟨false, 1, 1⟩ :: modes⟩
    | '@' :: '"' :: _ => some ⟨.lexeme .quoteOpen, 2, .text ⟨true, 1, 1⟩ :: modes⟩
    | _ => none

def deeper : List Mode → List Mode
  | .hole q depth :: ms => .hole q (depth + 1) :: ms
  | ms => ms

def shallower : List Mode → List Mode
  | .hole q depth :: ms => .hole q (depth - 1) :: ms
  | ms => ms

/-- The modes after a symbol in code. -/
def afterSymbol (c : Char) (modes : List Mode) : List Mode :=
  if c = '(' || c = '[' || c = '{' then deeper modes
  else if c = ')' || c = ']' || c = '}' then shallower modes
  else modes

/-- The next piece of code. -/
def codePiece (first : Bool) (modes : List Mode) (c : Char) (cs : List Char) : Piece :=
  let bad : Piece := ⟨.lexeme .bad, 0, modes⟩
  let lexeme (k : LexemeKind) (n : Nat) : Piece := ⟨.lexeme k, n, modes⟩
  if isBlank c then ⟨.trivia .blank, countWhile isBlank cs, modes⟩
  else if c = '/' && cs.head? = some '/' then
    ⟨.trivia .comment, countWhile (!isLineEnd ·) cs, modes⟩
  else if c = '/' && cs.head? = some '*' then
    match blockCommentEnd (cs.drop 1) with
    | some n => ⟨.trivia .comment, 1 + n, modes⟩
    | none => lexeme .bad cs.length
  else if c = '#' then
    let (kind, n) := directive first cs
    ⟨kind, n, modes⟩
  else if c = '"' then quotePiece modes cs
  else if c = '\'' then (characterEnd cs).elim bad (lexeme .character)
  else if c = '$' then (interpolated? modes cs).getD bad
  else if c = '@' then
    match cs with
    | '"' :: _ => wholeString modes cs 1 verbatimEnd
    | '$' :: '"' :: _ => ⟨.lexeme .quoteOpen, 2, .text ⟨true, 1, 1⟩ :: modes⟩
    | d :: ds => if Text.isWordStart d then lexeme .word (1 + countWhile isWordRest ds) else bad
    | [] => bad
  else if Text.isAsciiDigit c || (c == '.' && (cs.head?.map Text.isAsciiDigit).getD false) then
    lexeme .number (numberLength (c :: cs) - 1)
  else if Text.isWordStart c then lexeme .word (countWhile isWordRest cs)
  else if isSymbolChar c then
    ⟨.lexeme .symbol, symbolMore (c :: cs), afterSymbol c modes⟩
  else bad

/-- How far a chunk of text reaches between the quotation marks of `q`. -/
def chunkLength (q : Quote) : List Char → Nat
  | [] => 0
  | c :: cs =>
    if q.isRaw then
      if c = '"' && q.marks ≤ countWhile (· == '"') (c :: cs) then 0
      else if c = '\x7b' && q.braces = countWhile (· == '\x7b') (c :: cs) then 0
      else chunkLength q cs + 1
    else match c, cs with
      | '\\', d :: ds =>
        if q.verbatim then chunkLength q (d :: ds) + 1
        else if d = '\n' then 0
        else chunkLength q ds + 2
      | '"', '"' :: ds => if q.verbatim then chunkLength q ds + 2 else 0
      | '"', _ => 0
      | '\x7b', '\x7b' :: ds => chunkLength q ds + 2
      | '\x7b', _ => 0
      | '\x7d', '\x7d' :: ds => chunkLength q ds + 2
      | '\x7d', _ => 0
      | '\n', ds => if q.verbatim then chunkLength q ds + 1 else 0
      | _, ds => chunkLength q ds + 1

/-- The next piece between the quotation marks of `q`. -/
def textPiece (q : Quote) (modes : List Mode) (c : Char) (cs : List Char) : Piece :=
  match chunkLength q (c :: cs) with
  | n + 1 => ⟨.lexeme .quoteText, n, .text q :: modes⟩
  | 0 =>
    if c = '"' then ⟨.lexeme .quoteClose, q.marks - 1, modes⟩
    else if c = '\x7b' then ⟨.lexeme .holeOpen, q.braces - 1, .hole q 0 :: .text q :: modes⟩
    else ⟨.lexeme .bad, 0, modes⟩

/-- The next piece at any place. A closing brace or a colon that no bracket in the hole encloses
belongs to the string around it. -/
def piece (first : Bool) (modes : List Mode) (c : Char) (cs : List Char) : Piece :=
  match modes with
  | .text q :: ms => textPiece q ms c cs
  | .format q :: ms =>
    if c = '\x7d' then ⟨.lexeme .holeClose, q.braces - 1, ms⟩
    else if c = '"' then ⟨.lexeme .bad, 0, ms⟩
    else ⟨.lexeme .quoteText, countWhile (fun d => d != '\x7d' && d != '"') cs, .format q :: ms⟩
  | .hole q 0 :: ms =>
    if c = '\x7d' then ⟨.lexeme .holeClose, q.braces - 1, ms⟩
    else if c = ':' && cs.head? ≠ some ':' then ⟨.lexeme .symbol, 0, .format q :: ms⟩
    else codePiece first modes c cs
  | _ => codePiece first modes c cs

/-- The lexemes from a place on, given the end of the lexeme before, the gap since then in reverse
and the modes. -/
def scanFrom (modes : List Mode) (before here : Position) (gap : List Trivia) :
    List Char → List Lexeme
  | [] => []
  | c :: cs =>
    let p := piece (here = .zero) modes c cs
    let chars := c :: cs.take p.more
    let stop := here.advance chars
    match p.kind with
    | .trivia make => scanFrom p.modes before stop (make (.ofList chars) :: gap) (cs.drop p.more)
    | .lexeme kind =>
      ⟨kind, .ofList chars, gap.reverse, before, here, stop⟩
        :: scanFrom p.modes stop stop [] (cs.drop p.more)
termination_by cs => cs.length
decreasing_by all_goals simp only [List.length_cons, List.length_drop]; omega

/-- The lexemes of a source text. -/
def scan (source : String) : List Lexeme :=
  scanFrom [] .zero .zero [] source.toList

/-- The text of a run of lexemes, with the gaps between them. -/
def textOf : List Lexeme → String
  | [] => ""
  | l :: ls => ls.foldl (fun s l => s ++ String.join (l.gap.map Trivia.text) ++ l.text) l.text

end Lexeme

end TaskWrappers
