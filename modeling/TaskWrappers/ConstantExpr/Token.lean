import TaskWrappers.Text.CodePoint
import TaskWrappers.Text.Cut

/-!
# Tokens of constant expressions

Strings are read in all their written forms and stand for their value. Characters without a meaning
here still become tokens, since `nameof` passes over anything. Every reader gives back what follows
what it read, which is always shorter than what it was given.
-/

namespace TaskWrappers

inductive ConstantToken where
  | text (value : List Char)
  | name (name : String)
  | plus
  | leftParen
  | rightParen
  | dot
  | colons
  | other (c : Char)
  deriving DecidableEq

namespace ConstantToken

open Text

/-- The character after a backslash that stands for itself or a control character. -/
def simpleEscape? : Char → Option Char
  | 'n' => some '\n'
  | 't' => some '\t'
  | 'r' => some '\r'
  | '0' => some '\x00'
  | 'a' => some '\x07'
  | 'b' => some '\x08'
  | 'f' => some '\x0c'
  | 'v' => some '\x0b'
  | 'e' => some '\x1b'
  | '\\' => some '\\'
  | '"' => some '"'
  | '\'' => some '\''
  | _ => none

/-- The escape sequence after a backslash. -/
def escape : List Char → Option (Char × List Char)
  | [] => none
  | c :: cs =>
    if c = 'u' then codePoint 4 4 cs
    else if c = 'U' then codePoint 8 8 cs
    else if c = 'x' then codePoint 1 4 cs
    else (simpleEscape? c).map (·, cs)

theorem length_escape {cs rest : List Char} {c : Char} (h : escape cs = some (c, rest)) :
    rest.length < cs.length := by
  cases cs with
  | nil => cases h
  | cons d ds =>
    simp only [escape] at h
    simp only [List.length_cons]
    split at h
    · exact Nat.lt_succ_of_le (length_codePoint h)
    · split at h
      · exact Nat.lt_succ_of_le (length_codePoint h)
      · split at h
        · exact Nat.lt_succ_of_le (length_codePoint h)
        · obtain ⟨e, -, he⟩ := Option.map_eq_some_iff.1 h
          cases he
          exact Nat.lt_succ_self _

def isBrace (c : Char) : Bool := c == '\x7b' || c == '\x7d'

/-- The value of a plain string from after its opening quotation mark. In an interpolated string a
single brace starts a hole, and the string is no constant. -/
def plain (interpolated : Bool) (cs : List Char) : Option (List Char × List Char) :=
  match cs with
  | [] => none
  | c :: cs =>
    if c = '"' then some ([], cs)
    else if c = '\n' then none
    else if c = '\\' then
      match _h : escape cs with
      | none => none
      | some (d, rest) => (plain interpolated rest).map fun (v, r) => (d :: v, r)
    else if interpolated && isBrace c then
      match cs with
      | d :: ds => if d = c then (plain interpolated ds).map fun (v, r) => (c :: v, r) else none
      | [] => none
    else (plain interpolated cs).map fun (v, r) => (c :: v, r)
termination_by cs.length
decreasing_by
  · have := length_escape _h; simp only [List.length_cons]; omega
  · simp only [List.length_cons]; omega
  · simp only [List.length_cons]; omega

/-- The value of a verbatim string from after its opening quotation mark. -/
def verbatim (interpolated : Bool) : List Char → Option (List Char × List Char)
  | [] => none
  | c :: cs =>
    if c = '"' then
      match cs with
      | '"' :: ds => (verbatim interpolated ds).map fun (v, r) => ('"' :: v, r)
      | _ => some ([], cs)
    else if interpolated && isBrace c then
      match cs with
      | d :: ds => if d = c then (verbatim interpolated ds).map fun (v, r) => (c :: v, r) else none
      | [] => none
    else (verbatim interpolated cs).map fun (v, r) => (c :: v, r)

def quoteRun (cs : List Char) : Nat :=
  (cs.takeWhile (· == '"')).length

/-- What stands before the next run of `marks` quotation marks, and what comes after the run. -/
def rawBody (marks : Nat) : List Char → Option (List Char × List Char)
  | [] => none
  | c :: cs =>
    if marks ≤ quoteRun (c :: cs) then some ([], (c :: cs).drop marks)
    else (rawBody marks cs).map fun (v, r) => (c :: v, r)

/-- A text without the indentation that all its lines must have. -/
def unindent? (indent line : List Char) : Option (List Char) :=
  if indent.isPrefixOf line then some (line.drop indent.length) else none

def trimReturns (cs : List Char) : List Char :=
  (cs.reverse.dropWhile (· == '\r')).reverse

/-- A line of a raw string without its indentation; a blank line may have any. -/
def rawLine? (indent line : List Char) : Option (List Char) :=
  let line := trimReturns line
  if (trim line).isEmpty then some [] else unindent? indent line

/-- The value of a raw string's body. Over several lines, the first and last line are blank and not
part of it, and the indentation of the last is taken from every other. -/
def rawValue? (body : List Char) : Option (List Char) :=
  match split (· == '\n') body with
  | [] => some body
  | [_] => some body
  | first :: rest =>
    match rest.reverse with
    | [] => none
    | last :: inner =>
      if !(trim first).isEmpty || !(trim last).isEmpty then none
      else (inner.reverse.mapM (rawLine? (trimReturns last))).map fun lines =>
        ['\n'].intercalate lines

/-- A raw string from after its opening quotation marks. -/
def raw (marks : Nat) (interpolated : Bool) (cs : List Char) : Option (List Char × List Char) :=
  (rawBody marks cs).bind fun (body, rest) =>
    if interpolated && body.any isBrace then none
    else (rawValue? body).map (·, rest)

/-- A plain, empty or raw string from its first quotation mark on. -/
def quotedText (interpolated : Bool) (cs : List Char) : Option (List Char × List Char) :=
  let marks := quoteRun cs
  if 3 ≤ marks then raw marks interpolated (cs.drop marks)
  else if marks = 2 then some ([], cs.drop 2)
  else plain interpolated (cs.drop 1)

theorem length_plain {i : Bool} {cs v rest : List Char} (h : plain i cs = some (v, rest)) :
    rest.length < cs.length := by
  fun_induction plain i cs generalizing v with
  | case1 => cases h
  | case2 => cases h; simp
  | case3 => cases h
  | case4 => cases h
  | case5 cs d rest' he _ _ ih =>
    obtain ⟨⟨w, r⟩, hw, heq⟩ := Option.map_eq_some_iff.1 h
    cases heq
    have := ih hw
    have := length_escape he
    simp only [List.length_cons]
    omega
  | case6 c ds _ _ _ _ ih =>
    obtain ⟨⟨w, r⟩, hw, heq⟩ := Option.map_eq_some_iff.1 h
    cases heq
    have := ih hw
    simp only [List.length_cons]
    omega
  | case7 => cases h
  | case8 => cases h
  | case9 c cs _ _ _ _ ih =>
    obtain ⟨⟨w, r⟩, hw, heq⟩ := Option.map_eq_some_iff.1 h
    cases heq
    exact Nat.lt_succ_of_lt (ih hw)

theorem length_verbatim {i : Bool} {cs v rest : List Char} (h : verbatim i cs = some (v, rest)) :
    rest.length < cs.length := by
  fun_induction verbatim i cs generalizing v with
  | case1 => cases h
  | case2 ds ih =>
    obtain ⟨⟨w, r⟩, hw, heq⟩ := Option.map_eq_some_iff.1 h
    cases heq
    have := ih hw
    simp only [List.length_cons]
    omega
  | case3 cs _ => cases h; simp
  | case4 c _ _ ds ih =>
    obtain ⟨⟨w, r⟩, hw, heq⟩ := Option.map_eq_some_iff.1 h
    cases heq
    have := ih hw
    simp only [List.length_cons]
    omega
  | case5 => cases h
  | case6 => cases h
  | case7 c cs _ _ ih =>
    obtain ⟨⟨w, r⟩, hw, heq⟩ := Option.map_eq_some_iff.1 h
    cases heq
    exact Nat.lt_succ_of_lt (ih hw)

theorem length_rawBody {marks : Nat} {cs v rest : List Char}
    (h : rawBody marks cs = some (v, rest)) : rest.length ≤ cs.length := by
  induction cs generalizing v with
  | nil => cases h
  | cons c cs ih =>
    simp only [rawBody] at h
    split at h
    · cases h; simp
    · obtain ⟨⟨w, r⟩, hw, heq⟩ := Option.map_eq_some_iff.1 h
      cases heq
      exact Nat.le_succ_of_le (ih hw)

theorem length_raw {marks : Nat} {i : Bool} {cs v rest : List Char}
    (h : raw marks i cs = some (v, rest)) : rest.length ≤ cs.length := by
  obtain ⟨⟨w, r⟩, hw, h⟩ := Option.bind_eq_some_iff.1 h
  simp only at h
  split at h
  · cases h
  · obtain ⟨u, -, heq⟩ := Option.map_eq_some_iff.1 h
    cases heq
    exact length_rawBody hw

theorem length_quotedText {i : Bool} {cs v rest : List Char}
    (h : quotedText i cs = some (v, rest)) : rest.length < cs.length := by
  cases cs with
  | nil => simp [quotedText, quoteRun, plain] at h
  | cons c cs =>
    simp only [quotedText] at h
    split at h
    · have := length_raw h
      simp only [List.length_drop, List.length_cons] at this ⊢
      omega
    · split at h
      · cases h
        simp only [List.length_drop, List.length_cons]
        omega
      · exact Nat.lt_succ_of_lt (length_plain h)

/-- A string at the start of a text: its value and what follows. -/
def string? (cs : List Char) : Option (Option (List Char × List Char)) :=
  match cs with
  | '"' :: _ => some (quotedText false cs)
  | '@' :: '"' :: rest => some (verbatim false rest)
  | '@' :: '$' :: '"' :: rest => some (verbatim true rest)
  | '$' :: '@' :: '"' :: rest => some (verbatim true rest)
  | '$' :: '"' :: rest => some (quotedText true ('"' :: rest))
  | _ => none

theorem length_string? {cs v rest : List Char} (h : string? cs = some (some (v, rest))) :
    rest.length < cs.length := by
  unfold string? at h
  split at h <;> simp only [Option.some.injEq, reduceCtorEq] at h
  · exact length_quotedText h
  · have := length_verbatim h; simp only [List.length_cons]; omega
  · have := length_verbatim h; simp only [List.length_cons]; omega
  · have := length_verbatim h; simp only [List.length_cons]; omega
  · have := length_quotedText h; simp only [List.length_cons] at this ⊢; omega

def ofChar : Char → ConstantToken
  | '+' => plus
  | '(' => leftParen
  | ')' => rightParen
  | '.' => dot
  | c => other c

/-- The tokens of an expression, none if a string in it is broken or has a hole. -/
def scan (cs : List Char) : Option (List ConstantToken) :=
  match cs with
  | [] => some []
  | c :: tail =>
    if isSpace c then scan tail
    else match _h : string? (c :: tail) with
      | some none => none
      | some (some (value, rest)) => (scan rest).map (text value :: ·)
      | none =>
        if c = '@' && (tail.head?.map isNameStart).getD false then
          (scan (tail.dropWhile isNameRest)).map
            (name (.ofList (tail.takeWhile isNameRest)) :: ·)
        else if isNameStart c then
          (scan (tail.dropWhile isNameRest)).map
            (name (.ofList (c :: tail.takeWhile isNameRest)) :: ·)
        else if c = ':' && tail.head? = some ':' then (scan tail.tail).map (colons :: ·)
        else (scan tail).map (ofChar c :: ·)
termination_by cs.length
decreasing_by
  · simp
  · exact length_string? _h
  · exact Nat.lt_succ_of_le (List.dropWhile_sublist _).length_le
  · exact Nat.lt_succ_of_le (List.dropWhile_sublist _).length_le
  · simp only [List.length_tail, List.length_cons]; omega
  · simp

end ConstantToken

end TaskWrappers
