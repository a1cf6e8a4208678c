import TaskWrappers.Text.Class
import TaskWrappers.TypeExpr.Basic

/-!
# Tokens of type expressions

White space only separates. A verbatim name loses its `@`, and with it the duty to start with a
letter. Each way in which a text can fail to be a type is one constructor of `TypeError`.
-/

namespace TaskWrappers

inductive TypeToken where
  | name (text : String)
  | less
  | greater
  | comma
  | dot
  | colons
  | question
  | leftBracket
  | rightBracket
  | leftParen
  | rightParen
  deriving DecidableEq

inductive TypeError where
  | loneColon
  | bareAt
  | badChar (c : Char)
  | expected (token : TypeToken) (found : Option TypeToken)
  | expectedType (found : Option TypeToken)
  | expectedName (found : Option TypeToken)
  | shortTuple
  | trailing (index : Nat)
  deriving DecidableEq

namespace TypeToken

def ofChar? : Char → Option TypeToken
  | '<' => some less
  | '>' => some greater
  | ',' => some comma
  | '.' => some dot
  | '?' => some question
  | '[' => some leftBracket
  | ']' => some rightBracket
  | '(' => some leftParen
  | ')' => some rightParen
  | _ => none

/-- The tokens of a text, or the first place where there is none. -/
def scan : List Char → Except TypeError (List TypeToken)
  | [] => .ok []
  | c :: cs =>
    if Text.isSpace c then scan cs
    else match ofChar? c with
      | some t => (scan cs).map (t :: ·)
      | none =>
        if c = ':' then
          match cs with
          | ':' :: cs => (scan cs).map (colons :: ·)
          | _ => .error .loneColon
        else if c = '@' then
          let word := cs.takeWhile Text.isNameRest
          if word.isEmpty then .error .bareAt
          else (scan (cs.dropWhile Text.isNameRest)).map (name (.ofList word) :: ·)
        else if Text.isNameStart c then
          (scan (cs.dropWhile Text.isNameRest)).map
            (name (.ofList (c :: cs.takeWhile Text.isNameRest)) :: ·)
        else .error (.badChar c)
termination_by cs => cs.length
decreasing_by
  · simp
  · simp
  · simp only [List.length_cons]; omega
  · exact Nat.lt_succ_of_le (List.dropWhile_sublist _).length_le
  · exact Nat.lt_succ_of_le (List.dropWhile_sublist _).length_le

end TypeToken

end TaskWrappers
