import TaskWrappers.Text.Quoted
import TaskWrappers.TypeExpr.Token

/-!
# What is wrong with a type expression

The wording of each `TypeError`.
-/

namespace TaskWrappers

def TypeToken.label : TypeToken → String
  | .name text => "Ident(" ++ Text.quoted text ++ ")"
  | .less => "Lt"
  | .greater => "Gt"
  | .comma => "Comma"
  | .dot => "Dot"
  | .colons => "ColonColon"
  | .question => "Question"
  | .leftBracket => "LBracket"
  | .rightBracket => "RBracket"
  | .leftParen => "LParen"
  | .rightParen => "RParen"

/-- The token that was met, or the end of the text. -/
def TypeToken.found : Option TypeToken → String
  | some t => "Some(" ++ t.label ++ ")"
  | none => "None"

namespace TypeError

def message : TypeError → String
  | loneColon => "expected '::'"
  | bareAt => "expected identifier after '@'"
  | badChar c => "unexpected character '" ++ String.singleton c ++ "'"
  | expected t found => "expected " ++ t.label ++ ", found " ++ TypeToken.found found
  | expectedType found => "expected a type, found " ++ TypeToken.found found
  | expectedName found => "expected identifier, found " ++ TypeToken.found found
  | shortTuple => "tuple types need at least two elements"
  | trailing index => "unexpected trailing input at token " ++ toString index

/-- The message for a whole text. -/
def report (e : TypeError) (text : String) : String :=
  "invalid type expression '" ++ text ++ "': " ++ e.message

end TypeError

end TaskWrappers
