import TaskWrappers.TypeExpr.Basic

/-!
# Printing type expressions

The one written form of a type: a space after each comma, except between arguments that are all
left out, and no other white space than the one before a tuple element's name.
-/

namespace TaskWrappers

def TypeArg.isOmitted : TypeArg → Bool
  | .omitted => true
  | .given _ => false

mutual

def TypeExpr.print : TypeExpr → String
  | .keyword word => word
  | .named qualifier outer last =>
    (match qualifier with
      | some q => q ++ "::"
      | none => "") ++ Segment.printDotted outer ++ last.print
  | .nullable inner => inner.print ++ "?"
  | .array element commas => element.print ++ "[" ++ "".pushn ',' commas ++ "]"
  | .tuple first second rest =>
    "(" ++ first.print ++ ", " ++ second.print ++ TupleElement.printRest rest ++ ")"

def Segment.print : Segment → String
  | .plain name => name
  | .generic name first rest =>
    name ++ "<" ++ first.print
      ++ TypeArg.printRest (if (first :: rest).all TypeArg.isOmitted then "," else ", ") rest ++ ">"

/-- The segments before the last, each with the dot after it. -/
def Segment.printDotted : List Segment → String
  | [] => ""
  | s :: ss => s.print ++ "." ++ Segment.printDotted ss

def TypeArg.print : TypeArg → String
  | .omitted => ""
  | .given type => type.print

def TypeArg.printRest (separator : String) : List TypeArg → String
  | [] => ""
  | a :: as => separator ++ a.print ++ TypeArg.printRest separator as

def TupleElement.print : TupleElement → String
  | ⟨type, none⟩ => type.print
  | ⟨type, some name⟩ => type.print ++ " " ++ name

def TupleElement.printRest : List TupleElement → String
  | [] => ""
  | e :: es => ", " ++ e.print ++ TupleElement.printRest es

end

end TaskWrappers
