import TaskWrappers.Text.Class

/-!
# Quoted names

A name between quotation marks. A character that only joins on to the one before would be drawn on
the wrong one next to a quotation mark, so each such character is given by its code point.
-/

namespace TaskWrappers.Text

def quotedChar (c : Char) : List Char :=
  if isJoined c then ['\\', 'u', '\x7b'] ++ Nat.toDigits 16 c.toNat ++ ['\x7d'] else [c]

def quoted (name : String) : String :=
  .ofList ('"' :: name.toList.flatMap quotedChar ++ ['"'])

end TaskWrappers.Text
