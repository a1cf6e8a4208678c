import TaskWrappers.Text.Class

/-!
# Characters by number

Escape sequences that give a character by its code point in hexadecimal digits.
-/

namespace TaskWrappers.Text

def hexDigitValue (c : Char) : Nat :=
  if isAsciiDigit c then c.toNat - '0'.toNat
  else if 'a' ≤ c then c.toNat - 'a'.toNat + 10
  else c.toNat - 'A'.toNat + 10

def hexValue (cs : List Char) : Nat :=
  cs.foldl (fun n c => 16 * n + hexDigitValue c) 0

/-- The character a code point stands for; surrogates and larger numbers stand for none. -/
def charOf? (n : Nat) : Option Char :=
  if h : n.isValidChar then some (Char.ofNatAux n h) else none

/-- A code point in at least `least` and at most `most` hexadecimal digits. -/
def codePoint (least most : Nat) (cs : List Char) : Option (Char × List Char) :=
  let digits := (cs.take most).takeWhile isAsciiHexDigit
  if digits.length < least then none
  else (charOf? (hexValue digits)).map (·, cs.drop digits.length)

theorem length_codePoint {least most : Nat} {cs rest : List Char} {c : Char}
    (h : codePoint least most cs = some (c, rest)) : rest.length ≤ cs.length := by
  simp only [codePoint] at h
  split at h
  · cases h
  · obtain ⟨d, -, hd⟩ := Option.map_eq_some_iff.1 h
    cases hd
    simp

end TaskWrappers.Text
