import TaskWrappers.Text.Class

/-!
# Cutting texts

Trimming white space, dropping it, and cutting a text at the first character of a kind. Everything
works on lists of characters and has a form on strings where one is needed.
-/

namespace TaskWrappers.Text

def trimStart (cs : List Char) : List Char :=
  cs.dropWhile isSpace

theorem length_trimStart (cs : List Char) : (trimStart cs).length ≤ cs.length :=
  (List.dropWhile_sublist _).length_le

def trimEnd (cs : List Char) : List Char :=
  (cs.reverse.dropWhile isSpace).reverse

def trim (cs : List Char) : List Char :=
  trimEnd (trimStart cs)

def withoutSpace (cs : List Char) : List Char :=
  cs.filter (!isSpace ·)

/-- The parts before and after the first character that passes the test. -/
def cut? (p : Char → Bool) : List Char → Option (List Char × List Char)
  | [] => none
  | c :: cs => if p c then some ([], cs) else (cut? p cs).map fun (a, b) => (c :: a, b)

theorem length_cut? {p : Char → Bool} {cs a b : List Char} (h : cut? p cs = some (a, b)) :
    b.length < cs.length := by
  induction cs generalizing a with
  | nil => cases h
  | cons c cs ih =>
    simp only [cut?] at h
    split at h
    · cases h; simp
    · obtain ⟨⟨x, y⟩, hxy, heq⟩ := Option.map_eq_some_iff.1 h
      cases heq
      exact Nat.lt_succ_of_lt (ih hxy)

/-- The parts before and after the last character that passes the test. -/
def cutLast? (p : Char → Bool) (cs : List Char) : Option (List Char × List Char) :=
  (cut? p cs.reverse).map fun (after, before) => (before.reverse, after.reverse)

/-- What follows `lead` at the start of a text. -/
def dropLead? (lead s : String) : Option (List Char) :=
  if lead.toList.isPrefixOf s.toList then some (s.toList.drop lead.toList.length) else none

/-- The text without `lead` at its start. -/
def dropLead (lead s : String) : List Char :=
  (dropLead? lead s).getD s.toList

/-- The parts between all characters that pass the test. -/
def split (p : Char → Bool) : List Char → List (List Char)
  | [] => [[]]
  | c :: cs =>
    if p c then [] :: split p cs
    else match split p cs with
      | part :: parts => (c :: part) :: parts
      | [] => [[c]]

def trimmed (s : String) : String :=
  .ofList (trim s.toList)

def joined (s : String) : String :=
  .ofList (withoutSpace s.toList)

/-- The parts of a text between dots. -/
def dotParts (s : String) : List String :=
  (split (· == '.') s.toList).map .ofList

end TaskWrappers.Text
