import TaskWrappers.Declaration.Text
import TaskWrappers.Proofs.Text.Bytes

/-!
# The parts of an argument

An argument's text is taken apart into an `@`, a word and what comes behind it, and has the word for
its name if that goes on with a single `=` or `:` (`Argument.ofText_eq`). Counted in bytes, the word
ends where a character does (`Argument.bytes_nameBytes`).
-/

namespace TaskWrappers

open Text

namespace Argument

section Parts

/-- An `@` at the start of a text. -/
def mark (cs : List Char) : List Char := if cs.head? = some '@' then ['@'] else []

/-- The name characters at the start of a text, behind an `@`. -/
def word (cs : List Char) : List Char := (cs.drop (mark cs).length).takeWhile isNameRest

/-- What comes behind them. -/
def behind (cs : List Char) : List Char := (cs.drop (mark cs).length).dropWhile isNameRest

/-- What comes behind a single `=` or `:`. -/
def assigned? (cs : List Char) : Option (List Char) :=
  match trimStart cs with
  | '=' :: value => if value.head? = some '=' then none else some value
  | ':' :: value => if value.head? = some ':' then none else some value
  | _ => none

theorem mark_cases (cs : List Char) : (∃ tail, cs = '@' :: tail ∧ mark cs = ['@'] ∧
      word cs = tail.takeWhile isNameRest ∧ behind cs = tail.dropWhile isNameRest) ∨
    (cs.head? ≠ some '@' ∧ mark cs = [] ∧ word cs = cs.takeWhile isNameRest ∧
      behind cs = cs.dropWhile isNameRest) := by
  by_cases h : cs.head? = some '@'
  · obtain ⟨tail, rfl⟩ := List.head?_eq_some_iff.1 h
    exact .inl ⟨tail, rfl, rfl, rfl, rfl⟩
  · have hmark : mark cs = [] := if_neg h
    refine .inr ⟨h, hmark, ?_, ?_⟩
    · rw [word, hmark, List.length_nil, List.drop_zero]
    · rw [behind, hmark, List.length_nil, List.drop_zero]

theorem mark_word_behind (cs : List Char) : mark cs ++ word cs ++ behind cs = cs := by
  obtain ⟨tail, rfl, hmark, hword, hbehind⟩ | ⟨-, hmark, hword, hbehind⟩ := mark_cases cs
  · rw [hmark, hword, hbehind, List.append_assoc, List.takeWhile_append_dropWhile,
      List.singleton_append]
  · rw [hmark, hword, hbehind, List.nil_append, List.takeWhile_append_dropWhile]

/-- An argument is positional, or the word in front is its name. -/
theorem ofText_eq (text : String) : ofText text
    = if (mark (trim text.toList) ++ word (trim text.toList)).isEmpty then ⟨none, trimmed text⟩
      else match assigned? (behind (trim text.toList)) with
        | some value => ⟨some (.ofList (word (trim text.toList))), .ofList (trim value)⟩
        | none => ⟨none, trimmed text⟩ := by
  rw [ofText, trimmed]
  generalize trim text.toList = cs
  have hvalue (rest : List Char) (positional : Argument) (named : List Char → Argument) :
      (match trimStart rest with
        | '=' :: value => if value.head? = some '=' then positional else named value
        | ':' :: value => if value.head? = some ':' then positional else named value
        | _ => positional)
      = match assigned? rest with
        | some value => named value
        | none => positional := by
    rw [assigned?]
    split
    · split <;> rfl
    · split <;> rfl
    · rfl
  obtain ⟨tail, rfl, hmark, hword, hbehind⟩ | ⟨hhead, hmark, hword, hbehind⟩ := mark_cases cs
  · rw [hmark, hword, hbehind]
    exact ite_congr rfl (fun _ => rfl) fun _ => hvalue _ _ _
  · rw [hmark, hword, hbehind]
    split
    rename_i lead tail hlead
    split at hlead
    · exact absurd rfl hhead
    · cases hlead
      exact ite_congr rfl (fun _ => rfl) fun _ => hvalue _ _ _

variable {text : String}

theorem ofText_of_assigned?_eq_none (h : assigned? (behind (trim text.toList)) = none) :
    ofText text = ⟨none, trimmed text⟩ := by
  rw [ofText_eq, h, ite_self]

theorem name_ofText {n : String} (h : (ofText text).name = some n) :
    n = .ofList (word (trim text.toList)) := by
  rw [ofText_eq] at h
  split at h
  · cases h
  · split at h
    · cases h
      rfl
    · cases h

theorem ofText_of_empty (hmark : mark (trim text.toList) = [])
    (hword : word (trim text.toList) = []) : ofText text = ⟨none, trimmed text⟩ := by
  rw [ofText_eq, hmark, hword]
  rfl

theorem ofText_of_assigned? {value : List Char} (hword : word (trim text.toList) ≠ [])
    (h : assigned? (behind (trim text.toList)) = some value) :
    ofText text = ⟨some (.ofList (word (trim text.toList))), .ofList (trim value)⟩ := by
  have hne : ¬ (mark (trim text.toList) ++ word (trim text.toList)).isEmpty = true := by
    rw [List.isEmpty_iff]
    exact List.append_ne_nil_of_right_ne_nil _ hword
  rw [ofText_eq, if_neg hne, h]

end Parts

section Bytes

/-- Up to which byte a text in front of its `=` or `:` is a name, counted from the given one on. -/
def nameBytes : Nat → List Char → Nat
  | n, [] => n
  | n, c :: cs =>
    if isNameRest c || (n == 0 && c == '@') then nameBytes (n + c.utf8Size) cs else n

theorem nameBytes_eq_add : ∀ {n : Nat} (cs : List Char), 0 < n →
    nameBytes n cs = n + ((cs.takeWhile isNameRest).flatMap String.utf8EncodeChar).length
  | n, [], _ => rfl
  | n, c :: cs, hn => by
    have hzero : (n == 0) = false := beq_false_of_ne (Nat.ne_of_gt hn)
    rw [nameBytes, hzero, Bool.false_and, Bool.or_false, List.takeWhile_cons]
    split
    · rw [nameBytes_eq_add cs (Nat.add_pos_left hn _), List.flatMap_cons, List.length_append,
        String.length_utf8EncodeChar, Nat.add_assoc]
    · rfl

theorem nameBytes_eq (cs : List Char) :
    nameBytes 0 cs = ((mark cs ++ word cs).flatMap String.utf8EncodeChar).length := by
  obtain ⟨tail, rfl, hmark, hword, -⟩ | ⟨hhead, hmark, hword, -⟩ := mark_cases cs
  · rw [hmark, hword, nameBytes, if_pos (by decide), Nat.zero_add,
      nameBytes_eq_add tail (Char.utf8Size_pos _)]
    simp [List.flatMap_cons]
  · rw [hmark, hword, List.nil_append]
    cases cs with
    | nil => rfl
    | cons c cs =>
      have hat : (c == '@') = false := beq_false_of_ne fun heq => hhead (heq ▸ rfl)
      rw [nameBytes, hat, Bool.and_false, Bool.or_false, List.takeWhile_cons]
      split
      · rw [Nat.zero_add, nameBytes_eq_add cs (Char.utf8Size_pos _), List.flatMap_cons,
          List.length_append, String.length_utf8EncodeChar]
      · rfl

/-- The bytes up to there and those behind are the codes of whole characters. -/
theorem bytes_nameBytes (cs : List Char) :
    (bytes (.ofList cs)).take (nameBytes 0 cs) = bytes (.ofList (mark cs ++ word cs)) ∧
      (bytes (.ofList cs)).drop (nameBytes 0 cs) = bytes (.ofList (behind cs)) := by
  have htext : bytes (.ofList cs)
      = (mark cs ++ word cs).flatMap String.utf8EncodeChar
        ++ (behind cs).flatMap String.utf8EncodeChar := by
    rw [bytes_eq, String.toList_ofList, ← List.flatMap_append, mark_word_behind]
  rw [htext, nameBytes_eq, List.take_left, List.drop_left, bytes_eq, bytes_eq,
    String.toList_ofList, String.toList_ofList]
  exact ⟨rfl, rfl⟩

end Bytes

end Argument

end TaskWrappers
