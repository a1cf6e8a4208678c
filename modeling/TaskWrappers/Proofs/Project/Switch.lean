import TaskWrappers.Proofs.Project.Search

/-!
# Searching for the switch

The element for implicit usings is looked for in one part of a text after the other
(`Project.switch?_append`), if they meet between tags: what it consists of, two tags with a word
between them, then lies in one of the parts.
-/

namespace TaskWrappers

open Text

namespace Project

/-- Whether a text ends with the end of a tag: whatever is no white space has one behind it. -/
def closesTag : List Char → Bool
  | [] => true
  | c :: cs => (isSpace c || (c :: cs).contains '>') && closesTag cs

/-- Whether a text starts with a tag, white space apart. -/
def opensTag (cs : List Char) : Bool := (trimStart cs).head?.all (· == '<')

theorem closesTag_of_suffix {cs rest : List Char} (hrest : rest <:+ cs)
    (h : closesTag cs = true) : closesTag rest = true := by
  obtain ⟨lead, rfl⟩ := hrest
  induction lead with
  | nil => exact h
  | cons c lead ih =>
    rw [List.cons_append, closesTag, Bool.and_eq_true] at h
    exact ih h.2

theorem foldCase_of_isSpace {c : Char} (hc : isSpace c = true) : foldCase c = c := by
  rw [foldCase, if_neg, if_neg, lowerAscii, if_neg]
  · intro hupper
    have hletter : isLetter c = true := by
      rw [Bool.and_eq_true, decide_eq_true_eq, decide_eq_true_eq] at hupper
      have hnarrow : c.toNat < 128 := Nat.lt_of_le_of_lt hupper.2 (by decide)
      simp [isLetter, hnarrow, isAsciiLetter, hupper]
    rw [isSpace_of_isNameRest (by simp [isNameRest, hletter])] at hc
    cases hc
  · rintro rfl
    exact absurd hc (by decide)
  · rintro rfl
    exact absurd hc (by decide)

/-- A word is not looked for behind a text with a character that can only be the last of it. -/
theorem dropFolded?_append {word cs : List Char} {d : Char} (hcs : d ∈ cs)
    (hword : foldCase d ∉ word.dropLast) (rest : List Char) :
    dropFolded? word (cs ++ rest) = (dropFolded? word cs).map (· ++ rest) := by
  by_cases hlength : word.length ≤ cs.length
  · rw [dropFolded?, dropFolded?, List.take_append_of_le_length hlength,
      List.drop_append_of_le_length hlength]
    split <;> rfl
  · have hnone (more : List Char) : dropFolded? word (cs ++ more) = none := by
      rw [dropFolded?, if_neg]
      intro hfold
      rw [List.take_append, List.take_of_length_le (Nat.le_of_not_le hlength),
        List.map_append] at hfold
      have hstarts : cs.map foldCase <+: word.dropLast := by
        refine List.prefix_of_prefix_length_le ⟨_, hfold.symm⟩ (List.dropLast_prefix word) ?_
        rw [List.length_map, List.length_dropLast]
        omega
      exact hword (hstarts.subset (List.mem_map_of_mem hcs))
    have hself := hnone []
    rw [List.append_nil] at hself
    rw [hnone, hself, Option.map_none]

/-- What stands behind the opening tag of the switch, up to its closing tag. -/
def switchWord? (cs : List Char) : Option (List Char) :=
  (dropFolded? "</implicitusings>".toList
    (trimStart ((trimStart cs).dropWhile isFoldedLetter))).bind fun _ =>
      if ((trimStart cs).takeWhile isFoldedLetter).isEmpty then none
      else some ((trimStart cs).takeWhile isFoldedLetter)

theorem switchHere?_eq (cs : List Char) :
    switchHere? cs = (dropFolded? "<implicitusings>".toList cs).bind switchWord? := rfl

theorem switchWord?_of_takeWhile {cs : List Char}
    (h : (trimStart cs).takeWhile isFoldedLetter = []) : switchWord? cs = none := by
  rw [switchWord?, h]
  cases dropFolded? "</implicitusings>".toList
    (trimStart ((trimStart cs).dropWhile isFoldedLetter)) <;> rfl

section Edge

variable {cs rest : List Char} (hcs : closesTag cs = true) (hrest : opensTag rest = true)
include hcs

theorem mem_of_closesTag {c : Char} (hc : (trimStart cs).head? = some c) : '>' ∈ trimStart cs := by
  have hclose := closesTag_of_suffix (List.dropWhile_suffix isSpace) hcs
  have hsolid := List.head?_dropWhile_not isSpace cs
  rw [← trimStart] at hclose hsolid
  cases hstart : trimStart cs with
  | nil =>
    rw [hstart] at hc
    cases hc
  | cons e more =>
    rw [hstart] at hclose hsolid
    rw [List.head?_cons] at hsolid
    rw [closesTag, hsolid, Bool.false_or, Bool.and_eq_true] at hclose
    exact List.contains_iff_mem.1 hclose.1

include hrest

theorem switchWord?_append : switchWord? (cs ++ rest) = switchWord? cs := by
  cases hhead : (trimStart cs).head? with
  | none =>
    have hself : trimStart cs = [] := List.head?_eq_none_iff.1 hhead
    have hspace : ∀ c ∈ cs, isSpace c = true := List.dropWhile_eq_nil_iff.1 hself
    have happend : (trimStart (cs ++ rest)).takeWhile isFoldedLetter = [] := by
      rw [trimStart_append hspace]
      rw [opensTag] at hrest
      cases hmark : trimStart rest with
      | nil => rfl
      | cons c more =>
        rw [hmark, List.head?_cons, Option.all_some, beq_iff_eq] at hrest
        rw [hrest]
        exact List.takeWhile_cons_of_neg (by decide)
    rw [switchWord?_of_takeWhile happend, switchWord?_of_takeWhile (by rw [hself]; rfl)]
  | some c =>
    have hmem := mem_of_closesTag hcs hhead
    have hcs' : '>' ∈ cs := (List.dropWhile_sublist isSpace).subset hmem
    obtain ⟨hstart, -⟩ := trimStart_append_of_mem hcs' (by decide) rest
    obtain ⟨htake, hdrop, hmem⟩ :=
      takeWhile_append_of_mem (p := isFoldedLetter) hmem (by decide) rest
    obtain ⟨hgap, hmem⟩ := trimStart_append_of_mem hmem (by decide) rest
    rw [switchWord?, switchWord?, hstart, htake, hdrop, hgap, dropFolded?_append hmem (by decide)]
    cases dropFolded? "</implicitusings>".toList
      (trimStart ((trimStart cs).dropWhile isFoldedLetter)) <;> rfl

theorem switchHere?_append (hne : cs ≠ []) : switchHere? (cs ++ rest) = switchHere? cs := by
  obtain ⟨d, hd, hword⟩ : ∃ d ∈ cs, foldCase d ∉ "<implicitusings>".toList.dropLast := by
    obtain ⟨c, tail, rfl⟩ := List.exists_cons_of_ne_nil hne
    rw [closesTag, Bool.and_eq_true, Bool.or_eq_true] at hcs
    rcases hcs.1 with hspace | hmem
    · refine ⟨c, List.mem_cons_self, fun hmem => ?_⟩
      have hsolid : "<implicitusings>".toList.dropLast.any isSpace = false := by decide
      rw [foldCase_of_isSpace hspace] at hmem
      rw [isSpace_eq_false_of_any hsolid c hmem] at hspace
      cases hspace
    · exact ⟨'>', List.contains_iff_mem.1 hmem, by decide⟩
  rw [switchHere?_eq, switchHere?_eq, dropFolded?_append hd hword]
  cases hopen : dropFolded? "<implicitusings>".toList cs with
  | none => rfl
  | some behind =>
    have hsuffix : behind <:+ cs := by
      rw [dropFolded?] at hopen
      split at hopen
      · cases hopen
        exact List.drop_suffix _ cs
      · cases hopen
    exact switchWord?_append (closesTag_of_suffix hsuffix hcs) hrest

theorem switch?_append : switch? (cs ++ rest) = (switch? cs <|> switch? rest) := by
  induction cs with
  | nil => rfl
  | cons c cs ih =>
    have hhere := switchHere?_append hcs hrest (List.cons_ne_nil c cs)
    rw [List.cons_append] at hhere ⊢
    rw [switch?, switch?, hhere]
    cases switchHere? (c :: cs) with
    | some word => rfl
    | none => exact ih (closesTag_of_suffix (List.suffix_cons c cs) hcs)

end Edge

end Project

end TaskWrappers
