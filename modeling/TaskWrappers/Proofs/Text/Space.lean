import TaskWrappers.Text.Cut
import Mathlib.Data.List.DropRight

/-!
# White space

Trimming stops at what is no white space, wherever a text is taken apart there
(`trimStart_append_cons`, `trimEnd_append_cons`), and takes nothing away but white space, so that a
text without any does not show whether it was trimmed before (`withoutSpace_trimEnd`).
-/

namespace TaskWrappers.Text

section Drop

variable {p : Char → Bool} {c : Char} (hc : p c = false)
include hc

theorem dropWhile_append_cons (a b : List Char) :
    (a ++ c :: b).dropWhile p = a.dropWhile p ++ c :: b := by
  induction a with
  | nil => exact List.dropWhile_cons_of_neg (by simp [hc])
  | cons d a ih =>
    rw [List.cons_append, List.dropWhile_cons, List.dropWhile_cons, ih]
    split <;> rfl

theorem reverse_dropWhile_append_cons (a b : List Char) :
    ((a ++ c :: b).reverse.dropWhile p).reverse = a ++ c :: (b.reverse.dropWhile p).reverse := by
  have hreverse : (a ++ c :: b).reverse = b.reverse ++ c :: a.reverse := by simp
  rw [hreverse, dropWhile_append_cons hc]
  simp

end Drop

theorem dropWhile_of_forall {p : Char → Bool} {cs : List Char} (h : ∀ c ∈ cs, p c = false) :
    cs.dropWhile p = cs := by
  cases cs with
  | nil => rfl
  | cons c cs => exact List.dropWhile_cons_of_neg (by simp [h c List.mem_cons_self])

section Space

variable {c : Char} {cs : List Char}

theorem isSpace_eq_false_of_any (h : cs.any isSpace = false) : ∀ c ∈ cs, isSpace c = false :=
  fun c hc => Bool.eq_false_iff.2 (List.any_eq_false.1 h c hc)

theorem trimStart_append_cons (hc : isSpace c = false) (a b : List Char) :
    trimStart (a ++ c :: b) = trimStart a ++ c :: b :=
  dropWhile_append_cons hc a b

theorem trimEnd_append_cons (hc : isSpace c = false) (a b : List Char) :
    trimEnd (a ++ c :: b) = a ++ c :: trimEnd b :=
  reverse_dropWhile_append_cons hc a b

theorem trimStart_eq_self (h : ∀ c, cs.head? = some c → isSpace c = false) : trimStart cs = cs := by
  cases cs with
  | nil => rfl
  | cons c cs => exact List.dropWhile_cons_of_neg (by simp [h c rfl])

theorem trimStart_append {gap : List Char} (hgap : ∀ c ∈ gap, isSpace c = true)
    (cs : List Char) : trimStart (gap ++ cs) = trimStart cs :=
  List.dropWhile_append_of_pos hgap

theorem trimEnd_eq_nil (h : ∀ c ∈ cs, isSpace c = true) : trimEnd cs = [] := by
  have hreverse := trimStart_append (fun c hc => h c (List.mem_reverse.1 hc)) []
  rw [List.append_nil, trimStart, trimStart, List.dropWhile_nil] at hreverse
  rw [trimEnd, hreverse, List.reverse_nil]

theorem withoutSpace_cons_of_isSpace (hc : isSpace c = true) :
    withoutSpace (c :: cs) = withoutSpace cs :=
  List.filter_cons_of_neg (by simp [hc])

theorem withoutSpace_cons (hc : isSpace c = false) :
    withoutSpace (c :: cs) = c :: withoutSpace cs :=
  List.filter_cons_of_pos (by simp [hc])

theorem withoutSpace_append (a b : List Char) :
    withoutSpace (a ++ b) = withoutSpace a ++ withoutSpace b :=
  List.filter_append ..

theorem withoutSpace_of_forall (h : ∀ c ∈ cs, isSpace c = false) : withoutSpace cs = cs :=
  List.filter_eq_self.2 fun c hc => by rw [h c hc]; rfl

theorem withoutSpace_trimStart : ∀ cs : List Char, withoutSpace (trimStart cs) = withoutSpace cs
  | [] => rfl
  | c :: cs => by
    by_cases hc : isSpace c = true
    · rw [withoutSpace_cons_of_isSpace hc, ← withoutSpace_trimStart cs, trimStart, trimStart,
        List.dropWhile_cons_of_pos hc]
    · rw [trimStart, List.dropWhile_cons_of_neg hc]

theorem withoutSpace_trimEnd (cs : List Char) : withoutSpace (trimEnd cs) = withoutSpace cs := by
  have hstart := withoutSpace_trimStart cs.reverse
  rw [withoutSpace, withoutSpace, trimStart, List.filter_reverse] at hstart
  rw [withoutSpace, trimEnd, List.filter_reverse, hstart, List.reverse_reverse, withoutSpace]

theorem head?_withoutSpace : ∀ cs : List Char, (withoutSpace cs).head? = (trimStart cs).head?
  | [] => rfl
  | c :: cs => by
    by_cases hc : isSpace c = true
    · rw [withoutSpace_cons_of_isSpace hc, head?_withoutSpace cs, trimStart, trimStart,
        List.dropWhile_cons_of_pos hc]
    · rw [withoutSpace_cons (Bool.eq_false_iff.2 hc), trimStart, List.dropWhile_cons_of_neg hc]
      rfl

section Word

variable {word : List Char} (hne : word ≠ []) (hword : ∀ c ∈ word, isSpace c = false)
include hne hword

/-- A text that opens with a word opens with no white space. -/
theorem isSpace_of_head?_append {cs : List Char} :
    ∀ c, (word ++ cs).head? = some c → isSpace c = false := by
  obtain ⟨d, ds, rfl⟩ := List.exists_cons_of_ne_nil hne
  intro c hc
  cases hc
  exact hword d List.mem_cons_self

theorem trim_word_append {gap : List Char} (hgap : ∀ c ∈ gap, isSpace c = true) :
    trim (word ++ gap) = word := by
  have hlast := hword _ (List.getLast_mem hne)
  have hsplit := List.dropLast_concat_getLast hne
  have htrim := trimEnd_append_cons hlast word.dropLast gap
  rw [← List.singleton_append, ← List.append_assoc, hsplit, trimEnd_eq_nil hgap, hsplit] at htrim
  rw [trim, trimStart_eq_self (isSpace_of_head?_append hne hword), htrim]

end Word
end Space

section Trim

variable {cs : List Char}

theorem trimEnd_eq_self (h : ∀ c, cs.getLast? = some c → isSpace c = false) : trimEnd cs = cs := by
  refine List.rdropWhile_eq_self_iff.2 fun hne => ?_
  rw [h _ (List.getLast?_eq_some_getLast hne)]
  exact Bool.false_ne_true

theorem trimEnd_append {gap : List Char} (hgap : ∀ c ∈ gap, isSpace c = true) (cs : List Char) :
    trimEnd (cs ++ gap) = trimEnd cs := by
  rw [trimEnd, List.reverse_append,
    List.dropWhile_append_of_pos fun c hc => hgap c (List.mem_reverse.1 hc), trimEnd]

/-- A text is its trimmed part with white space on both sides. -/
theorem exists_of_trim (cs : List Char) : ∃ before after, (∀ c ∈ before, isSpace c = true) ∧
    (∀ c ∈ after, isSpace c = true) ∧ before ++ (trim cs ++ after) = cs := by
  refine ⟨cs.takeWhile isSpace, (trimStart cs).rtakeWhile isSpace,
    List.all_eq_true.1 List.all_takeWhile, fun c hc => List.mem_rtakeWhile_imp hc, ?_⟩
  have hend : trim cs ++ (trimStart cs).rtakeWhile isSpace = trimStart cs :=
    List.rdropWhile_append_rtakeWhile
  rw [hend, trimStart, List.takeWhile_append_dropWhile]

theorem isSpace_of_head?_trim {c : Char} (h : (trim cs).head? = some c) : isSpace c = false := by
  obtain ⟨tail, htail⟩ := List.head?_eq_some_iff.1 h
  obtain ⟨more, hmore⟩ : trim cs <+: trimStart cs := List.rdropWhile_prefix isSpace _
  have hhead := List.head?_dropWhile_not isSpace cs
  rwa [← trimStart, ← hmore, htail] at hhead

theorem trimStart_of_trim_eq (h : trim cs = cs) : trimStart cs = cs := by
  refine (List.dropWhile_suffix isSpace).eq_of_length_le ?_
  have hprefix : trim cs <+: trimStart cs := List.rdropWhile_prefix isSpace _
  rw [h] at hprefix
  exact hprefix.length_le

theorem trimEnd_of_trim_eq (h : trim cs = cs) : trimEnd cs = cs := by
  rwa [trim, trimStart_of_trim_eq h] at h

/-- A trimmed text opens with no white space. -/
theorem isSpace_of_head? (h : trim cs = cs) {c : Char} (hc : cs.head? = some c) :
    isSpace c = false := by
  obtain ⟨tail, rfl⟩ := List.head?_eq_some_iff.1 hc
  have hfirst := List.dropWhile_eq_self_iff.1 (trimStart_of_trim_eq h) (Nat.succ_pos _)
  exact Bool.eq_false_iff.2 hfirst

theorem isSpace_of_getLast? (h : trim cs = cs) {c : Char} (hc : cs.getLast? = some c) :
    isSpace c = false := by
  obtain ⟨lead, rfl⟩ := List.getLast?_eq_some_iff.1 hc
  have hlast := List.rdropWhile_eq_self_iff.1 (trimEnd_of_trim_eq h) (by simp)
  rw [List.getLast_concat] at hlast
  exact Bool.eq_false_iff.2 hlast

end Trim

end TaskWrappers.Text
