import TaskWrappers.Text.Cut

/-!
# Parts between separators

Splitting a text at separators is what the library calls `List.splitOnP`: the parts of a text that
has a separator in it are those before and those behind it, and put together again they are the
text. Cutting a text in two is settled by where the first or the last separator stands.
-/

namespace TaskWrappers.Text

theorem split_eq_splitOnP (p : Char → Bool) : ∀ cs : List Char, split p cs = cs.splitOnP p
  | [] => rfl
  | c :: cs => by
    rw [split, split_eq_splitOnP p cs, List.splitOnP_cons_eq_if_modifyHead]
    split
    · rfl
    · split
      · rename_i heq
        rw [heq]
        rfl
      · rename_i heq
        exact absurd heq (List.splitOnP_ne_nil p cs)

theorem split_ne_nil (p : Char → Bool) (cs : List Char) : split p cs ≠ [] := by
  rw [split_eq_splitOnP]
  exact List.splitOnP_ne_nil p cs

theorem split_append_cons {p : Char → Bool} {c : Char} (hc : p c = true) (a b : List Char) :
    split p (a ++ c :: b) = split p a ++ split p b := by
  rw [split_eq_splitOnP, List.splitOnP_append_cons _ _ hc, ← split_eq_splitOnP, ← split_eq_splitOnP]

theorem split_of_not_mem {x : Char} {cs : List Char} (h : x ∉ cs) :
    split (· == x) cs = [cs] := by
  rw [split_eq_splitOnP]
  refine List.splitOnP_eq_singleton fun c hc => beq_false_of_ne ?_
  rintro rfl
  exact h hc

/-- No part holds a separator. -/
theorem of_mem_split {p : Char → Bool} : ∀ {cs part : List Char}, part ∈ split p cs →
    ∀ c ∈ part, p c = false
  | [], part, h, c, hc => by
    rw [split, List.mem_singleton] at h
    subst h
    cases hc
  | d :: cs, part, h, c, hc => by
    rw [split] at h
    split at h
    · rcases List.mem_cons.1 h with rfl | h
      · cases hc
      · exact of_mem_split h c hc
    · rename_i hd
      split at h
      · rename_i first parts heq
        rcases List.mem_cons.1 h with rfl | h
        · rcases List.mem_cons.1 hc with rfl | hc
          · exact Bool.eq_false_iff.2 hd
          · exact of_mem_split (heq ▸ List.mem_cons_self) c hc
        · exact of_mem_split (heq ▸ List.mem_cons_of_mem first h) c hc
      · rename_i heq
        exact absurd heq (split_ne_nil p cs)

theorem subset_of_mem_split {p : Char → Bool} : ∀ {cs part : List Char}, part ∈ split p cs →
    part ⊆ cs
  | [], part, h => by
    rw [split, List.mem_singleton] at h
    subst h
    exact List.Subset.refl _
  | c :: cs, part, h => by
    rw [split] at h
    split at h
    · rcases List.mem_cons.1 h with rfl | h
      · exact List.nil_subset _
      · exact List.subset_cons_of_subset c (subset_of_mem_split h)
    · split at h
      · rename_i first parts heq
        rcases List.mem_cons.1 h with rfl | h
        · exact List.cons_subset_cons c (subset_of_mem_split (heq ▸ List.mem_cons_self))
        · have hpart := subset_of_mem_split (heq ▸ List.mem_cons_of_mem first h)
          exact List.subset_cons_of_subset c hpart
      · rename_i heq
        exact absurd heq (split_ne_nil p cs)

theorem exists_mem_split {p : Char → Bool} {c : Char} (hc : p c = false) :
    ∀ {cs : List Char}, c ∈ cs → ∃ part ∈ split p cs, c ∈ part
  | d :: cs, h => by
    rw [split]
    split
    · rename_i hd
      have hcs : c ∈ cs := (List.mem_cons.1 h).resolve_left fun heq => by simp [heq, hd] at hc
      obtain ⟨part, hpart, hmem⟩ := exists_mem_split hc hcs
      exact ⟨part, List.mem_cons_of_mem _ hpart, hmem⟩
    · split
      · rename_i first parts heq
        rcases List.mem_cons.1 h with rfl | h
        · exact ⟨_, List.mem_cons_self, List.mem_cons_self⟩
        · obtain ⟨part, hpart, hmem⟩ := exists_mem_split hc h
          rw [heq] at hpart
          rcases List.mem_cons.1 hpart with rfl | hpart
          · exact ⟨_, List.mem_cons_self, List.mem_cons_of_mem _ hmem⟩
          · exact ⟨part, List.mem_cons_of_mem _ hpart, hmem⟩
      · rename_i heq
        exact absurd heq (split_ne_nil p cs)

theorem intercalate_split (x : Char) (cs : List Char) :
    [x].intercalate (split (· == x) cs) = cs := by
  rw [split_eq_splitOnP, ← List.splitOn_eq_splitOnP]
  exact List.intercalate_splitOn x

section Cut

variable {p : Char → Bool} {x : Char} {cs a b : List Char}

/-- A cut is made in the first of two parts that has a place for it. -/
theorem cut?_append (cs ds : List Char) : cut? p (cs ++ ds)
    = (((cut? p cs).map fun (a, b) => (a, b ++ ds)) <|>
        ((cut? p ds).map fun (a, b) => (cs ++ a, b))) := by
  induction cs with
  | nil => simp [cut?]
  | cons c cs ih =>
    rw [List.cons_append, cut?, cut?]
    split
    · rfl
    · rw [ih]
      cases cut? p cs <;> cases cut? p ds <;> rfl

theorem cut?_eq_none_iff : cut? p cs = none ↔ ∀ c ∈ cs, p c = false := by
  induction cs with
  | nil => simp [cut?]
  | cons c cs ih =>
    rw [cut?, List.forall_mem_cons, ← ih]
    by_cases hc : p c = true <;> simp [hc]

theorem exists_of_cut? : ∀ {cs a b : List Char}, cut? p cs = some (a, b) →
    ∃ c, p c = true ∧ cs = a ++ c :: b
  | c :: cs, a, b, h => by
    rw [cut?] at h
    split at h
    · rename_i hc
      cases h
      exact ⟨c, hc, rfl⟩
    · obtain ⟨⟨a', b'⟩, hcut, heq⟩ := Option.map_eq_some_iff.1 h
      cases heq
      obtain ⟨d, hd, rfl⟩ := exists_of_cut? hcut
      exact ⟨d, hd, rfl⟩

theorem cut?_eq_some {c : Char} (ha : ∀ d ∈ a, p d = false) (hc : p c = true) (b : List Char) :
    cut? p (a ++ c :: b) = some (a, b) := by
  rw [cut?_append, cut?_eq_none_iff.2 ha, cut?, if_pos hc]
  simp

theorem cut?_eq_none (h : x ∉ cs) : cut? (· == x) cs = none := by
  refine cut?_eq_none_iff.2 fun c hc => beq_false_of_ne ?_
  rintro rfl
  exact h hc

theorem cut?_append_cons (h : x ∉ cs) (ds : List Char) :
    cut? (· == x) (cs ++ x :: ds) = some (cs, ds) :=
  cut?_eq_some (cut?_eq_none_iff.1 (cut?_eq_none h)) (beq_self_eq_true x) ds

theorem append_of_cut? (h : cut? (· == x) cs = some (a, b)) : cs = a ++ x :: b := by
  obtain ⟨c, hc, heq⟩ := exists_of_cut? h
  rwa [eq_of_beq hc] at heq

theorem append_of_cutLast? (h : cutLast? (· == x) cs = some (a, b)) : cs = a ++ x :: b := by
  obtain ⟨⟨after, before⟩, hcut, heq⟩ := Option.map_eq_some_iff.1 h
  cases heq
  rw [← List.reverse_reverse cs, append_of_cut? hcut]
  simp

theorem cutLast?_eq_some {c : Char} (hb : ∀ d ∈ b, p d = false) (hc : p c = true)
    (a : List Char) : cutLast? p (a ++ c :: b) = some (a, b) := by
  have hreverse : (a ++ c :: b).reverse = b.reverse ++ c :: a.reverse := by simp
  rw [cutLast?, hreverse, cut?_eq_some (fun d hd => hb d (List.mem_reverse.1 hd)) hc]
  simp

theorem cutLast?_eq_none (h : ∀ c ∈ cs, p c = false) : cutLast? p cs = none := by
  rw [cutLast?, cut?_eq_none_iff.2 fun c hc => h c (List.mem_reverse.1 hc), Option.map_none]

theorem cutLast?_append_cons (h : x ∉ b) (a : List Char) :
    cutLast? (· == x) (a ++ x :: b) = some (a, b) :=
  cutLast?_eq_some (cut?_eq_none_iff.1 (cut?_eq_none h)) (beq_self_eq_true x) a

end Cut

end TaskWrappers.Text
