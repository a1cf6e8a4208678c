import TaskWrappers.Project
import TaskWrappers.Proofs.Text.Name
import TaskWrappers.Proofs.Text.Space
import TaskWrappers.Proofs.Text.Split
import Mathlib.Data.List.Infix

/-!
# Searching project files

A reference starts where one of three openings stands (`Project.reference?_opening`), and what is
left of a text behind it is the text's end (`Project.suffix_of_reference?`). So a text without such
an opening is passed over (`Project.references_append_of_noOpening`).
-/

namespace TaskWrappers

open Text

namespace Project

section Exact

variable {word cs rest : List Char}

theorem dropExact?_eq_some_iff : dropExact? word cs = some rest ↔ cs = word ++ rest := by
  rw [dropExact?]
  constructor
  · intro h
    split at h
    · rename_i hstarts
      cases h
      exact (List.prefix_iff_eq_append.1 (List.isPrefixOf_iff_prefix.1 hstarts)).symm
    · cases h
  · rintro rfl
    rw [if_pos (List.isPrefixOf_iff_prefix.2 (List.prefix_append word rest)), List.drop_left]

theorem dropExact?_eq_none_iff : dropExact? word cs = none ↔ ¬ word <+: cs := by
  rw [dropExact?, ← List.isPrefixOf_iff_prefix]
  split <;> simp [*]

theorem dropExact?_append (word cs : List Char) : dropExact? word (word ++ cs) = some cs :=
  dropExact?_eq_some_iff.2 rfl

end Exact

section Kept

variable {word cs : List Char} {d : Char}

/-- A text with a character in it that is not of the word goes on with no word behind its end. -/
theorem dropExact?_append_of_mem (hcs : d ∈ cs) (hword : d ∉ word) (rest : List Char) :
    dropExact? word (cs ++ rest) = (dropExact? word cs).map (· ++ rest) := by
  cases h : dropExact? word cs with
  | some more =>
    rw [dropExact?_eq_some_iff] at h
    rw [h, List.append_assoc, dropExact?_append]
    rfl
  | none =>
    rw [dropExact?_eq_none_iff] at h
    refine dropExact?_eq_none_iff.2 fun hstarts => ?_
    rcases List.prefix_or_prefix_of_prefix hstarts (List.prefix_append cs rest) with hle | hle
    · exact h hle
    · exact hword (hle.subset hcs)

theorem mem_of_dropExact? {rest : List Char} (h : dropExact? word cs = some rest) (hcs : d ∈ cs)
    (hword : d ∉ word) : d ∈ rest := by
  rw [dropExact?_eq_some_iff] at h
  rw [h] at hcs
  exact (List.mem_append.1 hcs).resolve_left hword

theorem takeWhile_append_of_mem {p : Char → Bool} (hcs : d ∈ cs) (hd : p d = false)
    (rest : List Char) : (cs ++ rest).takeWhile p = cs.takeWhile p ∧
      (cs ++ rest).dropWhile p = cs.dropWhile p ++ rest ∧ d ∈ cs.dropWhile p := by
  induction cs with
  | nil => cases hcs
  | cons c cs ih =>
    rw [List.cons_append]
    by_cases hc : p c = true
    · have hne : d ≠ c := by
        rintro rfl
        rw [hd] at hc
        cases hc
      obtain ⟨htake, hdrop, hmem⟩ := ih ((List.mem_cons.1 hcs).resolve_left hne)
      rw [List.takeWhile_cons_of_pos hc, List.takeWhile_cons_of_pos hc,
        List.dropWhile_cons_of_pos hc, List.dropWhile_cons_of_pos hc, htake]
      exact ⟨rfl, hdrop, hmem⟩
    · rw [List.takeWhile_cons_of_neg hc, List.takeWhile_cons_of_neg hc,
        List.dropWhile_cons_of_neg hc, List.dropWhile_cons_of_neg hc]
      exact ⟨rfl, rfl, hcs⟩

theorem trimStart_append_of_mem (hcs : d ∈ cs) (hd : isSpace d = false) (rest : List Char) :
    trimStart (cs ++ rest) = trimStart cs ++ rest ∧ d ∈ trimStart cs :=
  (takeWhile_append_of_mem hcs hd rest).2

end Kept

/-! ## Where a reference starts -/

/-- What a reference of a kind opens with. -/
def opening (kind : ReferenceKind) : List Char := '<' :: kind.element.toList

theorem opening_inj {kind other : ReferenceKind} {cs : List Char}
    (h : opening kind <+: opening other ++ cs) : kind = other := by
  obtain ⟨tail, htail⟩ := h
  cases kind <;> cases other
  all_goals first | rfl | simp [opening, ReferenceKind.element] at htail

theorem referenceOf?_eq_none {kind : ReferenceKind} {cs : List Char} (h : ¬ opening kind <+: cs) :
    referenceOf? kind cs = none := by
  rw [referenceOf?, ← opening, dropExact?_eq_none_iff.2 h]
  rfl

theorem reference?_eq_none {cs : List Char} (h : ∀ kind, ¬ opening kind <+: cs) :
    reference? cs = none :=
  List.findSome?_eq_none_iff.2 fun kind _ => referenceOf?_eq_none (h kind)

/-- Behind what opens a reference of one kind, none of another is looked for. -/
theorem reference?_opening (kind : ReferenceKind) (cs : List Char) :
    reference? (opening kind ++ cs)
      = if (cs.head?.map isWord).getD false then none
        else (includeValue? 'e' cs).map fun (value, rest) => (kind.moduleName value, rest) := by
  have hother (other : ReferenceKind) (h : other ≠ kind) :
      referenceOf? other (opening kind ++ cs) = none :=
    referenceOf?_eq_none fun hstarts => h (opening_inj hstarts)
  have hkind : reference? (opening kind ++ cs) = referenceOf? kind (opening kind ++ cs) := by
    rw [reference?, ReferenceKind.all, List.findSome?_cons, List.findSome?_cons,
      List.findSome?_singleton]
    cases kind
    · rw [hother .assembly (by decide), hother .project (by decide)]
      cases referenceOf? .package (opening .package ++ cs) <;> rfl
    · rw [hother .package (by decide), hother .project (by decide)]
      cases referenceOf? .assembly (opening .assembly ++ cs) <;> rfl
    · rw [hother .package (by decide), hother .assembly (by decide)]
  rw [hkind, referenceOf?, ← opening, dropExact?_append]
  dsimp only [Option.bind_eq_bind, Option.bind_some]
  split
  · rfl
  · cases includeValue? 'e' cs <;> rfl

theorem references_of_none {c : Char} {cs : List Char} (h : reference? (c :: cs) = none) :
    references (c :: cs) = references cs := by
  rw [references]
  split
  · rename_i hsome
    rw [h] at hsome
    cases hsome
  · rfl

theorem references_of_some {cs name rest : List Char} (h : reference? cs = some (name, rest)) :
    references cs = name :: references rest := by
  cases cs with
  | nil => cases h
  | cons c cs =>
    rw [references]
    split
    · rename_i hsome
      rw [h] at hsome
      cases hsome
      rfl
    · rename_i hnone
      rw [h] at hnone
      cases hnone

/-- What opens a reference opens it in the first of two texts, if nothing in the second goes on
with it. -/
theorem opening_prefix_append {kind : ReferenceKind} {cs rest : List Char} (hcs : cs ≠ [])
    (hrest : ∀ c, rest.head? = some c → c ∉ kind.element.toList)
    (h : opening kind <+: cs ++ rest) : opening kind <+: cs := by
  rcases List.prefix_or_prefix_of_prefix h (List.prefix_append cs rest) with hle | ⟨more, hmore⟩
  · exact hle
  · cases more with
    | nil => exact ⟨[], by rw [← hmore]; simp⟩
    | cons d more =>
      rw [← hmore] at h
      obtain ⟨tail, rfl⟩ := (List.prefix_append_right_inj cs).1 h
      obtain ⟨c, cs, rfl⟩ := List.exists_cons_of_ne_nil hcs
      refine absurd ?_ (hrest d rfl)
      rw [← (List.cons.inj hmore).2]
      exact List.mem_append_right cs List.mem_cons_self

/-- Whether no reference is opened in a text. -/
def NoOpening (cs : List Char) : Prop := ∀ kind, ¬ opening kind <:+: cs

theorem mem_all (kind : ReferenceKind) : kind ∈ ReferenceKind.all := by
  cases kind <;> decide

instance (cs : List Char) : Decidable (NoOpening cs) :=
  decidable_of_iff (∀ kind ∈ ReferenceKind.all, ¬ opening kind <:+: cs)
    ⟨fun h kind => h kind (mem_all kind), fun h kind _ => h kind⟩

/-- A text that opens no reference is passed over in front of a mark or the end. -/
theorem references_append_of_noOpening {gap rest : List Char} (hgap : NoOpening gap)
    (hrest : ∀ c, rest.head? = some c → c = '<') :
    references (gap ++ rest) = references rest := by
  have hmark : ∀ kind : ReferenceKind, '<' ∉ kind.element.toList := by
    intro kind
    cases kind <;> decide
  induction gap with
  | nil => rfl
  | cons c gap ih =>
    have hnone : reference? (c :: gap ++ rest) = none := by
      refine reference?_eq_none fun kind hstarts => hgap kind ?_
      refine (opening_prefix_append (List.cons_ne_nil c gap) ?_ hstarts).isInfix
      intro d hd
      rw [hrest d hd]
      exact hmark kind
    rw [List.cons_append] at hnone ⊢
    rw [references_of_none hnone]
    exact ih fun kind hinside => hgap kind (hinside.trans (List.infix_cons List.infix_rfl))

/-! ## Where its value stands -/

theorem includeValue?_here {before : Char} {cs : List Char} {found : List Char × List Char}
    (hbefore : isWord before = false) (h : includeHere? cs = some found) :
    includeValue? before cs = some found := by
  cases cs with
  | nil => cases h
  | cons c cs => rw [includeValue?, hbefore, if_neg Bool.false_ne_true, h]

theorem includeValue?_step {before c : Char} {cs : List Char}
    (h : isWord before = false → includeHere? (c :: cs) = none) :
    includeValue? before (c :: cs) = if c = '>' then none else includeValue? c cs := by
  have hhere : (if isWord before then none else includeHere? (c :: cs)) = none := by
    cases hbefore : isWord before with
    | true => rfl
    | false => exact h hbefore
  rw [includeValue?, hhere]

section Suffix

variable {cs value rest : List Char}

theorem suffix_of_dropExact? {word : List Char} (h : dropExact? word cs = some rest) :
    rest <:+ cs := by
  rw [dropExact?_eq_some_iff] at h
  exact ⟨word, h.symm⟩

theorem suffix_of_includeHere? (h : includeHere? cs = some (value, rest)) : rest <:+ cs := by
  obtain ⟨behind, hname, h⟩ := Option.bind_eq_some_iff.1 h
  obtain ⟨more, hequals, h⟩ := Option.bind_eq_some_iff.1 h
  obtain ⟨start, hquote, h⟩ := Option.bind_eq_some_iff.1 h
  obtain ⟨⟨v, r⟩, hcut, h⟩ := Option.bind_eq_some_iff.1 h
  have hrest : r <:+ start := ⟨v ++ ['"'], by rw [append_of_cut? hcut]; simp⟩
  have hstart : start <:+ cs := ((suffix_of_dropExact? hquote).trans
    ((List.dropWhile_suffix isSpace).trans (suffix_of_dropExact? hequals))).trans
      ((List.dropWhile_suffix isSpace).trans (suffix_of_dropExact? hname))
  dsimp only at h
  split at h
  · cases h
  · cases h
    exact hrest.trans hstart

theorem suffix_of_includeValue? {before : Char} (h : includeValue? before cs = some (value, rest)) :
    rest <:+ cs := by
  induction cs generalizing before with
  | nil => cases h
  | cons c cs ih =>
    rw [includeValue?] at h
    split at h
    · rename_i hfound
      cases h
      split at hfound
      · cases hfound
      · exact suffix_of_includeHere? hfound
    · split at h
      · cases h
      · exact (ih h).trans (List.suffix_cons c cs)

theorem suffix_of_reference? {name : List Char} (h : reference? cs = some (name, rest)) :
    rest <:+ cs := by
  obtain ⟨kind, -, h⟩ := List.exists_of_findSome?_eq_some h
  obtain ⟨behind, hopening, h⟩ := Option.bind_eq_some_iff.1 h
  dsimp only at h
  split at h
  · cases h
  · obtain ⟨⟨value, more⟩, hvalue, heq⟩ := Option.bind_eq_some_iff.1 h
    cases heq
    exact (suffix_of_includeValue? hvalue).trans (suffix_of_dropExact? hopening)

end Suffix

end Project

end TaskWrappers
