import TaskWrappers.Proofs.Text.Space
import TaskWrappers.Proofs.TypeExpr.Exact

/-!
# Types without their white space

White space in a type only separates, so that it can be taken out of a text as long as it separates
nothing that would run together. A mark runs together with nothing, and two colons with white space
between them are no token to begin with. So a text has the same tokens without its white space
exactly if no two of its names have only white space between them
(`TypeToken.scan_withoutSpace_iff`).
-/

namespace TaskWrappers

open Text TypeToken

namespace Text

/-- Whether a text goes on with a name behind white space. -/
def runsOn (cs : List Char) : Bool :=
  cs.head?.any isSpace && (trimStart cs).head?.any isNameRest

/-- Whether two names somewhere in a text have only white space between them. -/
def spacedNames : List Char → Bool
  | [] => false
  | c :: cs => (isNameRest c && runsOn cs) || spacedNames cs

section Spaceless

variable {cs : List Char}

/-- No white space stands inside of a name. -/
theorem withoutSpace_eq_takeWhile_append (cs : List Char) : withoutSpace cs
    = cs.takeWhile isNameRest ++ withoutSpace (cs.dropWhile isNameRest) := by
  have hname : withoutSpace (cs.takeWhile isNameRest) = cs.takeWhile isNameRest :=
    withoutSpace_of_forall fun c hc =>
      isSpace_of_isNameRest (List.all_eq_true.1 List.all_takeWhile c hc)
  conv_lhs => rw [← List.takeWhile_append_dropWhile (p := isNameRest) (l := cs)]
  rw [withoutSpace_append, hname]

theorem runsOn_cons {c : Char} (hc : isSpace c = false) : runsOn (c :: cs) = false := by
  rw [runsOn, List.head?_cons, Option.any_some, hc, Bool.false_and]

theorem spacedNames_cons {c : Char} (hc : isNameRest c = false) :
    spacedNames (c :: cs) = spacedNames cs := by
  rw [spacedNames, hc, Bool.false_and, Bool.false_or]

theorem spacedNames_cons_of_isSpace {c : Char} (hc : isSpace c = true) :
    spacedNames (c :: cs) = spacedNames cs := by
  refine spacedNames_cons (Bool.eq_false_iff.2 fun hname => ?_)
  rw [isSpace_of_isNameRest hname] at hc
  cases hc

/-- Only behind the last character of a name can white space stand in front of another one. -/
theorem spacedNames_of_isNameRest {c : Char} (hc : isNameRest c = true) : spacedNames (c :: cs)
    = (runsOn (cs.dropWhile isNameRest) || spacedNames (cs.dropWhile isNameRest)) := by
  induction cs generalizing c with
  | nil => rw [spacedNames, hc, Bool.true_and, List.dropWhile_nil]
  | cons d ds ih =>
    rw [spacedNames, hc, Bool.true_and]
    by_cases hd : isNameRest d = true
    · rw [runsOn_cons (isSpace_of_isNameRest hd), Bool.false_or, ih hd,
        List.dropWhile_cons_of_pos hd]
    · rw [List.dropWhile_cons_of_neg hd]

theorem spacedNames_of_takeWhile (h : cs.takeWhile isNameRest ≠ []) : spacedNames cs
    = (runsOn (cs.dropWhile isNameRest) || spacedNames (cs.dropWhile isNameRest)) := by
  cases cs with
  | nil => exact absurd rfl h
  | cons c cs =>
    by_cases hc : isNameRest c = true
    · rw [List.dropWhile_cons_of_pos hc, spacedNames_of_isNameRest hc]
    · exact absurd (List.takeWhile_cons_of_neg hc) h

theorem breaks_dropWhile (cs : List Char) : Breaks (cs.dropWhile isNameRest) := by
  intro d hd
  have hhead := List.head?_dropWhile_not isNameRest cs
  rw [hd] at hhead
  exact hhead

/-- Without white space a name goes on exactly if it did behind white space. -/
theorem breaks_withoutSpace_iff (h : Breaks cs) : Breaks (withoutSpace cs) ↔ runsOn cs = false := by
  cases cs with
  | nil => exact iff_of_true breaks_nil rfl
  | cons c cs =>
    by_cases hc : isSpace c = true
    · rw [Breaks, head?_withoutSpace, runsOn, List.head?_cons, Option.any_some, hc, Bool.true_and]
      cases (trimStart (c :: cs)).head? <;> simp
    · rw [Bool.not_eq_true] at hc
      rw [withoutSpace_cons hc]
      exact iff_of_true (breaks_cons (h c rfl)) (runsOn_cons hc)

end Spaceless
end Text

namespace TypeToken

section Scan

variable {cs : List Char} {ts us : List TypeToken}

theorem map_cons_eq_ok_iff {t u : TypeToken} {x : Except TypeError (List TypeToken)} :
    x.map (t :: ·) = .ok (u :: us) ↔ t = u ∧ x = .ok us := by
  cases x with
  | error e => simp [Except.map]
  | ok ts => simp [Except.map]

/-- A character that a name has is no mark. -/
theorem isNameRest_of_ofChar? {c : Char} {t : TypeToken} (h : ofChar? c = some t) :
    isNameRest c = false := by
  unfold ofChar? at h
  split at h
  all_goals first | decide | cases h

/-- Behind a name, white space can be taken out exactly if the name ends all the same and what
follows keeps its tokens. -/
theorem rest_withoutSpace_iff (hbreaks : Breaks cs)
    (h : scan (withoutSpace cs) = .ok us ↔ spacedNames cs = false) :
    ((withoutSpace cs).takeWhile isNameRest = [] ∧
        scan ((withoutSpace cs).dropWhile isNameRest) = .ok us)
      ↔ (runsOn cs || spacedNames cs) = false := by
  rw [Bool.or_eq_false_iff, ← breaks_withoutSpace_iff hbreaks, ← h]
  have hends : (withoutSpace cs).takeWhile isNameRest = [] ↔ Breaks (withoutSpace cs) := by
    cases withoutSpace cs with
    | nil => exact iff_of_true rfl breaks_nil
    | cons d ds => simp [Breaks, List.takeWhile_cons]
  rw [hends]
  refine and_congr_right fun hd => ?_
  have hnone := (takeWhile_append_of_breaks hd []).2
  rw [List.nil_append, List.dropWhile_nil, List.nil_append] at hnone
  rw [hnone]

/-- A text has the same tokens without its white space exactly if no two of its names have only
white space between them. -/
theorem scan_withoutSpace_iff (h : scan cs = .ok ts) :
    scan (withoutSpace cs) = .ok ts ↔ spacedNames cs = false := by
  fun_induction scan cs generalizing ts with
  | case1 =>
    cases h
    exact iff_of_true (by rw [withoutSpace, List.filter_nil, scan]) rfl
  | case2 c cs hspace ih =>
    rw [withoutSpace_cons_of_isSpace hspace, spacedNames_cons_of_isSpace hspace, ih h]
  | case3 c cs hspace t ht ih =>
    rw [Bool.not_eq_true] at hspace
    obtain ⟨us, hus, rfl⟩ := Except.exists_of_map_eq_ok h
    rw [withoutSpace_cons hspace, spacedNames_cons (isNameRest_of_ofChar? ht), ← ih hus,
      scan.eq_def]
    simp only [hspace, Bool.false_eq_true, if_false, ht]
    rw [map_cons_eq_ok_iff, and_iff_right rfl]
  | case4 cs hspace hmark ih =>
    rw [Bool.not_eq_true] at hspace
    obtain ⟨us, hus, rfl⟩ := Except.exists_of_map_eq_ok h
    rw [withoutSpace_cons hspace, withoutSpace_cons hspace, spacedNames_cons (by decide),
      spacedNames_cons (by decide), ← ih hus, scan.eq_def]
    simp only [hspace, Bool.false_eq_true, if_false, hmark, if_true]
    rw [map_cons_eq_ok_iff, and_iff_right rfl]
  | case5 => cases h
  | case6 => cases h
  | case7 cs word hword =>
    rename_i ih
    obtain ⟨us, hus, rfl⟩ := Except.exists_of_map_eq_ok h
    have hne : word ≠ [] := by simpa using hword
    have hname : ∀ c ∈ word, isNameRest c = true := List.all_eq_true.1 List.all_takeWhile
    rw [withoutSpace_cons (by decide), withoutSpace_eq_takeWhile_append, scan_verbatim hne hname,
      map_cons_eq_ok_iff, spacedNames_cons (by decide), spacedNames_of_takeWhile hne,
      ← rest_withoutSpace_iff (breaks_dropWhile cs) (ih hus)]
    simp [word]
  | case8 c cs _ _ _ _ hstart ih =>
    obtain ⟨us, hus, rfl⟩ := Except.exists_of_map_eq_ok h
    have hname := List.all_eq_true.1 (List.all_takeWhile (p := isNameRest) (l := cs))
    rw [withoutSpace_cons (isSpace_of_isNameStart hstart), withoutSpace_eq_takeWhile_append,
      scan_start hstart, List.takeWhile_append_of_pos hname, List.dropWhile_append_of_pos hname,
      map_cons_eq_ok_iff, spacedNames_of_isNameRest (isNameRest_of_isNameStart hstart),
      ← rest_withoutSpace_iff (breaks_dropWhile cs) (ih hus)]
    simp
  | case9 => cases h

end Scan
end TypeToken

end TaskWrappers
