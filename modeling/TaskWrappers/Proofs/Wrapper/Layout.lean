import Mathlib.Data.List.Basic
import TaskWrappers.Proofs.Text.Space
import TaskWrappers.Proofs.TypeExpr.Path
import TaskWrappers.Wrapper.Source

/-!
# The layout of the generated class

Laying a text out changes nothing but the white space in it (`Plan.joined_indented`): a line break
gets a margin behind it, and a text that holds no line break is kept as it is wherever it stands
(`Plan.exists_laid`). So a place in a text that is laid out is found again by what stands in front
of it, white space apart, if no white space stands there (`Text.append_cons_inj`).
-/

namespace TaskWrappers

namespace Text

theorem split_append {p : Char → Bool} {w : List Char} (hw : ∀ c ∈ w, p c = false)
    (y : List Char) : ∃ q qs, split p y = q :: qs ∧ split p (w ++ y) = (w ++ q) :: qs := by
  induction w with
  | nil =>
    obtain ⟨q, qs, hy⟩ := List.exists_cons_of_ne_nil (split_ne_nil p y)
    exact ⟨q, qs, hy, hy⟩
  | cons c w ih =>
    obtain ⟨q, qs, hy, hwy⟩ := ih fun d hd => hw d (List.mem_cons_of_mem c hd)
    refine ⟨q, qs, hy, ?_⟩
    rw [List.cons_append, split, hw c List.mem_cons_self, if_neg Bool.false_ne_true, hwy]
    rfl

/-- What stands in front of a character that is no white space is told by what of it is none. -/
theorem append_cons_inj {a b r s : List Char} {c d : Char} (hc : isSpace c = false)
    (hd : isSpace d = false) (h : a ++ c :: r = b ++ d :: s)
    (hab : withoutSpace a = withoutSpace b) : a = b ∧ c :: r = d :: s := by
  have hnone {e : Char} (he : isSpace e = false) (x more : List Char) :
      withoutSpace x ≠ withoutSpace (x ++ e :: more) := by
    rw [withoutSpace_append, withoutSpace_cons he]
    simp
  rcases List.append_eq_append_iff.1 h with ⟨more, rfl, hmore⟩ | ⟨more, rfl, hmore⟩
  · cases more with
    | nil => exact ⟨(List.append_nil a).symm, hmore⟩
    | cons e more =>
      obtain ⟨rfl, -⟩ := List.cons.inj hmore
      exact (hnone hc a more hab).elim
  · cases more with
    | nil => exact ⟨List.append_nil b, hmore.symm⟩
    | cons e more =>
      obtain ⟨rfl, -⟩ := List.cons.inj hmore
      exact (hnone hd b more hab.symm).elim

theorem flatMap_withoutSpace_split (cs : List Char) :
    (split (· == '\n') cs).flatMap withoutSpace = withoutSpace cs := by
  induction cs with
  | nil => rfl
  | cons c cs ih =>
    by_cases hc : c = '\n'
    · subst hc
      exact ih
    · obtain ⟨q, qs, hq, hsplit⟩ := split_append (p := (· == '\n')) (w := [c])
        (by simpa using hc) cs
      rw [hq, List.flatMap_cons] at ih
      rw [← List.singleton_append, hsplit, List.flatMap_cons, withoutSpace_append,
        withoutSpace_append, List.append_assoc, ih]

theorem joined_append (a b : String) : joined (a ++ b) = joined a ++ joined b := by
  rw [joined, String.toList_append, withoutSpace_append, String.ofList_append, joined, joined]

end Text

open Text

namespace Plan

/-- A text that is not empty and holds no line break. -/
structure Solid (w : List Char) : Prop where
  ne_nil : w ≠ []
  not_newline : '\n' ∉ w
  not_return : '\r' ∉ w

instance (w : List Char) : Decidable (Solid w) :=
  decidable_of_iff (w ≠ [] ∧ '\n' ∉ w ∧ '\r' ∉ w)
    ⟨fun ⟨hne, hnewline, hreturn⟩ => ⟨hne, hnewline, hreturn⟩,
      fun h => ⟨h.ne_nil, h.not_newline, h.not_return⟩⟩

theorem Solid.append {v w : List Char} (hv : Solid v) (hw : Solid w) : Solid (v ++ w) where
  ne_nil := List.append_ne_nil_of_left_ne_nil hv.ne_nil w
  not_newline h := (List.mem_append.1 h).elim hv.not_newline hw.not_newline
  not_return h := (List.mem_append.1 h).elim hv.not_return hw.not_return

/-- The rest of a line in which something stands already, and the lines that follow it. -/
def resume (cs : List Char) : List Char :=
  match split (· == '\n') cs with
  | [] => []
  | q :: qs => dropReturn q ++ '\n' :: qs.flatMap laidLine

theorem dropReturn_append {w : List Char} (hw : Solid w) (t q : List Char) :
    dropReturn (t ++ w ++ q) = t ++ w ++ dropReturn q := by
  have hlast : (t ++ w).getLast? ≠ some '\r' := by
    rw [List.getLast?_append_of_ne_nil _ hw.ne_nil]
    exact fun h => hw.not_return (List.mem_of_getLast? h)
  unfold dropReturn
  by_cases hq : q = []
  · subst hq
    rw [List.append_nil, if_neg hlast]
    exact (List.append_nil _).symm
  · rw [List.getLast?_append_of_ne_nil _ hq]
    split
    · rw [List.dropLast_append_of_ne_nil hq]
    · rfl

theorem withoutSpace_dropReturn (cs : List Char) :
    withoutSpace (dropReturn cs) = withoutSpace cs := by
  unfold dropReturn
  split
  · rename_i h
    obtain ⟨ds, rfl⟩ := List.getLast?_eq_some_iff.1 h
    rw [List.dropLast_concat, withoutSpace_append]
    exact (List.append_nil _).symm
  · rfl

theorem withoutSpace_laidLine (cs : List Char) :
    withoutSpace (laidLine cs) = withoutSpace cs := by
  have hmargin : withoutSpace "        ".toList = [] := by decide
  have hbreak : withoutSpace ['\n'] = [] := by decide
  rw [laidLine, withoutSpace_append, hbreak, List.append_nil]
  split
  · rename_i h
    rw [← withoutSpace_dropReturn cs, List.isEmpty_iff.1 h]
  · rw [withoutSpace_append, hmargin, List.nil_append, withoutSpace_dropReturn]

theorem withoutSpace_laid (cs : List Char) : withoutSpace (laid cs) = withoutSpace cs := by
  rw [laid, withoutSpace, List.filter_flatMap, ← flatMap_withoutSpace_split]
  exact congrArg (List.flatMap · _) (funext withoutSpace_laidLine)

theorem laid_line {t w : List Char} (ht : '\n' ∉ t) (hw : Solid w) (y : List Char) :
    laid (t ++ w ++ y) = "        ".toList ++ t ++ w ++ resume y := by
  have htw : ∀ c ∈ t ++ w, (c == '\n') = false := by
    intro c hc
    refine beq_false_of_ne ?_
    rintro rfl
    rcases List.mem_append.1 hc with hc | hc
    · exact ht hc
    · exact hw.not_newline hc
  obtain ⟨q, qs, hy, htwy⟩ := split_append htw y
  have hne : (t ++ w ++ dropReturn q).isEmpty = false := by
    rw [List.isEmpty_eq_false_iff]
    exact List.append_ne_nil_of_left_ne_nil (List.append_ne_nil_of_right_ne_nil _ hw.ne_nil) _
  rw [laid, htwy, resume, hy, List.flatMap_cons, laidLine, dropReturn_append hw, hne,
    if_neg Bool.false_ne_true]
  simp only [List.append_assoc, List.cons_append, List.nil_append]

theorem laid_append_newline (p t : List Char) (hp : '\n' ∉ p) :
    laid (p ++ '\n' :: t) = laidLine p ++ laid t := by
  have hsplit : split (· == '\n') p = [p] := by
    rw [split_eq_splitOnP, List.splitOnP_eq_singleton]
    exact fun c hc => beq_false_of_ne fun h => hp (h ▸ hc)
  rw [laid, split_append_cons rfl, hsplit, List.flatMap_append, List.flatMap_singleton, laid]

/-- What stands before a text without line breaks is laid out by itself. -/
theorem exists_laid : ∀ t : List Char, ∃ t', withoutSpace t' = withoutSpace t ∧
    ∀ w y, Solid w → laid (t ++ w ++ y) = t' ++ w ++ resume y := by
  intro t
  -- by the lines of the text: what stands behind its first line break is shorter
  induction hlength : t.length using Nat.strongRecOn generalizing t with
  | _ k ih =>
    by_cases ht : '\n' ∈ t
    · obtain ⟨p, rest, rfl, hp⟩ := List.eq_append_cons_of_mem ht
      obtain ⟨rest', hrest, hlaid⟩ := ih rest.length (by simp at hlength; omega) rest rfl
      refine ⟨laidLine p ++ rest', ?_, fun w y hw => ?_⟩
      · rw [withoutSpace_append, withoutSpace_laidLine, withoutSpace_append, hrest]
        rfl
      · simp only [List.append_assoc, List.cons_append] at hlaid ⊢
        rw [laid_append_newline _ _ hp, hlaid w y hw]
    · refine ⟨"        ".toList ++ t, ?_, fun w y hw => laid_line ht hw y⟩
      rw [withoutSpace_append]
      rfl

theorem joined_indented (line : String) : joined (indented line) = joined line := by
  rw [joined, indented, String.toList_ofList, withoutSpace_laid, joined]

theorem joined_join_indented (lines : List String) :
    joined (String.join (lines.map indented)) = joined (String.join lines) := by
  induction lines with
  | nil => rfl
  | cons line lines ih =>
    rw [List.map_cons, String.join_cons, String.join_cons, joined_append, joined_append,
      joined_indented, ih]

/-- A line that is not broken gets its margin and its end. -/
theorem indented_of_solid {line : String} (h : Solid line.toList) :
    indented line = "        " ++ line ++ "\n" := by
  have hlaid := laid_line (t := []) nofun h []
  rw [List.nil_append, List.append_nil] at hlaid
  rw [indented, hlaid, String.ofList_append, String.ofList_append]
  simp [resume, split, dropReturn]

theorem exists_indented (t : String) : ∃ t', joined t' = joined t ∧
    ∀ w y : String, Solid w.toList →
      indented (t ++ w ++ y) = t' ++ w ++ .ofList (resume y.toList) := by
  obtain ⟨t', ht, hlaid⟩ := exists_laid t.toList
  refine ⟨.ofList t', by rw [joined, String.toList_ofList, ht, joined], fun w y hw => ?_⟩
  rw [indented, String.toList_append, String.toList_append, hlaid _ _ hw, String.ofList_append,
    String.ofList_append, String.ofList_toList]

end Plan

end TaskWrappers
