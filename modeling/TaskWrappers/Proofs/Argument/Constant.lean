import TaskWrappers.Marker
import TaskWrappers.Proofs.Argument.Parts
import TaskWrappers.Proofs.ConstantExpr.Trimmed

/-!
# Constants as arguments

No constant expression is taken for a named argument (`Argument.ofText_of_constant`). The two
readers know nothing of each other, but behind a name in front of a single `=` or `:` comes a token
that no sum can go on with. So the first constant among arguments that have no name is not passed
over, and gives the task its name (`TaskName.resolve_of_constant`).
-/

namespace TaskWrappers

open Text

namespace ConstantExpr

open ConstantToken

variable {lookup : Lookup} {n : Nat} {c : Char} {us : List ConstantToken}

theorem sum_other : sum lookup n (other c :: us) = none := by
  cases n with
  | zero => rfl
  | succ n =>
    rw [sum_succ]
    rfl

/-- A character without a meaning ends the sum in front of it. -/
theorem rest_of_sum_other {w v : String} {rest : List ConstantToken}
    (h : sum lookup n (name w :: other c :: us) = some (v, rest)) : rest = other c :: us := by
  cases n with
  | zero => cases h
  | succ n =>
    have hparen : w = "nameof" → (other c :: us).head? ≠ some leftParen := fun _ => by simp
    rw [sum_succ, term_path hparen] at h
    obtain ⟨⟨value, behind⟩, hterm, hmore⟩ := Option.bind_eq_some_iff.1 h
    obtain ⟨_, -, heq⟩ := Option.map_eq_some_iff.1 hterm
    cases heq
    cases hmore
    rfl

end ConstantExpr

namespace Argument

open ConstantToken ConstantExpr

/-- What comes behind the `=` or `:` of a name starts with a token that nothing can go on with. -/
theorem exists_other_of_assigned? {rest value : List Char} (h : assigned? rest = some value)
    {us : List ConstantToken} (hscan : scan rest = some us) : ∃ c vs, us = other c :: vs := by
  have hother {c : Char} (htext : trimStart rest = c :: value) (hread : scan (c :: value)
      = (scan value).map (other c :: ·)) : ∃ c vs, us = other c :: vs := by
    rw [← scan_trimStart, htext, hread] at hscan
    obtain ⟨vs, -, rfl⟩ := Option.map_eq_some_iff.1 hscan
    exact ⟨c, vs, rfl⟩
  unfold assigned? at h
  split at h
  · rename_i tail htext
    split at h
    · cases h
    · cases h
      exact hother htext (scan_unquoted (by decide) rfl)
  · rename_i tail htext
    split at h
    · cases h
    · rename_i hcolon
      cases h
      refine hother htext ((scan_unquoted (by decide) rfl).trans ?_)
      rw [decide_eq_false hcolon]
      rfl
  · cases h

variable {lookup : Lookup}

/-- A name in front of a constant expression is not in front of a single `=` or `:`. -/
theorem assigned?_of_sum {rest : List Char} {w v : String} {us : List ConstantToken} {n : Nat}
    (hscan : scan rest = some us)
    (hsum : sum lookup n (ConstantToken.name w :: us) = some (v, [])) : assigned? rest = none := by
  cases hvalue : assigned? rest with
  | none => rfl
  | some value =>
    obtain ⟨c, vs, rfl⟩ := exists_other_of_assigned? hvalue hscan
    cases rest_of_sum_other hsum

theorem ofChar_of_isNameRest {c : Char} (h : isNameRest c = true) : ofChar c = other c := by
  unfold ofChar
  split
  any_goals cases h
  rfl

/-- What a constant expression opens with is no name, or none in front of a single `=` or `:`. -/
theorem assigned?_of_scan {c : Char} {tail : List Char} {ts : List ConstantToken} {n : Nat}
    {v : String} (hspace : isSpace c = false) (hscan : scan (c :: tail) = some ts)
    (hsum : sum lookup n ts = some (v, [])) :
    (mark (c :: tail) = [] ∧ word (c :: tail) = []) ∨ assigned? (behind (c :: tail)) = none := by
  have hplain (hat : c ≠ '@') : mark (c :: tail) = [] := if_neg fun heq => hat (Option.some.inj heq)
  have hnone (hat : c ≠ '@') (hrest : isNameRest c = false) :
      mark (c :: tail) = [] ∧ word (c :: tail) = [] := by
    rw [word, hplain hat]
    exact ⟨rfl, List.takeWhile_cons_of_neg (by rw [hrest]; exact Bool.false_ne_true)⟩
  cases hstring : string? (c :: tail) with
  | some found =>
    obtain ⟨d, rest, heq, hd⟩ := exists_of_string? hstring
    cases heq
    rcases hd with rfl | rfl | rfl
    · exact .inl (hnone (by decide) (by decide))
    · -- a verbatim or interpolated string
      unfold string? at hstring
      split at hstring
      · rename_i heq
        cases heq
      · rename_i heq
        cases heq
        exact .inr rfl
      · rename_i heq
        cases heq
        exact .inr rfl
      · rename_i heq
        cases heq
      · rename_i heq
        cases heq
      · cases hstring
    · exact .inl (hnone (by decide) (by decide))
  | none =>
    rw [scan_unquoted (by rw [hspace]; exact Bool.false_ne_true) hstring] at hscan
    split at hscan
    · rename_i hat
      rw [Bool.and_eq_true, decide_eq_true_iff] at hat
      obtain ⟨rfl, -⟩ := hat
      obtain ⟨us, hus, rfl⟩ := Option.map_eq_some_iff.1 hscan
      exact .inr (assigned?_of_sum hus hsum)
    · rename_i hat
      split at hscan
      · rename_i hstart
        obtain ⟨us, hus, rfl⟩ := Option.map_eq_some_iff.1 hscan
        have hc : c ≠ '@' := by
          rintro rfl
          cases hstart
        refine .inr ?_
        rw [behind, hplain hc, List.length_nil, List.drop_zero,
          List.dropWhile_cons_of_pos (isNameRest_of_isNameStart hstart)]
        exact assigned?_of_sum hus hsum
      · split at hscan
        · rename_i hcolons
          rw [Bool.and_eq_true, decide_eq_true_iff] at hcolons
          obtain ⟨rfl, -⟩ := hcolons
          exact .inl (hnone (by decide) (by decide))
        · obtain ⟨us, -, rfl⟩ := Option.map_eq_some_iff.1 hscan
          by_cases hother : ofChar c = other c
          · rw [hother, sum_other] at hsum
            cases hsum
          · refine .inl (hnone ?_ ?_)
            · rintro rfl
              exact hother rfl
            · exact Bool.eq_false_iff.2 fun hrest => hother (ofChar_of_isNameRest hrest)

/-- A constant expression is a positional argument. -/
theorem ofText_of_constant {e v : String} (h : ConstantExpr.value? lookup e = some v) :
    ofText e = ⟨none, trimmed e⟩ := by
  obtain ⟨ts, hscan, hsum⟩ := value?_eq_some_iff.1 h
  rw [← scan_trim] at hscan
  cases hcs : trim e.toList with
  | nil => refine ofText_of_empty ?_ ?_ <;> rw [hcs] <;> rfl
  | cons c tail =>
    have hhead : (trim e.toList).head? = some c := by rw [hcs, List.head?_cons]
    have hspace : isSpace c = false := isSpace_of_head?_trim hhead
    rw [hcs] at hscan
    obtain ⟨hmark, hword⟩ | hvalue := assigned?_of_scan hspace hscan hsum
    · exact ofText_of_empty (hcs ▸ hmark) (hcs ▸ hword)
    · exact ofText_of_assigned?_eq_none (hcs ▸ hvalue)

end Argument

/-- The first constant among the arguments that have no name is the task's name. -/
theorem TaskName.resolve_of_constant {m : Model} {s : Scope} {e v : String}
    (h : m.constantValue s e = some v) {before : List String}
    (hbefore : ∀ t ∈ before, (Argument.ofText t).name.isSome = true) (after : List String)
    {marker : Marker} {written : String} (hmeant : marker.isMeant written = true)
    (declared : String) (span : Span) (more : List Attribute) :
    resolve m s marker
        (⟨written, (before ++ e :: after).map Argument.ofText, span⟩ :: more) declared
      = ⟨v, .attributed⟩ := by
  have hpositional : Argument.ofText e = ⟨none, trimmed e⟩ := Argument.ofText_of_constant h
  have hnone : (before.map Argument.ofText).find? (·.name.isNone) = none := by
    refine List.find?_eq_none.2 fun x hx => ?_
    obtain ⟨t, ht, rfl⟩ := List.mem_map.1 hx
    simpa [Option.isNone_iff_eq_none, Option.isSome_iff_ne_none] using hbefore t ht
  have hargument : Attribute.nameArgument?
      ⟨written, (before ++ e :: after).map Argument.ofText, span⟩ = some (trimmed e) := by
    rw [Attribute.nameArgument?, Attribute.firstPositional, List.map_append, List.map_cons,
      List.find?_append, hnone, hpositional]
    rfl
  have hvalue : m.constantValue s (trimmed e) = some v := (m.constantValue_trimmed s e).trans h
  rw [resolve, List.findSome?_cons]
  dsimp only
  rw [if_pos hmeant, hargument]
  show ofArgument m s declared (trimmed e) span = _
  rw [ofArgument, hvalue]

end TaskWrappers
