import TaskWrappers.Proofs.TypeExpr.Exact

/-!
# Tuples in types

A type with a tuple somewhere in it is what a text with a parenthesis stands for, and no other
(`TypeExpr.leftParen_mem_iff`): nothing else in a type is written in parentheses.
-/

namespace TaskWrappers

open Text TypeToken

mutual

/-- Whether a tuple stands somewhere in a type. -/
def TypeExpr.hasTuple : TypeExpr → Bool
  | .keyword _ => false
  | .named _ outer last => Segment.anyTuple outer || last.hasTuple
  | .nullable inner => inner.hasTuple
  | .array element _ => element.hasTuple
  | .tuple .. => true

def Segment.hasTuple : Segment → Bool
  | .plain _ => false
  | .generic _ first rest => first.hasTuple || TypeArg.anyTuple rest

def Segment.anyTuple : List Segment → Bool
  | [] => false
  | s :: ss => s.hasTuple || Segment.anyTuple ss

def TypeArg.hasTuple : TypeArg → Bool
  | .omitted => false
  | .given type => type.hasTuple

def TypeArg.anyTuple : List TypeArg → Bool
  | [] => false
  | a :: as => a.hasTuple || TypeArg.anyTuple as

end

mutual

theorem TypeExpr.leftParen_mem_tokens : ∀ t : TypeExpr, leftParen ∈ t.tokens ↔ t.hasTuple = true
  | .keyword _ => by simp [TypeExpr.tokens, TypeExpr.hasTuple]
  | .named qualifier outer last => by
    have houter := Segment.leftParen_mem_dottedTokens outer
    have hlast := Segment.leftParen_mem_tokens last
    cases qualifier <;> simp [TypeExpr.tokens, TypeExpr.hasTuple, houter, hlast]
  | .nullable inner => by
    have hinner := TypeExpr.leftParen_mem_tokens inner
    simp [TypeExpr.tokens, TypeExpr.hasTuple, hinner]
  | .array element commas => by
    have helement := TypeExpr.leftParen_mem_tokens element
    simp [TypeExpr.tokens, TypeExpr.hasTuple, helement]
  | .tuple first second rest => by simp [TypeExpr.tokens, TypeExpr.hasTuple]

theorem Segment.leftParen_mem_tokens : ∀ s : Segment, leftParen ∈ s.tokens ↔ s.hasTuple = true
  | .plain _ => by simp [Segment.tokens, Segment.hasTuple]
  | .generic _ first rest => by
    have hfirst := TypeArg.leftParen_mem_tokens first
    have hrest := TypeArg.leftParen_mem_restTokens rest
    simp [Segment.tokens, Segment.hasTuple, hfirst, hrest]

theorem Segment.leftParen_mem_dottedTokens : ∀ ss : List Segment,
    leftParen ∈ Segment.dottedTokens ss ↔ Segment.anyTuple ss = true
  | [] => by simp [Segment.dottedTokens, Segment.anyTuple]
  | s :: ss => by
    have hs := Segment.leftParen_mem_tokens s
    have hss := Segment.leftParen_mem_dottedTokens ss
    simp [Segment.dottedTokens, Segment.anyTuple, hs, hss]

theorem TypeArg.leftParen_mem_tokens : ∀ a : TypeArg, leftParen ∈ a.tokens ↔ a.hasTuple = true
  | .omitted => by simp [TypeArg.tokens, TypeArg.hasTuple]
  | .given type => by
    have htype := TypeExpr.leftParen_mem_tokens type
    simp [TypeArg.tokens, TypeArg.hasTuple, htype]

theorem TypeArg.leftParen_mem_restTokens : ∀ as : List TypeArg,
    leftParen ∈ TypeArg.restTokens as ↔ TypeArg.anyTuple as = true
  | [] => by simp [TypeArg.restTokens, TypeArg.anyTuple]
  | a :: as => by
    have ha := TypeArg.leftParen_mem_tokens a
    have has := TypeArg.leftParen_mem_restTokens as
    simp [TypeArg.restTokens, TypeArg.anyTuple, ha, has]

end

theorem Segment.anyTuple_plain (names : List String) :
    Segment.anyTuple (names.map .plain) = false := by
  induction names with
  | nil => rfl
  | cons n ns ih => rw [List.map_cons, Segment.anyTuple, Segment.hasTuple, ih, Bool.or_false]

namespace TypeToken

variable {cs : List Char}

theorem mem_dropWhile_isNameRest {c : Char} (hc : isNameRest c = false) :
    c ∈ cs.dropWhile isNameRest ↔ c ∈ cs := by
  refine ⟨fun h => (List.dropWhile_sublist _).subset h, fun h => ?_⟩
  rw [← List.takeWhile_append_dropWhile (p := isNameRest) (l := cs)] at h
  rcases List.mem_append.1 h with h | h
  · rw [List.all_eq_true.1 List.all_takeWhile c h] at hc
    cases hc
  · exact h

theorem ofChar?_eq_leftParen {c : Char} : ofChar? c = some leftParen ↔ c = '(' := by
  constructor
  · intro h
    unfold ofChar? at h
    split at h <;> first | rfl | cases h
  · rintro rfl
    rfl

/-- A text opens parentheses where its tokens do. -/
theorem leftParen_mem_scan {ts : List TypeToken} (h : scan cs = .ok ts) :
    leftParen ∈ ts ↔ '(' ∈ cs := by
  fun_induction scan cs generalizing ts with
  | case1 =>
    cases h
    simp
  | case2 c cs hspace ih =>
    have hne : '(' ≠ c := by
      rintro rfl
      exact absurd hspace (by decide)
    rw [List.mem_cons, ih h, or_iff_right hne]
  | case3 c cs _ t ht ih =>
    obtain ⟨us, hus, rfl⟩ := Except.exists_of_map_eq_ok h
    have hhead : leftParen = t ↔ '(' = c := by
      rw [eq_comm, ← Option.some_inj, ← ht, ofChar?_eq_leftParen, eq_comm]
    rw [List.mem_cons, List.mem_cons, ih hus, hhead]
  | case4 cs _ _ ih =>
    obtain ⟨us, hus, rfl⟩ := Except.exists_of_map_eq_ok h
    simp [ih hus]
  | case5 => cases h
  | case6 => cases h
  | case7 cs =>
    rename_i ih
    obtain ⟨us, hus, rfl⟩ := Except.exists_of_map_eq_ok h
    rw [List.mem_cons, List.mem_cons, ih hus, mem_dropWhile_isNameRest (by decide),
      or_iff_right (by simp), or_iff_right (by decide)]
  | case8 c cs _ _ _ _ hc ih =>
    obtain ⟨us, hus, rfl⟩ := Except.exists_of_map_eq_ok h
    have hne : '(' ≠ c := by
      rintro rfl
      exact absurd hc (by decide)
    rw [List.mem_cons, List.mem_cons, ih hus, mem_dropWhile_isNameRest (by decide),
      or_iff_right (by simp), or_iff_right hne]
  | case9 => cases h

end TypeToken

/-- A text has a parenthesis exactly if the type it is read as has a tuple. -/
theorem TypeExpr.leftParen_mem_iff {text : String} {t : TypeExpr} (h : read text = .ok t) :
    '(' ∈ text.toList ↔ t.hasTuple = true := by
  rw [← leftParen_mem_scan (read_exact h), leftParen_mem_tokens]

end TaskWrappers
