import TaskWrappers.Text.Class

/-!
# Names

A name opens with a letter or an underscore and goes on with letters, numbers and underscores, up to
the first character that is none of these (`takeWhile_append_of_breaks`). No
character of a name is white space (`isSpace_of_isNameRest`), which is what lets a scanner look for
white space first: a class given by its edges is the union of the runs between them
(`inEdges_cons_cons`), so the white space beyond the first 128 code points is a list of nineteen,
and none of those counts as a letter or a number.
-/

namespace TaskWrappers.Text

/-- Whether a text is a name. -/
def isName (name : String) : Bool :=
  match name.toList with
  | [] => false
  | c :: cs => isNameStart c && cs.all isNameRest

theorem isName_iff {name : String} : isName name = true ↔
    ∃ c cs, name.toList = c :: cs ∧ isNameStart c = true ∧ ∀ d ∈ cs, isNameRest d = true := by
  unfold isName
  constructor
  · intro h
    split at h
    · cases h
    · rename_i c cs hc
      rw [Bool.and_eq_true, List.all_eq_true] at h
      exact ⟨c, cs, hc, h⟩
  · rintro ⟨c, cs, hc, h⟩
    rw [hc]
    simpa using h

theorem isNameRest_of_isNameStart {c : Char} (h : isNameStart c = true) : isNameRest c = true := by
  simp only [isNameStart, isNameRest, Bool.or_eq_true] at h ⊢
  rcases h with h | h
  · exact .inl (.inl h)
  · exact .inr h

theorem isNameStart_eq_false {c : Char} (h : isNameRest c = false) : isNameStart c = false := by
  rw [Bool.eq_false_iff] at h ⊢
  exact fun hstart => h (isNameRest_of_isNameStart hstart)

theorem isNameRest_of_isName {name : String} (h : isName name = true) :
    ∀ c ∈ name.toList, isNameRest c = true := by
  obtain ⟨c, cs, hc, hs, hr⟩ := isName_iff.1 h
  rw [hc]
  intro d hd
  rcases List.mem_cons.1 hd with rfl | hd
  · exact isNameRest_of_isNameStart hs
  · exact hr d hd

theorem not_mem_of_isName {name : String} (h : isName name = true) {c : Char}
    (hc : isNameRest c = false) : c ∉ name.toList := by
  intro hmem
  rw [isNameRest_of_isName h c hmem] at hc
  cases hc

section Runs

variable {ds : List Char} (hbreaks : ∀ d, ds.head? = some d → isNameRest d = false)
include hbreaks

/-- A run of a name's characters ends where a text follows that does not go on with them. -/
theorem takeWhile_append_of_breaks (cs : List Char) :
    (cs ++ ds).takeWhile isNameRest = cs.takeWhile isNameRest ∧
      (cs ++ ds).dropWhile isNameRest = cs.dropWhile isNameRest ++ ds := by
  induction cs with
  | nil =>
    cases ds with
    | nil => exact ⟨rfl, rfl⟩
    | cons d ds => simp [hbreaks d rfl]
  | cons c cs ih =>
    rw [List.cons_append, List.takeWhile_cons, List.dropWhile_cons, List.takeWhile_cons,
      List.dropWhile_cons, ih.1, ih.2]
    split <;> exact ⟨rfl, rfl⟩

theorem takeWhile_append_of_isNameRest {cs : List Char} (h : ∀ c ∈ cs, isNameRest c = true) :
    (cs ++ ds).takeWhile isNameRest = cs ∧ (cs ++ ds).dropWhile isNameRest = ds := by
  obtain ⟨htake, hdrop⟩ := takeWhile_append_of_breaks hbreaks []
  rw [List.takeWhile_append_of_pos h, List.dropWhile_append_of_pos h]
  exact ⟨(congrArg (cs ++ ·) htake).trans (List.append_nil cs), hdrop⟩

end Runs

/-- Two edges bound one run of members. -/
theorem inEdges_cons_cons {a b : Nat} {es : List Nat} {n : Nat} (hab : a ≤ b) :
    inEdges (a :: b :: es) n = true ↔ (a ≤ n ∧ n < b) ∨ (b ≤ n ∧ inEdges es n = true) := by
  by_cases ha : a ≤ n
  · by_cases hb : b ≤ n
    · have hlen : ∀ k, (k + 1 + 1) % 2 = k % 2 := fun k => by omega
      simp [inEdges, ha, hb, hlen, Nat.not_lt.2 hb]
    · simp [inEdges, ha, hb, Nat.lt_of_not_le hb]
  · have hb : ¬ b ≤ n := fun h => ha (Nat.le_trans hab h)
    simp [inEdges, ha, hb]

/-- The white space beyond the first 128 code points. -/
def wideSpaces : List Nat :=
  [133, 160, 5760, 8192, 8193, 8194, 8195, 8196, 8197, 8198, 8199, 8200, 8201, 8202, 8232, 8233,
    8239, 8287, 12288]

theorem mem_wideSpaces {n : Nat} (h : inEdges whiteSpaceEdges n = true) : n ∈ wideSpaces := by
  simp (disch := decide) only [whiteSpaceEdges, inEdges_cons_cons] at h
  simp only [wideSpaces, List.mem_cons, List.not_mem_nil, or_false]
  rcases h with h | ⟨-, h | ⟨-, h | ⟨-, h | ⟨-, h | ⟨-, h | ⟨-, h | ⟨-, h | ⟨-, h⟩⟩⟩⟩⟩⟩⟩⟩
  all_goals first | omega | cases h

theorem isSpace_of_isNameRest {c : Char} (h : isNameRest c = true) : isSpace c = false := by
  by_cases hc : c.toNat < 128
  · have narrow : ∀ n < 128, isNameRest (Char.ofNat n) = true →
        isSpace (Char.ofNat n) = false := by
      decide
    have := narrow c.toNat hc
    rw [Char.ofNat_toNat] at this
    exact this h
  · have wide : ∀ n ∈ wideSpaces, inEdges alphabeticEdges n = false ∧
        inEdges decimalDigitEdges n = false ∧ inEdges otherNumberEdges n = false := by
      decide +kernel
    rw [Bool.eq_false_iff]
    intro hs
    simp only [isSpace, hc, if_false] at hs
    obtain ⟨hl, hd, ho⟩ := wide _ (mem_wideSpaces hs)
    simp only [isNameRest, isLetter, isNumber, hc, if_false, hl, hd, ho, Bool.false_or,
      beq_iff_eq] at h
    rw [h] at hc
    exact hc (by decide)

theorem isSpace_of_isNameStart {c : Char} (h : isNameStart c = true) : isSpace c = false :=
  isSpace_of_isNameRest (isNameRest_of_isNameStart h)

theorem isSpace_of_isWord {c : Char} (h : isWord c = true) : isSpace c = false := by
  by_cases hc : c.toNat < 128
  · have narrow : ∀ n < 128, isWord (Char.ofNat n) = true → isSpace (Char.ofNat n) = false := by
      decide
    have := narrow c.toNat hc
    rw [Char.ofNat_toNat] at this
    exact this h
  · have wide : ∀ n ∈ wideSpaces, inEdges alphabeticEdges n = false ∧
        inEdges markEdges n = false ∧ inEdges decimalDigitEdges n = false ∧
        inEdges connectorEdges n = false ∧ (n == 0x200C) = false ∧ (n == 0x200D) = false := by
      decide +kernel
    rw [Bool.eq_false_iff]
    intro hs
    simp only [isSpace, hc, if_false] at hs
    obtain ⟨ha, hm, hd, ho, hn, hj⟩ := wide _ (mem_wideSpaces hs)
    simp only [isWord, hc, if_false, ha, hm, hd, ho, hn, hj, Bool.or_false,
      Bool.false_eq_true] at h

end TaskWrappers.Text
