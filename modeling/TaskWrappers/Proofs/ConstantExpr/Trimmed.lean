import TaskWrappers.Proofs.ConstantExpr.Composed
import TaskWrappers.Proofs.Text.Space

/-!
# White space around constant expressions

A constant expression means the same with and without white space around it
(`value?_trimmed`). In front that is how tokens are read; behind it could only be a string that
has what follows in it, and a string ends in a quotation mark (`quote_suffix_of_string?`).
-/

namespace TaskWrappers

open Text

namespace ConstantToken

section Closed

variable {interpolated : Bool} {cs v rest : List Char}

theorem suffix_of_escape {d : Char} (h : escape cs = some (d, rest)) : rest <:+ cs := by
  obtain ⟨digits, rfl, -⟩ := exists_of_escape h
  exact List.suffix_append digits rest

theorem quote_suffix_of_plain (h : plain interpolated cs = some (v, rest)) :
    '"' :: rest <:+ cs := by
  fun_induction plain interpolated cs generalizing v with
  | case1 => cases h
  | case2 cs =>
    cases h
    exact List.suffix_rfl
  | case3 => cases h
  | case4 => cases h
  | case5 cs d behind hescape _ _ ih =>
    obtain ⟨⟨w, r⟩, hw, heq⟩ := Option.map_eq_some_iff.1 h
    cases heq
    exact ((ih hw).trans (suffix_of_escape hescape)).trans (List.suffix_cons _ cs)
  | case6 c cs _ _ _ _ ih =>
    obtain ⟨⟨w, r⟩, hw, heq⟩ := Option.map_eq_some_iff.1 h
    cases heq
    exact ((ih hw).trans (List.suffix_cons c cs)).trans (List.suffix_cons c _)
  | case7 => cases h
  | case8 => cases h
  | case9 c cs _ _ _ _ ih =>
    obtain ⟨⟨w, r⟩, hw, heq⟩ := Option.map_eq_some_iff.1 h
    cases heq
    exact (ih hw).trans (List.suffix_cons c cs)

theorem quote_suffix_of_verbatim (h : verbatim interpolated cs = some (v, rest)) :
    '"' :: rest <:+ cs := by
  fun_induction verbatim interpolated cs generalizing v with
  | case1 => cases h
  | case2 cs ih =>
    obtain ⟨⟨w, r⟩, hw, heq⟩ := Option.map_eq_some_iff.1 h
    cases heq
    exact ((ih hw).trans (List.suffix_cons _ cs)).trans (List.suffix_cons _ _)
  | case3 cs =>
    cases h
    exact List.suffix_rfl
  | case4 c cs _ _ ih =>
    obtain ⟨⟨w, r⟩, hw, heq⟩ := Option.map_eq_some_iff.1 h
    cases heq
    exact ((ih hw).trans (List.suffix_cons c cs)).trans (List.suffix_cons c _)
  | case5 => cases h
  | case6 => cases h
  | case7 c cs _ _ ih =>
    obtain ⟨⟨w, r⟩, hw, heq⟩ := Option.map_eq_some_iff.1 h
    cases heq
    exact (ih hw).trans (List.suffix_cons c cs)

theorem quote_suffix_of_raw {marks : Nat} (hmarks : 0 < marks)
    (h : raw marks interpolated cs = some (v, rest)) : '"' :: rest <:+ cs := by
  obtain ⟨body, rfl, -⟩ := exists_of_raw hmarks h
  obtain ⟨n, rfl⟩ := Nat.exists_eq_succ_of_ne_zero hmarks.ne'
  have hmark : quotes (n + 1) ++ rest = quotes n ++ '"' :: rest := by
    rw [quotes, List.replicate_succ', List.append_assoc, List.singleton_append, quotes]
  rw [hmark]
  exact (List.suffix_append (quotes n) _).trans (List.suffix_append body _)

theorem quote_suffix_of_quotedText (h : quotedText interpolated cs = some (v, rest)) :
    '"' :: rest <:+ cs := by
  simp only [quotedText] at h
  split at h
  · rename_i hmarks
    exact (quote_suffix_of_raw (Nat.lt_of_lt_of_le (Nat.succ_pos 2) hmarks) h).trans
      (List.drop_suffix _ cs)
  · split at h
    · rename_i hmarks
      have htext := quotes_append_drop (Nat.le_of_eq hmarks.symm)
      cases h
      exact ⟨['"'], htext⟩
    · exact (quote_suffix_of_plain h).trans (List.drop_suffix 1 cs)

/-- A string ends in a quotation mark. -/
theorem quote_suffix_of_string? (h : string? cs = some (some (v, rest))) : '"' :: rest <:+ cs := by
  unfold string? at h
  split at h <;> simp only [Option.some.injEq, reduceCtorEq] at h
  · exact quote_suffix_of_quotedText h
  · exact (quote_suffix_of_verbatim h).trans (List.suffix_append ['@', '"'] _)
  · exact (quote_suffix_of_verbatim h).trans (List.suffix_append ['@', '$', '"'] _)
  · exact (quote_suffix_of_verbatim h).trans (List.suffix_append ['$', '@', '"'] _)
  · exact (quote_suffix_of_quotedText h).trans (List.suffix_cons '$' _)

end Closed

section Behind

variable {gap : List Char} (hgap : ∀ c ∈ gap, isSpace c = true)
include hgap

theorem parted_of_isSpace : Parted gap := by
  have hparted := parted_nil.spaces_append hgap
  rwa [List.append_nil] at hparted

/-- A string does not reach into white space behind the text. -/
theorem exists_of_string?_append {cs v rest : List Char}
    (h : string? (cs ++ gap) = some (some (v, rest))) :
    ∃ more, rest = more ++ gap ∧ string? cs = some (some (v, more)) := by
  have hquote : '"' ∉ gap := fun hmem => Bool.false_ne_true (hgap _ hmem)
  obtain ⟨lit, hlit⟩ := quote_suffix_of_string? h
  rcases List.append_eq_append_iff.1 hlit with ⟨more, rfl, hmore⟩ | ⟨more, rfl, hmore⟩
  · cases more with
    | nil =>
      rw [List.nil_append] at hmore
      exact absurd (hmore ▸ List.mem_cons_self) hquote
    | cons d more =>
      obtain ⟨rfl, rfl⟩ := List.cons.inj hmore
      refine ⟨more, rfl, ?_⟩
      have htext : lit ++ '"' :: more = lit ++ ['"'] ++ more := by simp
      rw [htext] at h ⊢
      rw [List.append_assoc _ more] at h
      refine string?_append h fun hhead => ?_
      rw [List.head?_append, hhead]
      rfl
  · exact absurd (hmore ▸ List.mem_append_right _ List.mem_cons_self) hquote

theorem string?_append_of_broken {cs : List Char} (h : string? cs = some none) :
    string? (cs ++ gap) = some none := by
  cases hread : string? (cs ++ gap) with
  | none =>
    have hopening : ¬ ∀ opening ∈ openings, ¬ opening <+: cs := by
      rw [← string?_eq_none_iff, h]
      exact Option.some_ne_none _
    refine absurd (fun opening hmem hstarts => ?_) hopening
    exact string?_eq_none_iff.1 hread opening hmem (hstarts.trans (List.prefix_append cs gap))
  | some found =>
    cases found with
    | none => rfl
    | some found =>
      obtain ⟨more, -, hmore⟩ := exists_of_string?_append hgap hread
      rw [h] at hmore
      cases hmore

theorem scan_append_of_broken {cs : List Char} (h : scan cs = none) : scan (cs ++ gap) = none := by
  have hparted := parted_of_isSpace hgap
  have hcolons (tail : List Char) :
      decide ((tail ++ gap).head? = some ':') = decide (tail.head? = some ':') :=
    decide_eq_decide.2 (hparted.head?_append (by decide) tail)
  fun_induction scan cs with
  | case1 => cases h
  | case2 c tail hspace ih =>
    rw [List.cons_append, scan, if_pos hspace]
    exact ih h
  | case3 c tail hspace hs =>
    rw [scan_string (string?_append_of_broken hgap hs)]
    rfl
  | case4 c tail hspace value rest hs ih =>
    obtain ⟨lit, hlit⟩ := exists_of_string?_some hs
    rw [hlit] at hs ⊢
    have hread := string?_append hs (hparted.head?_append (by decide) rest).1
    rw [List.append_assoc, scan_string hread, Option.bind_some]
    exact Option.map_eq_none_iff.2 (ih (Option.map_eq_none_iff.1 h))
  | case5 c tail hspace hs hat ih =>
    obtain ⟨htake, hdrop⟩ := takeWhile_append_of_breaks hparted.breaks tail
    rw [List.cons_append, scan_unquoted hspace (hparted.string?_append hs),
      hparted.opensName_append, if_pos hat, htake, hdrop, ih (Option.map_eq_none_iff.1 h)]
    rfl
  | case6 c tail hspace hs hat hstart ih =>
    obtain ⟨htake, hdrop⟩ := takeWhile_append_of_breaks hparted.breaks tail
    rw [List.cons_append, scan_unquoted hspace (hparted.string?_append hs),
      hparted.opensName_append, if_neg hat, if_pos hstart, htake, hdrop,
      ih (Option.map_eq_none_iff.1 h)]
    rfl
  | case7 c tail hspace hs hat hstart hcolon ih =>
    have htail : (tail ++ gap).tail = tail.tail ++ gap := by
      refine List.tail_append_of_ne_nil ?_
      rintro rfl
      simp at hcolon
    rw [List.cons_append, scan_unquoted hspace (hparted.string?_append hs),
      hparted.opensName_append, if_neg hat, if_neg hstart, hcolons, if_pos hcolon, htail,
      ih (Option.map_eq_none_iff.1 h)]
    rfl
  | case8 c tail hspace hs hat hstart hcolon ih =>
    rw [List.cons_append, scan_unquoted hspace (hparted.string?_append hs),
      hparted.opensName_append, if_neg hat, if_neg hstart, hcolons, if_neg hcolon,
      ih (Option.map_eq_none_iff.1 h)]
    rfl

theorem scan_append_of_isSpace (cs : List Char) : scan (cs ++ gap) = scan cs := by
  cases h : scan cs with
  | none => exact scan_append_of_broken hgap h
  | some ts =>
    rw [scan_append (parted_of_isSpace hgap) h, scan_spaces hgap, Option.map_some, List.append_nil]

end Behind

theorem scan_trimStart (cs : List Char) : scan (trimStart cs) = scan cs := by
  have hspace : ∀ c ∈ cs.takeWhile isSpace, isSpace c = true :=
    List.all_eq_true.1 List.all_takeWhile
  rw [trimStart, ← scan_spaces_append hspace, List.takeWhile_append_dropWhile]

theorem scan_trim (cs : List Char) : scan (trim cs) = scan cs := by
  obtain ⟨before, after, hbefore, hafter, hcs⟩ := exists_of_trim cs
  rw [← hcs, scan_spaces_append hbefore, scan_append_of_isSpace hafter, hcs]

end ConstantToken

/-- White space around an expression makes no difference to its value. -/
theorem ConstantExpr.value?_trimmed (lookup : ConstantExpr.Lookup) (e : String) :
    ConstantExpr.value? lookup (trimmed e) = ConstantExpr.value? lookup e := by
  rw [ConstantExpr.value?, ConstantExpr.value?, trimmed, String.toList_ofList,
    ConstantToken.scan_trim]

theorem Model.constantValue_trimmed (m : Model) (s : Scope) (e : String) :
    m.constantValue s (trimmed e) = m.constantValue s e :=
  ConstantExpr.value?_trimmed _ e

end TaskWrappers
