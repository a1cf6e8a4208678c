import TaskWrappers.Proofs.ConstantExpr.Reader
import TaskWrappers.Proofs.Resolution.Agree

/-!
# The constants an expression names

A constant is looked up under a path that ends in a word of the expression, wherever in the
expression it stands. So the value of an expression depends on what such paths stand for alone
(`ConstantExpr.value?_congr`).
-/

namespace TaskWrappers

open Text

namespace ConstantToken

theorem ofChar_ne_name (c : Char) (word : String) : ofChar c ≠ name word := by
  unfold ofChar
  split <;> nofun

theorem isNameRest_of_mem_scan {cs : List Char} {ts : List ConstantToken}
    (h : scan cs = some ts) {word : String} (hword : .name word ∈ ts) :
    ∀ c ∈ word.toList, isNameRest c = true := by
  fun_induction scan cs generalizing ts with
  | case1 =>
    cases h
    cases hword
  | case2 c tail _ ih => exact ih h hword
  | case3 => cases h
  | case4 c cs _ value rest _ ih =>
    obtain ⟨us, hus, rfl⟩ := Option.map_eq_some_iff.1 h
    rcases List.mem_cons.1 hword with heq | hword
    · cases heq
    · exact ih hus hword
  | case5 c cs _ _ _ ih =>
    obtain ⟨us, hus, rfl⟩ := Option.map_eq_some_iff.1 h
    rcases List.mem_cons.1 hword with heq | hword
    · cases heq
      exact isNameRest_of_mem_run cs
    · exact ih hus hword
  | case6 c cs _ _ _ hc ih =>
    obtain ⟨us, hus, rfl⟩ := Option.map_eq_some_iff.1 h
    rcases List.mem_cons.1 hword with heq | hword
    · cases heq
      have hrun := isNameRest_of_mem_run (c :: cs)
      rwa [List.takeWhile_cons_of_pos (isNameRest_of_isNameStart hc)] at hrun
    · exact ih hus hword
  | case7 c cs _ _ _ _ _ ih =>
    obtain ⟨us, hus, rfl⟩ := Option.map_eq_some_iff.1 h
    rcases List.mem_cons.1 hword with heq | hword
    · cases heq
    · exact ih hus hword
  | case8 c cs _ _ _ _ _ ih =>
    obtain ⟨us, hus, rfl⟩ := Option.map_eq_some_iff.1 h
    rcases List.mem_cons.1 hword with heq | hword
    · exact absurd heq.symm (ofChar_ne_name c word)
    · exact ih hus hword

end ConstantToken

namespace ConstantExpr

open ConstantToken

section Suffix

variable {lookup : Lookup} {inner : List ConstantToken → Option (String × List ConstantToken)}
  {first p value : String} {ts rest : List ConstantToken}

theorem suffix_of_path (h : path first ts = some (p, rest)) : rest <:+ ts := by
  obtain ⟨names, rfl, -⟩ := exists_members_of_path h
  exact List.suffix_append _ _

theorem suffix_of_fullPath (h : fullPath first ts = some (p, rest)) : rest <:+ ts := by
  unfold fullPath at h
  split at h
  · split at h
    · split at h
      · exact ((suffix_of_path h).trans (List.suffix_cons _ _)).trans (List.suffix_cons _ _)
      · cases h
    · exact suffix_of_path h
  · exact suffix_of_path h

theorem suffix_of_term
    (hinner : ∀ {ts value rest}, inner ts = some (value, rest) → rest <:+ ts)
    (h : term lookup inner ts = some (value, rest)) : rest <:+ ts := by
  unfold term at h
  split at h
  · cases h
    exact List.suffix_cons _ _
  · split at h
    · rename_i ts value' ts' hsum
      cases h
      exact ((List.suffix_cons _ _).trans (hinner hsum)).trans (List.suffix_cons _ _)
    · cases h
  · obtain ⟨body, rfl, -⟩ := exists_balanced_of_nameof _ h
    exact ⟨name "nameof" :: leftParen :: (body ++ [rightParen]), by simp⟩
  · rename_i first ts _
    obtain ⟨⟨p, us⟩, hpath, h⟩ := Option.bind_eq_some_iff.1 h
    obtain ⟨w, hw, heq⟩ := Option.bind_eq_some_iff.1 h
    cases heq
    exact (suffix_of_fullPath hpath).trans (List.suffix_cons _ _)
  · cases h

theorem suffix_of_sum : ∀ (n : Nat) {ts rest : List ConstantToken} {value : String},
    sum lookup n ts = some (value, rest) → rest <:+ ts
  | 0, _, _, _, h => by cases h
  | n + 1, ts, rest, value, h => by
    rw [sum_succ] at h
    obtain ⟨⟨first, us⟩, hfirst, hread⟩ := Option.bind_eq_some_iff.1 h
    have hterm := suffix_of_term (suffix_of_sum n) hfirst
    change readMore lookup n first us = some (value, rest) at hread
    unfold readMore at hread
    split at hread
    · obtain ⟨⟨more, us⟩, hmore, heq⟩ := Option.map_eq_some_iff.1 hread
      cases heq
      exact ((suffix_of_sum n hmore).trans (List.suffix_cons _ _)).trans hterm
    · cases hread
      exact hterm

end Suffix

/-- Whether all words among tokens end in a name with a property. -/
def WordsEnd (P : String → Prop) (ts : List ConstantToken) : Prop :=
  ∀ word, .name word ∈ ts → P (lastPart word)

theorem WordsEnd.of_suffix {P : String → Prop} {ts us : List ConstantToken} (h : WordsEnd P ts)
    (hsuffix : us <:+ ts) : WordsEnd P us :=
  fun word hword => h word (hsuffix.subset hword)

section Congr

variable {P : String → Prop} {lookup lookup' : Lookup}
  (hlookup : ∀ path, P (lastPart path) → lookup path = lookup' path)

theorem end_path {first p : String} {ts rest : List ConstantToken}
    (hwords : WordsEnd P (name first :: ts)) (h : path first ts = some (p, rest)) :
    P (lastPart p) := by
  obtain ⟨names, rfl, rfl⟩ := exists_members_of_path h
  rcases List.eq_nil_or_concat names with rfl | ⟨outer, last, rfl⟩
  · rw [← List.nil_append [first], lastPart_dotted]
    exact hwords first List.mem_cons_self
  · rw [List.concat_eq_append, ← List.cons_append, lastPart_dotted]
    exact hwords last (by simp [memberTokens])

theorem end_fullPath {first p : String} {ts rest : List ConstantToken}
    (hwords : WordsEnd P (name first :: ts)) (h : fullPath first ts = some (p, rest)) :
    P (lastPart p) := by
  unfold fullPath at h
  split at h
  · split at h
    · split at h
      · exact end_path (hwords.of_suffix
          ((List.suffix_cons _ _).trans (List.suffix_cons _ _))) h
      · cases h
    · exact end_path hwords h
  · exact end_path hwords h

include hlookup

theorem term_congr {inner inner' : List ConstantToken → Option (String × List ConstantToken)}
    {ts : List ConstantToken} (hwords : WordsEnd P ts)
    (hinner : ∀ us, us <:+ ts → inner us = inner' us) :
    term lookup inner ts = term lookup' inner' ts := by
  cases ts with
  | nil => rfl
  | cons t us =>
    cases t with
    | leftParen =>
      rw [term, term, hinner us (List.suffix_cons _ _)]
    | name first =>
      by_cases hname : first = "nameof" → us.head? ≠ some leftParen
      · rw [term_path hname, term_path hname]
        cases hpath : fullPath first us with
        | none => rfl
        | some r =>
          obtain ⟨p, rest⟩ := r
          show (lookup p).map _ = (lookup' p).map _
          rw [hlookup p (end_fullPath hwords hpath)]
      · obtain ⟨rfl, hhead⟩ := Classical.not_imp.1 hname
        obtain ⟨vs, rfl⟩ := List.head?_eq_some_iff.1 (not_not.1 hhead)
        rfl
    | _ => rfl

theorem sum_congr : ∀ (n : Nat) {ts : List ConstantToken}, WordsEnd P ts →
    sum lookup n ts = sum lookup' n ts
  | 0, _, _ => rfl
  | n + 1, ts, hwords => by
    rw [sum_succ, sum_succ, term_congr hlookup hwords fun us hus =>
      sum_congr n (hwords.of_suffix hus)]
    cases hterm : term lookup' (sum lookup' n) ts with
    | none => rfl
    | some r =>
      obtain ⟨value, rest⟩ := r
      have hrest := hwords.of_suffix (suffix_of_term (suffix_of_sum n) hterm)
      show readMore lookup n value rest = readMore lookup' n value rest
      unfold readMore
      split
      · rw [sum_congr n (hrest.of_suffix (List.suffix_cons _ _))]
      · rfl

end Congr

/-- Whether all words in the text of an expression end in a name with a property. -/
def TextWordsEnd (P : String → Prop) (expression : String) : Prop :=
  ∀ ts, scan expression.toList = some ts → WordsEnd P ts

/-- Whether a word occurs in the text of an expression. -/
def HasWord (expression word : String) : Prop :=
  ∃ ts ∈ scan expression.toList, .name word ∈ ts

instance (expression word : String) : Decidable (HasWord expression word) :=
  inferInstanceAs (Decidable (∃ ts ∈ scan expression.toList, .name word ∈ ts))

theorem textWordsEnd_of_hasWord {P : String → Prop} {expression : String}
    (h : ∀ word, HasWord expression word → P word) : TextWordsEnd P expression := by
  intro ts hts word hword
  rw [lastPart_of_isNameRest (isNameRest_of_mem_scan hts hword)]
  exact h word ⟨ts, hts, hword⟩

/-- Of constants an expression depends on those alone that its words can name. -/
theorem value?_congr {P : String → Prop} {lookup lookup' : Lookup} {expression : String}
    (hwords : TextWordsEnd P expression)
    (hlookup : ∀ path, P (lastPart path) → lookup path = lookup' path) :
    value? lookup expression = value? lookup' expression := by
  unfold value?
  cases hscan : scan expression.toList with
  | none => rfl
  | some ts =>
    show (sum lookup (ts.length + 1) ts).bind _ = (sum lookup' (ts.length + 1) ts).bind _
    rw [sum_congr hlookup _ (hwords ts hscan)]

end ConstantExpr

end TaskWrappers
