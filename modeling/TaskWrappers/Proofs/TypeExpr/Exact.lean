import TaskWrappers.Proofs.Except
import TaskWrappers.Proofs.TypeExpr.ReadTokens
import TaskWrappers.Text.Cut

/-!
# What reading uses up

Scanning works piece by piece: in front of a character that no token goes on with, a text has the
tokens that it has by itself (`TypeToken.scan_append`), so white space around it says nothing
(`TypeToken.scan_trim`). Whatever type is then read, the tokens that were used derive it
(`TypeExpr.sound_readType`), so that reading finds what the grammar allows and nothing else
(`TypeExpr.read_iff`). They are the tokens of the type and no others (`TypeExpr.read_exact`), in
texts with stray `@` as well.
-/

namespace TaskWrappers

open Text TypeToken

namespace TypeToken

section Pieces

variable {cs ds : List Char}

theorem map_cons_bind (t : TypeToken) (x y : Except TypeError (List TypeToken)) :
    ((x.map (t :: ·)).bind fun ts => y.map (ts ++ ·))
      = (x.bind fun ts => y.map (ts ++ ·)).map (t :: ·) := by
  cases x <;> cases y <;> rfl

/-- A text is scanned by itself if what follows it goes on with none of its tokens. -/
theorem scan_append (hbreaks : Breaks ds) (hcolon : ds.head? ≠ some ':') (cs : List Char) :
    scan (cs ++ ds) = (scan cs).bind fun ts => (scan ds).map (ts ++ ·) := by
  fun_induction scan cs with
  | case1 =>
    rw [List.nil_append]
    cases scan ds <;> rfl
  | case2 c cs hspace ih =>
    rw [List.cons_append, scan.eq_def]
    simp only [hspace, if_true, ih]
  | case3 c cs hspace t ht ih =>
    rw [List.cons_append, scan.eq_def, map_cons_bind]
    simp only [hspace, Bool.false_eq_true, if_false, ht, ih]
  | case4 cs hspace hmark ih =>
    rw [List.cons_append, List.cons_append, scan.eq_def, map_cons_bind]
    simp only [hspace, Bool.false_eq_true, if_false, hmark, if_true, ih]
  | case5 cs hcs hspace hmark =>
    rw [List.cons_append, scan.eq_def]
    simp only [hspace, Bool.false_eq_true, if_false, hmark, if_true]
    split
    · rename_i es heq
      cases cs with
      | nil => exact absurd (by rw [← List.nil_append ds, heq]; rfl) hcolon
      | cons c cs =>
        cases heq
        exact absurd rfl (hcs cs)
    · rfl
  | case6 cs word hword hspace hmark hcolon =>
    rw [List.cons_append, scan.eq_def]
    simp only [hspace, Bool.false_eq_true, if_false, hmark, hcolon, if_true,
      (takeWhile_append_of_breaks hbreaks cs).1]
    rw [if_pos hword]
    rfl
  | case7 cs word hword hspace hmark hcolon ih =>
    rw [List.cons_append, scan.eq_def, map_cons_bind]
    simp only [hspace, Bool.false_eq_true, if_false, hmark, hcolon, if_true,
      takeWhile_append_of_breaks hbreaks cs, ih]
    rw [if_neg hword]
  | case8 c cs hspace hmark hcolon hat hstart ih =>
    rw [List.cons_append, scan.eq_def, map_cons_bind]
    simp only [hspace, Bool.false_eq_true, if_false, hmark, hcolon, hat, hstart, if_true,
      takeWhile_append_of_breaks hbreaks cs, ih]
  | case9 c cs hspace hmark hcolon hat hstart =>
    rw [List.cons_append, scan.eq_def]
    simp only [hspace, Bool.false_eq_true, if_false, hmark, hcolon, hat, hstart]
    rfl

theorem scan_append_of_isSpace (h : ∀ c, ds.head? = some c → isSpace c = true) (cs : List Char) :
    scan (cs ++ ds) = (scan cs).bind fun ts => (scan ds).map (ts ++ ·) := by
  refine scan_append ?_ ?_ cs
  · intro c hc
    rw [Bool.eq_false_iff]
    intro hname
    have hspace := h c hc
    rw [isSpace_of_isNameRest hname] at hspace
    cases hspace
  · intro hc
    exact absurd (h _ hc) (by decide)

/-- White space says nothing in front of a text. -/
theorem scan_spaces_append {space : List Char} (hspace : ∀ c ∈ space, isSpace c = true)
    (cs : List Char) : scan (space ++ cs) = scan cs := by
  induction space with
  | nil => rfl
  | cons c space ih =>
    rw [List.cons_append, scan.eq_def]
    simp only [hspace c List.mem_cons_self, if_true]
    exact ih fun d hd => hspace d (List.mem_cons_of_mem c hd)

theorem scan_trimStart (cs : List Char) : scan (trimStart cs) = scan cs := by
  have hspace : ∀ c ∈ cs.takeWhile isSpace, isSpace c = true :=
    List.all_eq_true.1 List.all_takeWhile
  rw [trimStart, ← scan_spaces_append hspace (cs.dropWhile isSpace),
    List.takeWhile_append_dropWhile]

/-- Nor behind it. -/
theorem scan_trimEnd (cs : List Char) : scan (trimEnd cs) = scan cs := by
  have hsplit : trimEnd cs ++ (cs.reverse.takeWhile isSpace).reverse = cs := by
    rw [trimEnd, ← List.reverse_append, List.takeWhile_append_dropWhile, List.reverse_reverse]
  have hspace : ∀ c ∈ (cs.reverse.takeWhile isSpace).reverse, isSpace c = true := by
    intro c hc
    exact List.all_eq_true.1 List.all_takeWhile c (List.mem_reverse.1 hc)
  have hnothing := scan_spaces_append hspace []
  have happend := scan_append_of_isSpace (fun c hc => hspace c (List.mem_of_mem_head? hc))
    (trimEnd cs)
  rw [List.append_nil, scan] at hnothing
  rw [hsplit, hnothing] at happend
  rw [happend]
  cases scan (trimEnd cs) with
  | error e => rfl
  | ok ts => exact congrArg _ (List.append_nil ts).symm

theorem scan_trim (cs : List Char) : scan (trim cs) = scan cs := by
  rw [trim, scan_trimEnd, scan_trimStart]

end Pieces
end TypeToken

namespace TypeExpr

section Readers

variable {ts us : List TypeToken}

theorem exact_expect {t : TypeToken} (h : expect t ts = .ok us) : ts = t :: us := by
  cases ts with
  | nil => cases h
  | cons u vs =>
    simp only [expect] at h
    split at h
    · rename_i heq
      cases h
      rw [heq]
    · cases h

theorem exact_map_expect {α : Type} {t : TypeToken} {xs : List α}
    (h : (expect t ts).map (([], ·)) = .ok (xs, us)) : xs = [] ∧ ts = t :: us := by
  obtain ⟨vs, hvs, heq⟩ := Except.exists_of_map_eq_ok h
  cases heq
  exact ⟨rfl, exact_expect hvs⟩

theorem exact_readRank {n m : Nat} (h : readRank n ts = .ok (m, us)) :
    ∃ k, m = n + k ∧ ts = List.replicate k comma ++ rightBracket :: us := by
  induction ts generalizing n with
  | nil => cases h
  | cons t vs ih =>
    unfold readRank at h
    split at h
    · rename_i heq
      cases heq
      cases h
      exact ⟨0, rfl, rfl⟩
    · rename_i heq
      cases heq
      obtain ⟨k, rfl, rfl⟩ := ih h
      exact ⟨k + 1, by omega, rfl⟩
    · obtain ⟨vs, hvs, heq⟩ := Except.exists_of_map_eq_ok h
      cases heq
      exact ⟨0, rfl, exact_expect hvs⟩

theorem derives_readMarks {vs : List TypeToken} {t t' : TypeExpr} (ht : Derives vs (.type t))
    (h : readMarks t ts = .ok (t', us)) :
    ∃ marks, ts = marks ++ us ∧ Derives (vs ++ marks) (.type t') := by
  fun_induction readMarks t ts generalizing vs with
  | case1 t ts ih =>
    obtain ⟨marks, rfl, hmarks⟩ := ih (.nullable ht) h
    rw [List.append_assoc, List.singleton_append] at hmarks
    exact ⟨question :: marks, rfl, hmarks⟩
  | case2 t ts e he => cases h
  | case3 t ts commas ws hr ih =>
    obtain ⟨k, hk, rfl⟩ := exact_readRank hr
    rw [Nat.zero_add] at hk
    subst hk
    obtain ⟨marks, rfl, hmarks⟩ := ih (.array ht commas) h
    simp only [List.append_assoc, List.cons_append, List.nil_append] at hmarks
    exact ⟨_, by simp only [List.append_assoc, List.cons_append], hmarks⟩
  | case4 t ts _ _ =>
    cases h
    exact ⟨[], rfl, by rwa [List.append_nil]⟩

/-- A reader of types that only gives what the tokens it uses up derive. -/
def Sound (type : TypeReader) : Prop :=
  ∀ (ts us : List TypeToken) (t : TypeExpr), type ts = .ok (t, us) →
    ∃ vs, ts = vs ++ us ∧ Derives vs (.type t)

variable {type : TypeReader} {n : Nat}

theorem derives_readArg {a : TypeArg} (hs : Sound type) (h : readArg type ts = .ok (a, us)) :
    ∃ vs, ts = vs ++ us ∧ Derives vs (.arg a) := by
  unfold readArg at h
  split at h
  · cases h
    exact ⟨[], rfl, .omitted⟩
  · cases h
    exact ⟨[], rfl, .omitted⟩
  · obtain ⟨⟨t, ws⟩, ht, heq⟩ := Except.exists_of_map_eq_ok h
    cases heq
    obtain ⟨vs, hvs, ht⟩ := hs _ _ _ ht
    exact ⟨vs, hvs, .given ht⟩

theorem derives_readArgs {as : List TypeArg} (hs : Sound type)
    (h : readArgs type n ts = .ok (as, us)) :
    ∃ vs, ts = vs ++ greater :: us ∧ Derives vs (.args as) := by
  induction n generalizing ts as with
  | zero =>
    obtain ⟨rfl, rfl⟩ := exact_map_expect h
    exact ⟨[], rfl, .noArgs⟩
  | succ n ih =>
    unfold readArgs at h
    split at h
    · rename_i heq
      cases heq
      obtain ⟨⟨a, ws⟩, ha, h⟩ := Except.exists_of_bind_eq_ok h
      obtain ⟨⟨as, xs⟩, has, h⟩ := Except.exists_of_bind_eq_ok h
      cases h
      obtain ⟨vs, rfl, hda⟩ := derives_readArg hs ha
      obtain ⟨vs', rfl, hdas⟩ := ih has
      exact ⟨_, by rw [List.cons_append, List.append_assoc], .moreArgs hda hdas⟩
    · obtain ⟨rfl, rfl⟩ := exact_map_expect h
      exact ⟨[], rfl, .noArgs⟩

theorem derives_readSegment {s : Segment} (hs : Sound type)
    (h : readSegment type n ts = .ok (s, us)) : ∃ vs, ts = vs ++ us ∧ Derives vs (.segment s) := by
  unfold readSegment at h
  split at h
  · rename_i word _
    obtain ⟨⟨a, ws⟩, ha, h⟩ := Except.exists_of_bind_eq_ok h
    obtain ⟨⟨as, xs⟩, has, h⟩ := Except.exists_of_bind_eq_ok h
    cases h
    obtain ⟨vs, rfl, hda⟩ := derives_readArg hs ha
    obtain ⟨vs', rfl, hdas⟩ := derives_readArgs hs has
    refine ⟨_, ?_, .generic word hda hdas⟩
    simp only [List.cons_append, List.append_assoc, List.nil_append]
  · cases h
    exact ⟨_, rfl, .plain _⟩
  · cases h

theorem derives_readSegments {outer : List Segment} {last : Segment} (hs : Sound type)
    (h : readSegments type n ts = .ok (outer, last, us)) :
    ∃ vs, ts = vs ++ us ∧ Derives vs (.path outer last) := by
  induction n generalizing ts outer with
  | zero => cases h
  | succ n ih =>
    unfold readSegments at h
    obtain ⟨⟨s, ws⟩, hseg, h⟩ := Except.exists_of_bind_eq_ok h
    obtain ⟨vs, hvs, hds⟩ := derives_readSegment hs hseg
    simp only at h
    split at h
    · obtain ⟨⟨outer, last, xs⟩, hsegs, h⟩ := Except.exists_of_bind_eq_ok h
      cases h
      obtain ⟨vs', rfl, hdss⟩ := ih hsegs
      exact ⟨_, by rw [hvs, List.append_assoc, List.cons_append], .dot hds hdss⟩
    · cases h
      exact ⟨vs, hvs, .last hds⟩

theorem derives_readElement {e : TupleElement} (hs : Sound type)
    (h : readElement type ts = .ok (e, us)) : ∃ vs, ts = vs ++ us ∧ Derives vs (.element e) := by
  unfold readElement at h
  obtain ⟨⟨t, ws⟩, ht, h⟩ := Except.exists_of_bind_eq_ok h
  obtain ⟨vs, hvs, hdt⟩ := hs _ _ _ ht
  simp only at h
  split at h
  · rename_i word xs
    cases h
    exact ⟨_, by rw [hvs, List.append_assoc, List.singleton_append], .named hdt word⟩
  · cases h
    exact ⟨vs, hvs, .unnamed hdt⟩

theorem derives_readElements {es : List TupleElement} (hs : Sound type)
    (h : readElements type n ts = .ok (es, us)) :
    ∃ vs, ts = vs ++ rightParen :: us ∧ Derives vs (.elements es) := by
  induction n generalizing ts es with
  | zero =>
    obtain ⟨rfl, rfl⟩ := exact_map_expect h
    exact ⟨[], rfl, .noElements⟩
  | succ n ih =>
    unfold readElements at h
    split at h
    · rename_i heq
      cases heq
      obtain ⟨⟨e, ws⟩, he, h⟩ := Except.exists_of_bind_eq_ok h
      obtain ⟨⟨es, xs⟩, hes, h⟩ := Except.exists_of_bind_eq_ok h
      cases h
      obtain ⟨vs, rfl, hde⟩ := derives_readElement hs he
      obtain ⟨vs', rfl, hdes⟩ := ih hes
      exact ⟨_, by rw [List.cons_append, List.append_assoc], .moreElements hde hdes⟩
    · obtain ⟨rfl, rfl⟩ := exact_map_expect h
      exact ⟨[], rfl, .noElements⟩

theorem readQualifier_cases (w : String) (ts : List TypeToken) :
    (∃ us, ts = colons :: us ∧ readQualifier (name w :: ts) = (some w, us)) ∨
      readQualifier (name w :: ts) = (none, name w :: ts) := by
  cases ts with
  | nil => exact .inr rfl
  | cons u us => cases u <;> first | exact .inr rfl | exact .inl ⟨us, rfl, rfl⟩

end Readers

theorem sound_readType : ∀ n : Nat, Sound (readType n)
  | 0 => by
    intro ts us t h
    cases h
  | n + 1 => by
    intro ts us t h
    have ih := sound_readType n
    unfold readType at h
    split at h
    · obtain ⟨⟨first, ws⟩, hfirst, h⟩ := Except.exists_of_bind_eq_ok h
      obtain ⟨⟨rest, xs⟩, hrest, h⟩ := Except.exists_of_bind_eq_ok h
      obtain ⟨vs, hvs, hdfirst⟩ := derives_readElement ih hfirst
      obtain ⟨vs', hvs', hdrest⟩ := derives_readElements ih hrest
      simp only at h
      split at h
      · cases h
      · cases hdrest with
        | moreElements hsecond hrest =>
          obtain ⟨marks, rfl, ht⟩ := derives_readMarks (.primary (.tuple hdfirst hsecond hrest)) h
          refine ⟨_, ?_, ht⟩
          simp only [hvs, hvs', List.append_assoc, List.cons_append, List.nil_append]
    · rename_i word rest
      split at h
      · rename_i hword
        obtain ⟨marks, rfl, ht⟩ := derives_readMarks (.primary (.keyword hword)) h
        exact ⟨_, rfl, ht⟩
      · rename_i hword
        rcases readQualifier_cases word rest with ⟨ws, rfl, hq⟩ | hq
        · simp only [hq] at h
          obtain ⟨⟨outer, last, xs⟩, hsegs, h⟩ := Except.exists_of_bind_eq_ok h
          obtain ⟨vs, hvs, hpath⟩ := derives_readSegments ih hsegs
          obtain ⟨marks, rfl, ht⟩ := derives_readMarks (.primary (.qualified hword hpath)) h
          refine ⟨_, ?_, ht⟩
          simp only [hvs, List.append_assoc, List.cons_append]
        · simp only [hq] at h
          obtain ⟨⟨outer, last, xs⟩, hsegs, h⟩ := Except.exists_of_bind_eq_ok h
          obtain ⟨vs, hvs, hpath⟩ := derives_readSegments ih hsegs
          have hhead : vs.head? = some (name word) := by
            have happend := congrArg List.head? hvs
            rw [List.head?_append, hpath.head?_path] at happend
            rw [hpath.head?_path]
            exact happend.symm
          obtain ⟨marks, rfl, ht⟩ :=
            derives_readMarks (.primary (.unqualified hhead hword hpath)) h
          exact ⟨_, by rw [hvs, List.append_assoc], ht⟩
    · cases h

/-- A text is read as what its tokens derive, if anything. -/
theorem read_iff {text : String} {t : TypeExpr} :
    read text = .ok t ↔ ∃ ts, scan text.toList = .ok ts ∧ Derives ts (.type t) := by
  constructor
  · intro h
    obtain ⟨ts, hts, h⟩ := Except.exists_of_bind_eq_ok h
    obtain ⟨⟨t', rest⟩, ht, h⟩ := Except.exists_of_bind_eq_ok h
    obtain ⟨vs, hvs, hdt⟩ := sound_readType _ _ _ _ ht
    simp only at h
    split at h
    · cases h
      rw [hvs, List.append_nil] at hts
      exact ⟨vs, hts, hdt⟩
    · cases h
  · rintro ⟨ts, hts, ht⟩
    simp only [read, hts, ht.readType_eq, bind, Except.bind, pure, Except.pure]

/-- The tokens of a text are those of the type it is read as. -/
theorem read_exact {text : String} {t : TypeExpr} (h : read text = .ok t) :
    scan text.toList = .ok t.tokens := by
  obtain ⟨ts, hts, ht⟩ := read_iff.1 h
  rw [hts, ht.tokens_eq, Phrase.tokens]

/-- What a text is read as depends on its tokens only. -/
theorem read_congr {text text' : String} (h : scan text.toList = scan text'.toList) :
    read text = read text' := by
  rw [read, read, h]

end TypeExpr

end TaskWrappers
