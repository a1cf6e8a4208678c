import TaskWrappers.Proofs.TypeExpr.Grammar
import TaskWrappers.TypeExpr.Reader

/-!
# Reading what is derived

Whatever tokens derive, they are read as, however the tokens go on (`TypeExpr.Derives.isRead`): what
is read so far is held up to the marks that follow, so that the statement says the same of a type
and of the type under its marks. The bounds that readers are handed down count tokens, and no part
of a type has more of itself than it has tokens.
-/

namespace TaskWrappers

open TypeToken

namespace TypeToken

/-- The tokens that a name goes on with. -/
def extendsName : TypeToken → Bool
  | dot | less | colons => true
  | _ => false

/-- The tokens that a type goes on with. -/
def extendsType : TypeToken → Bool
  | question | leftBracket => true
  | t => t.extendsName

end TypeToken

namespace TypeExpr

def EndsName (ts : List TypeToken) : Prop := ∀ u, ts.head? = some u → u.extendsName = false

def EndsType (ts : List TypeToken) : Prop := ∀ u, ts.head? = some u → u.extendsType = false

theorem endsName_cons {u : TypeToken} {ts : List TypeToken} (h : u.extendsName = false) :
    EndsName (u :: ts) := by
  intro v hv
  cases hv
  exact h

theorem endsType_cons {u : TypeToken} {ts : List TypeToken} (h : u.extendsType = false) :
    EndsType (u :: ts) := by
  intro v hv
  cases hv
  exact h

theorem endsName_of_endsType {ts : List TypeToken} (h : EndsType ts) : EndsName ts := by
  intro u hu
  have := h u hu
  cases u <;> first | rfl | exact this

theorem readRank_commas (ts : List TypeToken) :
    ∀ (k n : Nat), readRank n (List.replicate k comma ++ rightBracket :: ts) = .ok (n + k, ts)
  | 0, n => rfl
  | k + 1, n => by
    rw [List.replicate_succ, List.cons_append, readRank, readRank_commas ts k (n + 1)]
    rw [Nat.add_right_comm, Nat.add_assoc]

theorem readMarks_question (t : TypeExpr) (ts : List TypeToken) :
    readMarks t (question :: ts) = readMarks (.nullable t) ts := by
  rw [readMarks]

theorem readMarks_brackets (t : TypeExpr) (commas : Nat) (ts : List TypeToken) :
    readMarks t (leftBracket :: (List.replicate commas comma ++ rightBracket :: ts))
      = readMarks (.array t commas) ts := by
  have hr := readRank_commas ts commas 0
  rw [Nat.zero_add] at hr
  rw [readMarks]
  split
  · rename_i e he
    rw [hr] at he
    cases he
  · rename_i k us hk
    rw [hr] at hk
    cases hk
    rfl

theorem readMarks_of_endsType (t : TypeExpr) {ts : List TypeToken} (h : EndsType ts) :
    readMarks t ts = .ok (t, ts) := by
  unfold readMarks
  split
  · exact absurd (h _ rfl) (by decide)
  · exact absurd (h _ rfl) (by decide)
  · rfl

/-- A type opens with a word or a parenthesis. -/
theorem tokens_eq_cons : ∀ t : TypeExpr, ∃ u us, t.tokens = u :: us ∧ u ≠ comma ∧ u ≠ greater
  | .keyword word => ⟨_, [], by rw [tokens], by simp, by simp⟩
  | .named qualifier outer last => by
    have hseg : ∀ s : Segment, ∃ w us, s.tokens = name w :: us := by
      intro s
      cases s with
      | plain n => exact ⟨n, [], by rw [Segment.tokens]⟩
      | generic n a as => exact ⟨n, _, by rw [Segment.tokens]⟩
    cases qualifier with
    | some q => exact ⟨name q, _, by rw [tokens]; rfl, by simp, by simp⟩
    | none =>
      cases outer with
      | nil =>
        obtain ⟨w, us, hus⟩ := hseg last
        exact ⟨name w, us, by rw [tokens, Segment.dottedTokens, hus]; rfl, by simp, by simp⟩
      | cons s ss =>
        obtain ⟨w, us, hus⟩ := hseg s
        exact ⟨name w, _, by rw [tokens, Segment.dottedTokens, hus]; rfl, by simp, by simp⟩
  | .nullable inner => by
    obtain ⟨u, us, hus, hu⟩ := tokens_eq_cons inner
    exact ⟨u, us ++ [question], by rw [tokens, hus]; rfl, hu⟩
  | .array element commas => by
    obtain ⟨u, us, hus, hu⟩ := tokens_eq_cons element
    exact ⟨u, _, by rw [tokens, hus]; rfl, hu⟩
  | .tuple first second rest => ⟨leftParen, _, by rw [tokens], by simp, by simp⟩

/-- An argument that is given is read as a type. -/
theorem readArg_tokens_append (type : TypeReader) (t : TypeExpr) (ts : List TypeToken) :
    readArg type (t.tokens ++ ts) = (type (t.tokens ++ ts)).map fun (t, ts) => (.given t, ts) := by
  obtain ⟨u, us, hus, hc, hg⟩ := tokens_eq_cons t
  rw [hus, List.cons_append]
  cases u <;> first | rfl | exact absurd rfl hc | exact absurd rfl hg

section Steps

-- One step of each reader, for any way to read the types inside.
variable {type : TypeReader} {m : Nat} {ts us vs : List TypeToken}

theorem readArgs_cons {a : TypeArg} {as : List TypeArg} (ha : readArg type ts = .ok (a, us))
    (has : readArgs type m us = .ok (as, vs)) :
    readArgs type (m + 1) (comma :: ts) = .ok (a :: as, vs) := by
  rw [readArgs]
  simp only [ha, has, bind, Except.bind, pure, Except.pure]

theorem readArgs_nil : readArgs type m (greater :: ts) = .ok ([], ts) := by
  cases m <;> rfl

theorem readSegment_generic {w : String} {a : TypeArg} {as : List TypeArg}
    (ha : readArg type ts = .ok (a, us)) (has : readArgs type m us = .ok (as, vs)) :
    readSegment type m (name w :: less :: ts) = .ok (.generic w a as, vs) := by
  rw [readSegment]
  simp only [ha, has, bind, Except.bind, pure, Except.pure]

theorem readSegment_plain {w : String} (h : ∀ u, ts.head? = some u → u ≠ less) :
    readSegment type m (name w :: ts) = .ok (.plain w, ts) := by
  cases ts with
  | nil => rfl
  | cons u us => cases u <;> first | rfl | exact absurd rfl (h less rfl)

theorem readSegments_cons {s last : Segment} {outer : List Segment}
    (hs : readSegment type m ts = .ok (s, dot :: us))
    (ho : readSegments type m us = .ok (outer, last, vs)) :
    readSegments type (m + 1) ts = .ok (s :: outer, last, vs) := by
  rw [readSegments]
  simp only [hs, ho, bind, Except.bind, pure, Except.pure]

theorem readSegments_last {s : Segment} (hs : readSegment type m ts = .ok (s, us))
    (hu : EndsName us) : readSegments type (m + 1) ts = .ok ([], s, us) := by
  rw [readSegments]
  simp only [hs, bind, Except.bind, pure, Except.pure]
  split
  · exact absurd (hu _ rfl) (by decide)
  · rfl

theorem readElement_named {t : TypeExpr} {w : String} (ht : type ts = .ok (t, name w :: us)) :
    readElement type ts = .ok (⟨t, some w⟩, us) := by
  rw [readElement]
  simp only [ht, bind, Except.bind, pure, Except.pure]

theorem readElement_unnamed {t : TypeExpr} (ht : type ts = .ok (t, us))
    (hu : ∀ w, us.head? ≠ some (name w)) : readElement type ts = .ok (⟨t, none⟩, us) := by
  rw [readElement]
  simp only [ht, bind, Except.bind, pure, Except.pure]
  split
  · exact absurd rfl (hu _)
  · rfl

theorem readElements_cons {e : TupleElement} {es : List TupleElement}
    (he : readElement type ts = .ok (e, us)) (hes : readElements type m us = .ok (es, vs)) :
    readElements type (m + 1) (comma :: ts) = .ok (e :: es, vs) := by
  rw [readElements]
  simp only [he, hes, bind, Except.bind, pure, Except.pure]

theorem readElements_nil : readElements type m (rightParen :: ts) = .ok ([], ts) := by
  cases m <;> rfl

end Steps

theorem readType_keyword {n : Nat} {w : String} {ts : List TypeToken} (h : w ∈ keywords) :
    readType (n + 1) (name w :: ts) = readMarks (.keyword w) ts := by
  rw [readType]
  exact if_pos h

theorem readType_named {n : Nat} {w : String} {ts us vs : List TypeToken} {q : Option String}
    {outer : List Segment} {last : Segment} (h : w ∉ keywords)
    (hq : readQualifier (name w :: ts) = (q, us))
    (hs : readSegments (readType n) (n + 1) us = .ok (outer, last, vs)) :
    readType (n + 1) (name w :: ts) = readMarks (.named q outer last) vs := by
  rw [readType]
  simp only [h, if_false, hq, hs, bind, Except.bind]

theorem readType_tuple {n : Nat} {ts us vs : List TypeToken} {first second : TupleElement}
    {rest : List TupleElement} (hf : readElement (readType n) ts = .ok (first, us))
    (hr : readElements (readType n) n us = .ok (second :: rest, vs)) :
    readType (n + 1) (leftParen :: ts) = readMarks (.tuple first second rest) vs := by
  rw [readType]
  simp only [hf, hr, bind, Except.bind]

end TypeExpr

/-- A segment opens with its name, and goes on with its arguments or not at all. -/
theorem Segment.tokens_append (s : Segment) (ts : List TypeToken) :
    ∃ us, s.tokens ++ ts = TypeToken.name s.name :: us ∧ (us = ts ∨ us.head? = some less) := by
  cases s with
  | plain n => exact ⟨ts, by rw [Segment.tokens]; rfl, .inl rfl⟩
  | generic n a as => exact ⟨_, by rw [Segment.tokens]; rfl, .inr rfl⟩

theorem TypeExpr.readQualifier_none (outer : List Segment) (last : Segment) {ts : List TypeToken}
    (hts : TypeExpr.EndsName ts) :
    ∃ us, Segment.dottedTokens outer ++ (last.tokens ++ ts)
        = name (TypeExpr.firstWord none outer last) :: us ∧
      TypeExpr.readQualifier (name (TypeExpr.firstWord none outer last) :: us)
        = (none, name (TypeExpr.firstWord none outer last) :: us) := by
  have hread : ∀ (w : String) (us : List TypeToken), us.head? ≠ some colons →
      TypeExpr.readQualifier (name w :: us) = (none, name w :: us) := by
    intro w us hus
    cases us with
    | nil => rfl
    | cons u us => cases u <;> first | rfl | exact absurd rfl hus
  cases outer with
  | nil =>
    obtain ⟨us, hus, rfl | hless⟩ := Segment.tokens_append last ts
    · refine ⟨us, by rw [Segment.dottedTokens]; exact hus, hread _ _ fun h => ?_⟩
      exact absurd (hts _ h) (by decide)
    · exact ⟨us, by rw [Segment.dottedTokens]; exact hus, hread _ _ (by simp [hless])⟩
  | cons s ss =>
    obtain ⟨us, hus, rfl | hless⟩ := Segment.tokens_append s
      (dot :: (Segment.dottedTokens ss ++ (last.tokens ++ ts)))
    · refine ⟨dot :: (Segment.dottedTokens ss ++ (last.tokens ++ ts)), ?_, hread _ _ (by simp)⟩
      rw [Segment.dottedTokens, List.append_assoc]
      exact hus
    · refine ⟨us, ?_, hread _ _ (by simp [hless])⟩
      rw [Segment.dottedTokens, List.append_assoc]
      exact hus

namespace TypeExpr

/-- Where tokens are read as the phrase that they derive, with enough levels and steps left. -/
def Phrase.IsRead (ts : List TypeToken) : Phrase → Prop
  | type t | primary t => ∀ ⦃n us⦄, ts.length ≤ n → EndsName us →
      readType (n + 1) (ts ++ us) = readMarks t us
  | path outer last => ∀ ⦃n m us⦄, ts.length ≤ n → ts.length ≤ m → EndsName us →
      readSegments (readType n) m (ts ++ us) = .ok (outer, last, us)
  | segment s => ∀ ⦃n m us⦄, ts.length ≤ n → ts.length ≤ m + 1 →
      (∀ u, us.head? = some u → u ≠ less) → readSegment (readType n) m (ts ++ us) = .ok (s, us)
  | arg a => ∀ ⦃n us⦄, ts.length < n → (∃ vs, us = comma :: vs ∨ us = greater :: vs) →
      readArg (readType n) (ts ++ us) = .ok (a, us)
  | args as => ∀ ⦃n m us⦄, ts.length < n → ts.length ≤ m →
      readArgs (readType n) m (ts ++ greater :: us) = .ok (as, us)
  | element e => ∀ ⦃n us⦄, ts.length < n → (∃ vs, us = comma :: vs ∨ us = rightParen :: vs) →
      readElement (readType n) (ts ++ us) = .ok (e, us)
  | elements es => ∀ ⦃n m us⦄, ts.length < n → ts.length ≤ m →
      readElements (readType n) m (ts ++ rightParen :: us) = .ok (es, us)

namespace Derives

variable {ts : List TypeToken}

/-- What follows an argument is a comma or the closing bracket. -/
theorem args_append {as : List TypeArg} (h : Derives ts (.args as)) (us : List TypeToken) :
    ∃ vs, ts ++ greater :: us = comma :: vs ∨ ts ++ greater :: us = greater :: vs := by
  cases h with
  | noArgs => exact ⟨us, .inr rfl⟩
  | moreArgs _ _ => exact ⟨_, .inl rfl⟩

/-- What follows an element is a comma or the closing parenthesis. -/
theorem elements_append {es : List TupleElement} (h : Derives ts (.elements es))
    (us : List TypeToken) :
    ∃ vs, ts ++ rightParen :: us = comma :: vs ∨ ts ++ rightParen :: us = rightParen :: vs := by
  cases h with
  | noElements => exact ⟨us, .inr rfl⟩
  | moreElements _ _ => exact ⟨_, .inl rfl⟩

theorem readQualifier_eq {outer : List Segment} {last : Segment} {w : String}
    (h : Derives ts (.path outer last)) (hhead : ts.head? = some (name w)) {us : List TypeToken}
    (hus : EndsName us) :
    ∃ vs, ts ++ us = name w :: vs ∧ readQualifier (name w :: vs) = (none, name w :: vs) := by
  rw [h.head?_path, Option.some.injEq, name.injEq] at hhead
  subst hhead
  rw [h.tokens_eq, Phrase.tokens, List.append_assoc]
  exact readQualifier_none outer last hus

theorem isRead {p : Phrase} (h : Derives ts p) : p.IsRead ts := by
  induction h with
  | primary _ ih => exact ih
  | nullable _ ih =>
    intro n us hn _
    rw [List.length_append] at hn
    rw [List.append_assoc, List.singleton_append, ← readMarks_question]
    exact ih (by omega) (endsName_cons rfl)
  | array _ commas ih =>
    intro n us hn _
    rw [List.length_append] at hn
    rw [List.append_assoc, List.cons_append, List.append_assoc, List.singleton_append,
      ← readMarks_brackets]
    exact ih (by omega) (endsName_cons rfl)
  | keyword hword =>
    intro n us _ _
    exact readType_keyword hword
  | tuple _ _ hrest ihfirst ihsecond ihrest =>
    intro n us hn _
    simp only [List.length_cons, List.length_append] at hn
    obtain ⟨k, rfl⟩ : ∃ k, n = k + 1 := ⟨n - 1, by omega⟩
    have helement := ihsecond (n := k + 1) (by omega) (hrest.elements_append us)
    simp only [List.cons_append, List.append_assoc, List.nil_append]
    exact readType_tuple (ihfirst (by omega) ⟨_, .inl rfl⟩)
      (readElements_cons helement (ihrest (by omega) (by omega)))
  | unqualified hhead hword h ih =>
    intro n us hn hus
    have hsegments := ih (m := n + 1) hn (by omega) hus
    obtain ⟨vs, hvs, hq⟩ := h.readQualifier_eq hhead hus
    rw [hvs] at hsegments ⊢
    exact readType_named hword hq hsegments
  | qualified hword _ ih =>
    intro n us hn hus
    simp only [List.length_cons] at hn
    exact readType_named hword rfl (ih (by omega) (by omega) hus)
  | last h ih =>
    intro n m us hn hm hus
    cases m with
    | zero =>
      have hhead := (Derives.last h).head?_path
      rw [List.length_eq_zero_iff.1 (Nat.le_zero.1 hm)] at hhead
      cases hhead
    | succ k =>
      refine readSegments_last (ih hn hm ?_) hus
      rintro _ hu rfl
      exact absurd (hus _ hu) (by decide)
  | dot _ _ ihs ih =>
    intro n m us hn hm hus
    simp only [List.length_append, List.length_cons] at hn hm
    obtain ⟨k, rfl⟩ : ∃ k, m = k + 1 := ⟨m - 1, by omega⟩
    rw [List.append_assoc, List.cons_append]
    exact readSegments_cons (ihs (by omega) (by omega) (by simp)) (ih (by omega) (by omega) hus)
  | plain w =>
    intro n m us _ _ hus
    exact readSegment_plain hus
  | generic w _ has iha ihas =>
    intro n m us hn hm _
    simp only [List.length_cons, List.length_append] at hn hm
    simp only [List.cons_append, List.append_assoc, List.nil_append]
    exact readSegment_generic (iha (by omega) (has.args_append us)) (ihas (by omega) (by omega))
  | omitted =>
    rintro n us _ ⟨vs, rfl | rfl⟩
    · rfl
    · rfl
  | given h ih =>
    rename_i t
    intro n us hn hus
    obtain ⟨k, rfl⟩ : ∃ k, n = k + 1 := ⟨n - 1, by omega⟩
    have hend : EndsType us := by
      obtain ⟨vs, rfl | rfl⟩ := hus
      · exact endsType_cons rfl
      · exact endsType_cons rfl
    have hread := ih (Nat.lt_succ_iff.1 hn) (endsName_of_endsType hend)
    rw [readMarks_of_endsType t hend] at hread
    rw [h.tokens_eq, Phrase.tokens] at hread ⊢
    rw [readArg_tokens_append, hread]
    rfl
  | noArgs =>
    intro n m us _ _
    exact readArgs_nil
  | moreArgs _ has iha ihas =>
    intro n m us hn hm
    simp only [List.length_cons, List.length_append] at hn hm
    obtain ⟨k, rfl⟩ : ∃ k, m = k + 1 := ⟨m - 1, by omega⟩
    rw [List.cons_append, List.append_assoc]
    exact readArgs_cons (iha (by omega) (has.args_append us)) (ihas (by omega) (by omega))
  | unnamed _ ih =>
    rename_i t _
    intro n us hn hus
    obtain ⟨k, rfl⟩ : ∃ k, n = k + 1 := ⟨n - 1, by omega⟩
    have hend : EndsType us ∧ ∀ w, us.head? ≠ some (name w) := by
      obtain ⟨vs, rfl | rfl⟩ := hus
      · exact ⟨endsType_cons rfl, by simp⟩
      · exact ⟨endsType_cons rfl, by simp⟩
    have hread := ih (Nat.lt_succ_iff.1 hn) (endsName_of_endsType hend.1)
    rw [readMarks_of_endsType t hend.1] at hread
    exact readElement_unnamed hread hend.2
  | named _ w ih =>
    rename_i t _
    intro n us hn _
    rw [List.length_append] at hn
    obtain ⟨k, rfl⟩ : ∃ k, n = k + 1 := ⟨n - 1, by omega⟩
    have hread := @ih k (name w :: us) (by omega) (endsName_cons rfl)
    rw [readMarks_of_endsType t (endsType_cons rfl)] at hread
    rw [List.append_assoc]
    exact readElement_named hread
  | noElements =>
    intro n m us _ _
    exact readElements_nil
  | moreElements _ hes ihe ihes =>
    intro n m us hn hm
    simp only [List.length_cons, List.length_append] at hn hm
    obtain ⟨k, rfl⟩ : ∃ k, m = k + 1 := ⟨m - 1, by omega⟩
    rw [List.cons_append, List.append_assoc]
    exact readElements_cons (ihe (by omega) (hes.elements_append us)) (ihes (by omega) (by omega))

/-- All of the tokens of a type are read as it. -/
theorem readType_eq {t : TypeExpr} (h : Derives ts (.type t)) :
    readType (ts.length + 1) ts = .ok (t, []) := by
  have hread : readType (ts.length + 1) (ts ++ []) = readMarks t [] :=
    h.isRead (Nat.le_refl _) (by simp [EndsName])
  rwa [List.append_nil, readMarks_of_endsType t (by simp [EndsType])] at hread

end Derives

end TypeExpr

end TaskWrappers
