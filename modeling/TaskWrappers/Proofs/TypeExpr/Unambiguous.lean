import TaskWrappers.Proofs.TypeExpr.Exact

/-!
# Types are read without ambiguity

A token list derives one type at most, for whatever it derives is what it is read as
(`TypeExpr.Derives.unique`). White space between two tokens adds none (`TypeToken.scan_spaced`), and
how deep a reader may go says nothing once it may go as deep as there are tokens, of texts that are
no types as well (`TypeExpr.readType_congr`): a level down, and a step on in a list, there is at
least one token less. So reading is the grammar and no more (`TypeExpr.read_grammar`).
-/

namespace TaskWrappers

open Text TypeToken

namespace TypeToken

/-- White space where one token ends and the next begins leaves all of them as they are. -/
theorem scan_spaced {cs space ds : List Char} {ts us : List TypeToken} (hcs : scan cs = .ok ts)
    (hds : scan ds = .ok us) (hcut : scan (cs ++ ds) = .ok (ts ++ us))
    (hspace : ∀ c ∈ space, isSpace c = true) : scan (cs ++ (space ++ ds)) = scan (cs ++ ds) := by
  cases space with
  | nil => rfl
  | cons c space =>
    have hhead : ∀ d, (c :: space ++ ds).head? = some d → isSpace d = true := by
      intro d hd
      cases hd
      exact hspace c List.mem_cons_self
    rw [scan_append_of_isSpace hhead, hcs, scan_spaces_append hspace, hds, hcut]
    rfl

end TypeToken

namespace TypeExpr

theorem Derives.unique {ts : List TypeToken} {t t' : TypeExpr} (h : Derives ts (.type t))
    (h' : Derives ts (.type t')) : t = t' := by
  have heq := h.readType_eq
  rw [h'.readType_eq] at heq
  cases heq
  rfl

section Bounds

-- Two readers of types that say the same of all lists with at most `k` tokens.
variable {type type' : TypeReader} {k : Nat}
  (hk : ∀ ts : List TypeToken, ts.length ≤ k → type ts = type' ts)

include hk

theorem readArg_congr {ts : List TypeToken} (hts : ts.length ≤ k) :
    readArg type ts = readArg type' ts := by
  unfold readArg
  rw [hk ts hts]

theorem readElement_congr {ts : List TypeToken} (hts : ts.length ≤ k) :
    readElement type ts = readElement type' ts := by
  rw [readElement, readElement, hk ts hts]

variable (hs : Sound type)

include hs

theorem readArgs_congr {n m : Nat} {ts : List TypeToken} (hn : ts.length ≤ n) (hm : ts.length ≤ m)
    (hts : ts.length ≤ k) : readArgs type n ts = readArgs type' m ts := by
  induction n generalizing m ts with
  | zero =>
    rw [List.length_eq_zero_iff.1 (Nat.le_zero.1 hn)]
    cases m <;> rfl
  | succ n ih =>
    cases ts with
    | nil => cases m <;> rfl
    | cons u us =>
      obtain ⟨m, rfl⟩ : ∃ l, m = l + 1 := ⟨m - 1, by rw [List.length_cons] at hm; omega⟩
      rw [List.length_cons] at hn hm hts
      by_cases hu : u = comma
      · subst hu
        rw [readArgs, readArgs, ← readArg_congr hk (by omega)]
        refine Except.bind_congr ?_
        rintro ⟨a, ws⟩ ha
        obtain ⟨vs, rfl, -⟩ := derives_readArg hs ha
        rw [List.length_append] at hn hm hts
        have hrest : readArgs type n ws = readArgs type' m ws :=
          ih (by omega) (by omega) (by omega)
        simp only [hrest]
      · cases u <;> first | rfl | exact absurd rfl hu

theorem readElements_congr {n m : Nat} {ts : List TypeToken} (hn : ts.length ≤ n)
    (hm : ts.length ≤ m) (hts : ts.length ≤ k) :
    readElements type n ts = readElements type' m ts := by
  induction n generalizing m ts with
  | zero =>
    rw [List.length_eq_zero_iff.1 (Nat.le_zero.1 hn)]
    cases m <;> rfl
  | succ n ih =>
    cases ts with
    | nil => cases m <;> rfl
    | cons u us =>
      obtain ⟨m, rfl⟩ : ∃ l, m = l + 1 := ⟨m - 1, by rw [List.length_cons] at hm; omega⟩
      rw [List.length_cons] at hn hm hts
      by_cases hu : u = comma
      · subst hu
        rw [readElements, readElements, ← readElement_congr hk (by omega)]
        refine Except.bind_congr ?_
        rintro ⟨e, ws⟩ he
        obtain ⟨vs, rfl, -⟩ := derives_readElement hs he
        rw [List.length_append] at hn hm hts
        have hrest : readElements type n ws = readElements type' m ws :=
          ih (by omega) (by omega) (by omega)
        simp only [hrest]
      · cases u <;> first | rfl | exact absurd rfl hu

theorem readSegment_congr {n m : Nat} {ts : List TypeToken} (hn : ts.length ≤ n + 1)
    (hm : ts.length ≤ m + 1) (hts : ts.length ≤ k + 1) :
    readSegment type n ts = readSegment type' m ts := by
  unfold readSegment
  split
  · simp only [List.length_cons] at hn hm hts
    rw [← readArg_congr hk (by omega)]
    refine Except.bind_congr ?_
    rintro ⟨a, ws⟩ ha
    obtain ⟨vs, rfl, -⟩ := derives_readArg hs ha
    rw [List.length_append] at hn hm hts
    have hrest : readArgs type n ws = readArgs type' m ws :=
      readArgs_congr hk hs (by omega) (by omega) (by omega)
    simp only [hrest]
  · rfl
  · rfl

theorem readSegments_congr {n m : Nat} {ts : List TypeToken} (hn : ts.length ≤ n)
    (hm : ts.length ≤ m) (hts : ts.length ≤ k + 1) :
    readSegments type n ts = readSegments type' m ts := by
  induction n generalizing m ts with
  | zero =>
    rw [List.length_eq_zero_iff.1 (Nat.le_zero.1 hn)]
    cases m <;> rfl
  | succ n ih =>
    cases ts with
    | nil => cases m <;> rfl
    | cons u us =>
      obtain ⟨m, rfl⟩ : ∃ l, m = l + 1 := ⟨m - 1, by rw [List.length_cons] at hm; omega⟩
      rw [readSegments, readSegments, ← readSegment_congr hk hs hn hm hts]
      refine Except.bind_congr ?_
      rintro ⟨s, ws⟩ hseg
      obtain ⟨vs, hvs, -⟩ := derives_readSegment hs hseg
      rw [hvs, List.length_append] at hn hm hts
      cases ws with
      | nil => rfl
      | cons w ws =>
        rw [List.length_cons] at hn hm hts
        by_cases hw : w = dot
        · subst hw
          have hrest : readSegments type n ws = readSegments type' m ws :=
            ih (by omega) (by omega) (by omega)
          simp only [hrest]
        · cases w <;> first | rfl | exact absurd rfl hw

end Bounds

theorem readType_congr {n m : Nat} {ts : List TypeToken} (hn : ts.length < n) (hm : ts.length < m) :
    readType n ts = readType m ts := by
  induction n generalizing m ts with
  | zero => exact absurd hn (Nat.not_lt_zero _)
  | succ n ih =>
    obtain ⟨m, rfl⟩ : ∃ l, m = l + 1 := ⟨m - 1, by omega⟩
    cases ts with
    | nil => rfl
    | cons u us =>
      rw [List.length_cons] at hn hm
      have hk : ∀ vs : List TypeToken, vs.length ≤ us.length → readType n vs = readType m vs :=
        fun vs hvs => ih (by omega) (by omega)
      have hs := sound_readType n
      cases u with
      | leftParen =>
        rw [readType, readType, ← readElement_congr hk (Nat.le_refl _)]
        refine Except.bind_congr ?_
        rintro ⟨first, ws⟩ hfirst
        obtain ⟨vs, hvs, -⟩ := derives_readElement hs hfirst
        have hlength := congrArg List.length hvs
        rw [List.length_append] at hlength
        have hrest : readElements (readType n) n ws = readElements (readType m) m ws :=
          readElements_congr hk hs (by omega) (by omega) (by omega)
        simp only [hrest]
      | name w =>
        rw [readType, readType]
        by_cases hw : w ∈ keywords
        · rw [if_pos hw, if_pos hw]
        · rw [if_neg hw, if_neg hw]
          rcases readQualifier_cases w us with ⟨vs, rfl, hq⟩ | hq
          · simp only [hq]
            rw [List.length_cons] at hn hm hk
            rw [readSegments_congr hk hs (n := n + 1) (m := m + 1) (by omega) (by omega) (by omega)]
          · simp only [hq]
            have hlength : (name w :: us).length = us.length + 1 := List.length_cons
            rw [readSegments_congr hk hs (n := n + 1) (m := m + 1) (by omega) (by omega) (by omega)]
      | _ => rfl

/-- A text is read as the type that its tokens derive, if they derive one. They derive no other one,
white space between them changes nothing, and a reader that may go deeper than there are tokens ends
as one that may just do that. -/
theorem read_grammar :
    (∀ (text : String) (t : TypeExpr),
      read text = .ok t ↔ ∃ ts, scan text.toList = .ok ts ∧ Derives ts (.type t)) ∧
    (∀ (ts : List TypeToken) (t t' : TypeExpr), Derives ts (.type t) → Derives ts (.type t') →
      t = t') ∧
    (∀ (cs space ds : List Char) (ts us : List TypeToken), scan cs = .ok ts → scan ds = .ok us →
      scan (cs ++ ds) = .ok (ts ++ us) → (∀ c ∈ space, isSpace c = true) →
      read (.ofList (cs ++ (space ++ ds))) = read (.ofList (cs ++ ds))) ∧
    ∀ (n : Nat) (ts : List TypeToken), ts.length < n →
      readType n ts = readType (ts.length + 1) ts := by
  refine ⟨fun text t => read_iff, fun ts t t' => Derives.unique, ?_,
    fun n ts hn => readType_congr hn (Nat.lt_succ_self _)⟩
  intro cs space ds ts us hcs hds hcut hspace
  apply read_congr
  rw [String.toList_ofList, String.toList_ofList, scan_spaced hcs hds hcut hspace]

/-- The tokens of `Map<,int[]?>`. -/
def mapTokens : List TypeToken :=
  [name "Map", less, comma, name "int", leftBracket, rightBracket, question, greater]

def mapType : TypeExpr :=
  .named none [] (.generic "Map" .omitted [.given (.nullable (.array (.keyword "int") 0))])

theorem derives_mapTokens : Derives mapTokens (.type mapType) := by
  have harg := Derives.given (.nullable (.array (.primary (.keyword (w := "int") (by decide))) 0))
  have hpath := Derives.last (.generic "Map" .omitted (.moreArgs harg .noArgs))
  exact .primary (.unqualified hpath.head?_path (by decide) hpath)

theorem read_grammar_map :
    read "Map<,int[]?>" = .ok mapType ∧
      (∀ t, Derives mapTokens (.type t) → t = mapType) ∧
      read (.ofList ("Map<".toList ++ ([' ', '\n'] ++ ",int[]?>".toList)))
        = read (.ofList ("Map<".toList ++ ",int[]?>".toList)) ∧
      readType 100 mapTokens = readType 9 mapTokens := by
  have hscan : scan "Map<,int[]?>".toList = .ok mapTokens := by cbv
  have hleft : scan "Map<".toList = .ok (mapTokens.take 2) := by cbv
  have hright : scan ",int[]?>".toList = .ok (mapTokens.drop 2) := by cbv
  refine ⟨(read_grammar.1 _ _).2 ⟨mapTokens, hscan, derives_mapTokens⟩, ?_, ?_, ?_⟩
  · intro t ht
    exact read_grammar.2.1 mapTokens t mapType ht derives_mapTokens
  · exact read_grammar.2.2.1 _ _ _ _ _ hleft hright hscan (List.all_eq_true.1 (by decide))
  · exact read_grammar.2.2.2 100 mapTokens (by decide)

end TypeExpr

end TaskWrappers
