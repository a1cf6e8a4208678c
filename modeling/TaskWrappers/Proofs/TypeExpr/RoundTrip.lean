import TaskWrappers.Proofs.TypeExpr.Exact

/-!
# Printing and reading types

Printing and then reading gives back every well formed type (`TypeExpr.read_print`), so no two of
them are printed alike (`TypeExpr.print_injective`). In the other direction all types that are read
are well formed, as long as each `@` of the text stands before a name (`TypeExpr.wellFormed_read`):
the words of such a text are names, and names derive nothing else (`TypeExpr.Derives.wellFormed`).
-/

namespace TaskWrappers

open Text TypeToken

namespace TypeExpr

theorem read_print {t : TypeExpr} (h : t.WellFormed) : read t.print = .ok t := by
  have hscan := scan_print t h breaks_nil (by rw [scan])
  rw [List.append_nil, List.append_nil] at hscan
  have hread := (derives_tokens t h).readType_eq
  simp only [read, hscan, hread, bind, Except.bind, pure, Except.pure]

theorem read_of_print_eq {t : TypeExpr} {text : String} (h : t.WellFormed)
    (hprint : t.print = text) : read text = .ok t := by
  rw [← hprint, read_print h]

theorem print_injective {t t' : TypeExpr} (h : t.WellFormed) (h' : t'.WellFormed)
    (heq : t.print = t'.print) : t = t' := by
  have hread := read_print h
  rw [heq, read_print h'] at hread
  cases hread
  rfl

end TypeExpr

/-- Whether what follows each `@` opens a name. -/
def Text.VerbatimNames (cs : List Char) : Prop :=
  ∀ before c after, cs = before ++ '@' :: c :: after → isNameStart c = true

theorem Text.VerbatimNames.of_suffix {cs ds : List Char} (h : VerbatimNames cs) (hs : ds <:+ cs) :
    VerbatimNames ds := by
  obtain ⟨lead, rfl⟩ := hs
  intro before c after heq
  exact h (lead ++ before) c after (by rw [heq, List.append_assoc])

def Text.verbatimNames : List Char → Bool
  | [] => true
  | c :: cs => (c != '@' || cs.head?.all isNameStart) && verbatimNames cs

theorem Text.verbatimNames_iff {cs : List Char} : verbatimNames cs = true ↔ VerbatimNames cs := by
  induction cs with
  | nil =>
    refine ⟨fun _ before c after h => ?_, fun _ => rfl⟩
    cases before <;> cases h
  | cons c cs ih =>
    rw [verbatimNames, Bool.and_eq_true, ih]
    refine ⟨fun ⟨hc, h⟩ before d after heq => ?_,
      fun h => ⟨?_, h.of_suffix (List.suffix_cons c cs)⟩⟩
    · cases before with
      | nil =>
        cases heq
        simpa using hc
      | cons b before =>
        cases heq
        exact h before d after rfl
    · by_cases hat : c = '@'
      · subst hat
        cases cs with
        | nil => rfl
        | cons d ds => simpa using h [] d ds rfl
      · simp [hat]

instance (cs : List Char) : Decidable (Text.VerbatimNames cs) :=
  decidable_of_iff _ Text.verbatimNames_iff

theorem Text.verbatimNames_of_not_mem {cs : List Char} (h : '@' ∉ cs) : VerbatimNames cs := by
  rintro before c after rfl
  exact absurd (by simp) h

namespace TypeToken

/-- Whether the words among some tokens are names. -/
def Named (ts : List TypeToken) : Prop := ∀ w, name w ∈ ts → isName w = true

theorem Named.of_cons {t : TypeToken} {ts : List TypeToken} (h : Named (t :: ts)) : Named ts :=
  fun w hw => h w (List.mem_cons_of_mem _ hw)

theorem Named.of_append {ts us : List TypeToken} (h : Named (ts ++ us)) : Named ts ∧ Named us :=
  ⟨fun w hw => h w (List.mem_append_left us hw), fun w hw => h w (List.mem_append_right ts hw)⟩

theorem Named.head {w : String} {ts : List TypeToken} (h : Named (name w :: ts)) :
    isName w = true :=
  h w List.mem_cons_self

theorem Named.cons {t : TypeToken} {ts : List TypeToken} (ht : ∀ w, t = name w → isName w = true)
    (h : Named ts) : Named (t :: ts) := by
  intro w hw
  rcases List.mem_cons.1 hw with rfl | hw
  · exact ht w rfl
  · exact h w hw

theorem ofChar?_ne_name {c : Char} {w : String} : ofChar? c ≠ some (name w) := by
  intro h
  unfold ofChar? at h
  split at h <;> cases h

theorem isName_ofList {c : Char} {cs : List Char} (hc : isNameStart c = true)
    (hcs : ∀ d ∈ cs, isNameRest d = true) : isName (.ofList (c :: cs)) = true :=
  isName_iff.2 ⟨c, cs, String.toList_ofList, hc, hcs⟩

theorem named_scan {cs : List Char} {ts : List TypeToken} (hv : VerbatimNames cs)
    (h : scan cs = .ok ts) : Named ts := by
  fun_induction scan cs generalizing ts with
  | case1 =>
    cases h
    intro w hw
    cases hw
  | case2 c cs _ ih => exact ih (hv.of_suffix (List.suffix_cons c cs)) h
  | case3 c cs _ t ht ih =>
    obtain ⟨us, hus, rfl⟩ := Except.exists_of_map_eq_ok h
    refine (ih (hv.of_suffix (List.suffix_cons c cs)) hus).cons ?_
    rintro w rfl
    exact absurd ht ofChar?_ne_name
  | case4 cs _ _ ih =>
    obtain ⟨us, hus, rfl⟩ := Except.exists_of_map_eq_ok h
    refine (ih (hv.of_suffix ((List.suffix_cons _ cs).trans (List.suffix_cons _ _))) hus).cons ?_
    intro w hw
    cases hw
  | case5 => cases h
  | case6 => cases h
  | case7 cs word hword =>
    rename_i ih
    obtain ⟨us, hus, rfl⟩ := Except.exists_of_map_eq_ok h
    refine (ih (hv.of_suffix ((List.dropWhile_suffix _).trans (List.suffix_cons _ _))) hus).cons ?_
    intro _ hw
    cases hw
    cases cs with
    | nil => exact absurd rfl hword
    | cons c cs =>
      have hc := hv [] c cs rfl
      have hrest := isNameRest_of_isNameStart hc
      simp only [word, List.takeWhile_cons, hrest, if_true]
      exact isName_ofList hc (List.all_eq_true.1 List.all_takeWhile)
  | case8 c cs _ _ _ _ hc ih =>
    obtain ⟨us, hus, rfl⟩ := Except.exists_of_map_eq_ok h
    refine (ih (hv.of_suffix ((List.dropWhile_suffix _).trans (List.suffix_cons _ _))) hus).cons ?_
    intro _ hw
    cases hw
    exact isName_ofList hc (List.all_eq_true.1 List.all_takeWhile)
  | case9 => cases h

end TypeToken

namespace TypeExpr

/-- Whether what a phrase stands for can be written down. -/
def Phrase.WellFormed : Phrase → Prop
  | type t | primary t => t.WellFormed
  | path outer last => Segment.AllWellFormed outer ∧ last.WellFormed
  | segment s => s.WellFormed
  | arg a => a.WellFormed
  | args as => TypeArg.AllWellFormed as
  | element e => e.WellFormed
  | elements es => TupleElement.AllWellFormed es

theorem Derives.wellFormed {ts : List TypeToken} {p : Phrase} (h : Derives ts p) (hn : Named ts) :
    p.WellFormed := by
  induction h with
  | primary _ ih => exact ih hn
  | nullable _ ih =>
    rw [Phrase.WellFormed, TypeExpr.WellFormed]
    exact ih hn.of_append.1
  | array _ _ ih =>
    rw [Phrase.WellFormed, TypeExpr.WellFormed]
    exact ih hn.of_append.1
  | keyword hword => rwa [Phrase.WellFormed, TypeExpr.WellFormed]
  | tuple _ _ _ ihfirst ihsecond ihrest =>
    have helements := hn.of_cons.of_append.1.of_append
    have hmore := helements.2.of_cons.of_append
    rw [Phrase.WellFormed, TypeExpr.WellFormed]
    exact ⟨ihfirst helements.1, ihsecond hmore.1, ihrest hmore.2⟩
  | unqualified hhead hword h ih =>
    rw [h.head?_path, Option.some.injEq, name.injEq] at hhead
    rw [Phrase.WellFormed, TypeExpr.WellFormed]
    refine ⟨fun q hq => ?_, (ih hn).1, (ih hn).2, hhead ▸ hword⟩
    cases hq
  | qualified hword _ ih =>
    have hpath := ih hn.of_cons.of_cons
    rw [Phrase.WellFormed, TypeExpr.WellFormed]
    refine ⟨fun q hq => ?_, hpath.1, hpath.2, hword⟩
    cases hq
    exact hn.head
  | last _ ih => exact ⟨by rw [Segment.AllWellFormed]; trivial, ih hn⟩
  | dot _ _ ihs ih =>
    have hpath := ih hn.of_append.2.of_cons
    exact ⟨by rw [Segment.AllWellFormed]; exact ⟨ihs hn.of_append.1, hpath.1⟩, hpath.2⟩
  | plain w =>
    rw [Phrase.WellFormed, Segment.WellFormed]
    exact hn.head
  | generic w _ _ iha ihas =>
    have hargs := hn.of_cons.of_cons.of_append.1.of_append
    rw [Phrase.WellFormed, Segment.WellFormed]
    exact ⟨hn.head, iha hargs.1, ihas hargs.2⟩
  | omitted => rw [Phrase.WellFormed, TypeArg.WellFormed]; trivial
  | given _ ih =>
    rw [Phrase.WellFormed, TypeArg.WellFormed]
    exact ih hn
  | noArgs => rw [Phrase.WellFormed, TypeArg.AllWellFormed]; trivial
  | moreArgs _ _ iha ihas =>
    rw [Phrase.WellFormed, TypeArg.AllWellFormed]
    exact ⟨iha hn.of_cons.of_append.1, ihas hn.of_cons.of_append.2⟩
  | unnamed _ ih =>
    rw [Phrase.WellFormed, TupleElement.WellFormed]
    refine ⟨ih hn, fun w hw => ?_⟩
    cases hw
  | named _ w ih =>
    rw [Phrase.WellFormed, TupleElement.WellFormed]
    refine ⟨ih hn.of_append.1, fun w hw => ?_⟩
    cases hw
    exact hn.of_append.2.head
  | noElements => rw [Phrase.WellFormed, TupleElement.AllWellFormed]; trivial
  | moreElements _ _ ihe ihes =>
    rw [Phrase.WellFormed, TupleElement.AllWellFormed]
    exact ⟨ihe hn.of_cons.of_append.1, ihes hn.of_cons.of_append.2⟩

theorem wellFormed_read {text : String} {t : TypeExpr} (hv : VerbatimNames text.toList)
    (h : read text = .ok t) : t.WellFormed := by
  obtain ⟨ts, hts, ht⟩ := read_iff.1 h
  exact ht.wellFormed (named_scan hv hts)

/-- Every well formed type is read from its printed text, and every type that is read from a text
without stray `@` is well formed and so is read from its own printed text again. -/
theorem roundTrip :
    (∀ t : TypeExpr, t.WellFormed → read t.print = .ok t) ∧
      ∀ (text : String) (t : TypeExpr), VerbatimNames text.toList → read text = .ok t →
        t.WellFormed ∧ read t.print = .ok t := by
  refine ⟨fun t => read_print, fun text t hv h => ?_⟩
  have hw := wellFormed_read hv h
  exact ⟨hw, read_print hw⟩

theorem roundTrip_partlyGiven :
    (read (print (.named none [] (.generic "Map" .omitted [.given (.keyword "int")])))
        = .ok (.named none [] (.generic "Map" .omitted [.given (.keyword "int")]))) ∧
      read "( @int[ , ]?x,global :: A.B< >)" = .ok (.tuple
        ⟨.nullable (.array (.keyword "int") 1), some "x"⟩
        ⟨.named (some "global") [.plain "A"] (.generic "B" .omitted []), none⟩ []) ∧
      read "(int[,]? x, global::A.B<>)" = .ok (.tuple
        ⟨.nullable (.array (.keyword "int") 1), some "x"⟩
        ⟨.named (some "global") [.plain "A"] (.generic "B" .omitted []), none⟩ []) := by
  have hread : read "( @int[ , ]?x,global :: A.B< >)" = .ok (.tuple
      ⟨.nullable (.array (.keyword "int") 1), some "x"⟩
      ⟨.named (some "global") [.plain "A"] (.generic "B" .omitted []), none⟩ []) := by
    cbv
  refine ⟨roundTrip.1 _ ?_, hread, ?_⟩
  · simp only [WellFormed, Segment.AllWellFormed, Segment.WellFormed, TypeArg.AllWellFormed,
      TypeArg.WellFormed]
    decide
  · refine (roundTrip.2 "( @int[ , ]?x,global :: A.B< >)" _ ?_ hread).2
    decide

end TypeExpr

end TaskWrappers
