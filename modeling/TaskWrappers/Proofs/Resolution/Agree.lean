import TaskWrappers.Proofs.Resolution.Display
import TaskWrappers.Proofs.Resolution.Inquiry

/-!
# Models that agree on some names

Every full name that a reference may stand for ends like the reference
(`Model.lastPart_of_mem_candidates`), so all that a resolution looks up ends in a word of the type,
or in a word of a directive's target if an alias is followed. Two models that agree on the full
names with such ends resolve the type alike (`Model.AgreeOn.resolve_eq`).
-/

namespace TaskWrappers

namespace Text

/-- What comes after the last dot of a name. -/
def lastPart (name : String) : String := (dotParts name).getLast (dotParts_ne_nil name)

theorem lastPart_append (a b : String) : lastPart (a ++ "." ++ b) = lastPart b := by
  simp only [lastPart, dotParts_append]
  exact List.getLast_append_of_right_ne_nil _ _ (dotParts_ne_nil b)

theorem lastPart_of_not_mem {name : String} (h : '.' ∉ name.toList) : lastPart name = name := by
  simp only [lastPart, dotParts_of_not_mem h, List.getLast_singleton]

theorem lastPart_dotted (last : String) : ∀ outer : List String,
    lastPart (Scope.dotted (outer ++ [last])) = lastPart last
  | [] => by rw [List.nil_append, Scope.dotted, String.intercalate_singleton]
  | part :: outer => by
    have hne : outer ++ [last] ≠ [] := by simp
    rw [List.cons_append, Scope.dotted, String.intercalate_cons_of_ne_nil hne, lastPart_append]
    exact lastPart_dotted last outer

end Text

open Text

/-- The run of a name's characters as a word. -/
theorem Text.isNameRest_of_mem_run (cs : List Char) :
    ∀ c ∈ (String.ofList (cs.takeWhile isNameRest)).toList, isNameRest c = true := by
  rw [String.toList_ofList]
  exact List.all_eq_true.1 List.all_takeWhile

theorem TypeToken.isNameRest_of_mem_scan {cs : List Char} {ts : List TypeToken}
    (h : scan cs = .ok ts) {word : String} (hword : .name word ∈ ts) :
    ∀ c ∈ word.toList, isNameRest c = true := by
  fun_induction scan cs generalizing ts with
  | case1 =>
    cases h
    cases hword
  | case2 c cs _ ih => exact ih h hword
  | case3 c cs _ t ht ih =>
    obtain ⟨us, hus, rfl⟩ := Except.exists_of_map_eq_ok h
    rcases List.mem_cons.1 hword with rfl | hword
    · exact absurd ht ofChar?_ne_name
    · exact ih hus hword
  | case4 cs _ _ ih =>
    obtain ⟨us, hus, rfl⟩ := Except.exists_of_map_eq_ok h
    rcases List.mem_cons.1 hword with heq | hword
    · cases heq
    · exact ih hus hword
  | case5 => cases h
  | case6 => cases h
  | case7 cs =>
    rename_i ih
    obtain ⟨us, hus, rfl⟩ := Except.exists_of_map_eq_ok h
    rcases List.mem_cons.1 hword with heq | hword
    · cases heq
      exact isNameRest_of_mem_run cs
    · exact ih hus hword
  | case8 c cs _ _ _ _ hc ih =>
    obtain ⟨us, hus, rfl⟩ := Except.exists_of_map_eq_ok h
    rcases List.mem_cons.1 hword with heq | hword
    · cases heq
      have hrun := isNameRest_of_mem_run (c :: cs)
      rwa [List.takeWhile_cons_of_pos (isNameRest_of_isNameStart hc)] at hrun
    · exact ih hus hword
  | case9 => cases h

/-- A word without dots is all of it that a full name can end in. -/
theorem Text.lastPart_of_isNameRest {word : String} (h : ∀ c ∈ word.toList, isNameRest c = true) :
    lastPart word = word :=
  lastPart_of_not_mem fun hdot => absurd (h _ hdot) (by decide)

section Words

variable (P : String → Prop)

/-- Whether all words of a type end in a name with a property. -/
def TypeExpr.WordsEnd (t : TypeExpr) : Prop :=
  ∀ word, .name word ∈ t.tokens → P (lastPart word)

/-- Whether all words in the text of a type end in a name with a property. -/
def TypeExpr.TextWordsEnd (text : String) : Prop :=
  ∀ ts, TypeToken.scan text.toList = .ok ts → ∀ word, .name word ∈ ts → P (lastPart word)

variable {P}

/-- Whether a word occurs in the text of a type. -/
def TypeExpr.HasWord (text word : String) : Prop :=
  ∃ ts ∈ (TypeToken.scan text.toList).toOption, .name word ∈ ts

instance (text word : String) : Decidable (TypeExpr.HasWord text word) :=
  inferInstanceAs (Decidable (∃ ts ∈ (TypeToken.scan text.toList).toOption, .name word ∈ ts))

theorem TypeExpr.textWordsEnd_of_hasWord {text : String} (h : ∀ word, HasWord text word → P word) :
    TextWordsEnd P text := by
  intro ts hts word hword
  rw [lastPart_of_isNameRest (TypeToken.isNameRest_of_mem_scan hts hword)]
  refine h word ⟨ts, ?_, hword⟩
  rw [hts]
  rfl

theorem TypeExpr.TextWordsEnd.read {text : String} (h : TextWordsEnd P text) {t : TypeExpr}
    (hread : TypeExpr.read text = .ok t) : t.WordsEnd P :=
  h _ (read_exact hread)

/-- Whether that holds of all targets of directives. -/
def Using.TargetsEnd (P : String → Prop) (usings : List Using) : Prop :=
  ∀ u ∈ usings, TypeExpr.TextWordsEnd P u.target

end Words

namespace Model

section Candidates

variable {m : Model} {s : Scope} {name full : String}

theorem lastPart_of_mem_near (h : full ∈ s.near name) : lastPart full = lastPart name := by
  simp only [Scope.near, Scope.inTypes, Scope.inSpaces, List.mem_append, List.mem_map,
    List.mem_singleton] at h
  rcases h with (⟨types, -, rfl⟩ | h) | rfl
  · exact lastPart_append _ _
  · cases hspace : s.space with
    | none =>
      rw [hspace] at h
      cases h
    | some space =>
      rw [hspace] at h
      obtain ⟨parts, -, rfl⟩ := List.mem_map.1 h
      exact lastPart_append _ _
  · rfl

theorem lastPart_of_imported? {isSimple : Bool} {u : Using}
    (h : imported? name isSimple u = some full) : lastPart full = lastPart name := by
  unfold imported? at h
  split at h
  · split at h <;> cases h
    exact lastPart_append _ _
  · cases h
    exact lastPart_append _ _
  · cases h

/-- What an alias stands for is put in front of the rest of a dotted name. -/
theorem lastPart_of_mem_candidates (h : full ∈ m.candidates s name) :
    lastPart full = lastPart name := by
  rw [candidates] at h
  rcases List.mem_append.1 h with h | h
  · rcases List.mem_append.1 h with h | h
    · exact lastPart_of_mem_near h
    · obtain ⟨u, -, hu⟩ := List.mem_filterMap.1 h
      exact lastPart_of_imported? hu
  · split at h
    · obtain ⟨space, -, rfl⟩ := List.mem_map.1 h
      exact lastPart_append _ _
    · rename_i first rest hcut
      obtain ⟨u, -, rfl⟩ := List.mem_map.1 h
      have hname : name = .ofList first ++ "." ++ .ofList rest := by
        rw [← String.toList_inj, append_of_cut? hcut]
        simp [String.toList_append]
      rw [hname, lastPart_append, lastPart_append]

end Candidates

theorem findSome?_congr {α β : Type} {f g : α → Option β} : ∀ {as : List α},
    (∀ a ∈ as, f a = g a) → as.findSome? f = as.findSome? g
  | [], _ => rfl
  | a :: as, h => by
    rw [List.findSome?_cons, List.findSome?_cons, h a List.mem_cons_self,
      findSome?_congr fun b hb => h b (List.mem_cons_of_mem a hb)]

/-- Models in which the full names with certain ends stand for the same types. -/
structure AgreeOn (P : String → Prop) (m m' : Model) : Prop where
  type? : ∀ fullName arity, P (lastPart fullName) → m.type? fullName arity = m'.type? fullName arity
  globalUsings : m.globalUsings = m'.globalUsings
  implicitSpaces : m.implicitSpaces = m'.implicitSpaces

namespace AgreeOn

variable {P : String → Prop} {m m' : Model} (h : AgreeOn P m m') {s : Scope}

include h

theorem symm : AgreeOn P m' m :=
  ⟨fun name arity hname => (h.type? name arity hname).symm, h.globalUsings.symm,
    h.implicitSpaces.symm⟩

theorem candidates_eq (name : String) : m.candidates s name = m'.candidates s name := by
  simp only [candidates, usingsIn, h.globalUsings, h.implicitSpaces]

theorem aliasTarget?_eq (name : String) : m.aliasTarget? s name = m'.aliasTarget? s name := by
  rw [aliasTarget?, aliasTarget?, h.globalUsings]

theorem known?_eq (qualifier : Option String) {name : String} (arity : Nat)
    (hname : P (lastPart name)) :
    m.known? s qualifier name arity = m'.known? s qualifier name arity := by
  unfold known?
  cases qualifier with
  | none =>
    dsimp only
    rw [h.candidates_eq]
    refine findSome?_congr fun full hfull => h.type? full arity ?_
    rwa [lastPart_of_mem_candidates hfull]
  | some q =>
    dsimp only
    split
    · exact h.type? name arity hname
    · refine congrArg _ (funext fun target => h.type? _ arity ?_)
      rwa [lastPart_append]

theorem inquireNamed_eq (qualifier : Option String) (outer : List Segment) (last : Segment)
    (args : List Symbol) (hlast : P (lastPart last.name)) :
    m.inquireNamed s qualifier outer last args = m'.inquireNamed s qualifier outer last args := by
  have hname : P (lastPart (Scope.dotted ((outer ++ [last]).map Segment.name))) := by
    rw [List.map_append, List.map_cons, List.map_nil, lastPart_dotted]
    exact hlast
  simp only [inquireNamed, h.known?_eq qualifier _ hname]

omit h

mutual

theorem inquire_eq (h : AgreeOn P m m') : ∀ {type : TypeExpr}, type.WordsEnd P →
    m.inquire s type = m'.inquire s type
  | .keyword _, _ => by rw [inquire, inquire]
  | .named qualifier outer (.plain name), hwords => by
    have hname := hwords name (by simp [TypeExpr.tokens, Segment.tokens])
    rw [inquire, inquire, h.inquireNamed_eq qualifier outer (.plain name) [] hname]
  | .named qualifier outer (.generic name first rest), hwords => by
    have hname := hwords name (by simp [TypeExpr.tokens, Segment.tokens])
    rw [inquire, inquire,
      inquireArg_eq h fun word hword =>
        hwords word (by simp [TypeExpr.tokens, Segment.tokens, hword]),
      inquireArgs_eq h fun word hword =>
        hwords word (by simp [TypeExpr.tokens, Segment.tokens, hword])]
    simp only [h.inquireNamed_eq qualifier outer (.generic name first rest) _ hname]
  | .nullable inner, hwords => by
    rw [inquire, inquire,
      inquire_eq h fun word hword => hwords word (by simp [TypeExpr.tokens, hword])]
  | .array element commas, hwords => by
    rw [inquire, inquire,
      inquire_eq h fun word hword => hwords word (by simp [TypeExpr.tokens, hword])]
  | .tuple first second rest, hwords => by
    rw [inquire, inquire,
      inquireElement_eq h fun word hword => hwords word (by simp [TypeExpr.tokens, hword]),
      inquireElement_eq h fun word hword => hwords word (by simp [TypeExpr.tokens, hword]),
      inquireElements_eq h fun word hword => hwords word (by simp [TypeExpr.tokens, hword])]

theorem inquireArg_eq (h : AgreeOn P m m') : ∀ {arg : TypeArg},
    (∀ word, .name word ∈ arg.tokens → P (lastPart word)) →
      m.inquireArg s arg = m'.inquireArg s arg
  | .omitted, _ => by rw [inquireArg, inquireArg]
  | .given type, hwords => by
    rw [inquireArg, inquireArg,
      inquire_eq h fun word hword => hwords word (by rwa [TypeArg.tokens])]

theorem inquireArgs_eq (h : AgreeOn P m m') : ∀ {args : List TypeArg},
    (∀ word, .name word ∈ TypeArg.restTokens args → P (lastPart word)) →
      m.inquireArgs s args = m'.inquireArgs s args
  | [], _ => by rw [inquireArgs, inquireArgs]
  | arg :: args, hwords => by
    rw [inquireArgs, inquireArgs,
      inquireArg_eq h fun word hword => hwords word (by simp [TypeArg.restTokens, hword]),
      inquireArgs_eq h fun word hword => hwords word (by simp [TypeArg.restTokens, hword])]

theorem inquireElement_eq (h : AgreeOn P m m') : ∀ {e : TupleElement},
    (∀ word, .name word ∈ e.tokens → P (lastPart word)) →
      m.inquireElement s e = m'.inquireElement s e
  | ⟨type, none⟩, hwords | ⟨type, some _⟩, hwords => by
    rw [inquireElement, inquireElement,
      inquire_eq h fun word hword => hwords word (by simp [TupleElement.tokens, hword])]

theorem inquireElements_eq (h : AgreeOn P m m') : ∀ {es : List TupleElement},
    (∀ word, .name word ∈ TupleElement.restTokens es → P (lastPart word)) →
      m.inquireElements s es = m'.inquireElements s es
  | [], _ => by rw [inquireElements, inquireElements]
  | e :: es, hwords => by
    rw [inquireElements, inquireElements,
      inquireElement_eq h fun word hword => hwords word (by simp [TupleElement.restTokens, hword]),
      inquireElements_eq h fun word hword => hwords word (by simp [TupleElement.restTokens, hword])]

end

include h

theorem resolveWith_eq (aliased? : String → Option Symbol) {type : TypeExpr}
    (hwords : type.WordsEnd P) :
    resolveWith aliased? m s type = resolveWith aliased? m' s type := by
  rw [← run_inquire, ← run_inquire, h.inquire_eq hwords]

section Targets

variable (hglobal : Using.TargetsEnd P m.globalUsings)
include hglobal

omit h in
theorem textWordsEnd_of_aliasTarget? (hs : Using.TargetsEnd P s.usings) {name target : String}
    (htarget : m.aliasTarget? s name = some target) : TypeExpr.TextWordsEnd P target := by
  obtain ⟨u, hown | hu, rfl⟩ := mem_of_aliasTarget? htarget
  · exact hs u hown
  · exact hglobal u hu

/-- What an alias stands for in one model it stands for in the other. -/
theorem resolveAlias_of_eq (hs : Using.TargetsEnd P s.usings) {name : String} {sym : Symbol}
    (hsym : m.resolveAlias s name = some sym) : m'.resolveAlias s name = some sym := by
  refine resolveAlias.partial_correctness m
    (fun s name sym => Using.TargetsEnd P s.usings → m'.resolveAlias s name = some sym) ?_ s name
    sym hsym hs
  intro aliased? ih s name sym hfollow hs
  obtain ⟨target, htarget, hfollow⟩ := Option.bind_eq_some_iff.1 hfollow
  obtain ⟨type, htype, hfollow⟩ := Option.bind_eq_some_iff.1 hfollow
  have hwords := (textWordsEnd_of_aliasTarget? hglobal hs htarget).read
    (Except.eq_ok_of_toOption htype)
  rw [h.resolveWith_eq _ hwords] at hfollow
  rw [h.aliasTarget?_eq] at htarget
  rw [resolveAlias.eq_1, followAlias, htarget, Option.bind_eq_bind, Option.bind_some, htype,
    Option.bind_eq_bind, Option.bind_some]
  have hnone : Using.TargetsEnd P Scope.global.usings := fun u hu => absurd hu List.not_mem_nil
  exact resolveWith_mono (fun name sym hname => ih .global name sym hname hnone) type hfollow

theorem resolveAlias_eq (hs : Using.TargetsEnd P s.usings) (name : String) :
    m.resolveAlias s name = m'.resolveAlias s name :=
  Option.ext fun _ => ⟨h.resolveAlias_of_eq hglobal hs,
    h.symm.resolveAlias_of_eq (h.globalUsings ▸ hglobal) hs⟩

theorem resolve_eq (hs : Using.TargetsEnd P s.usings) {type : TypeExpr} (hwords : type.WordsEnd P) :
    m.resolve s type = m'.resolve s type := by
  rw [resolve, resolve, h.resolveWith_eq _ hwords]
  exact congrArg (resolveWith · m' s type) (funext (h.resolveAlias_eq hglobal hs))

end Targets

end AgreeOn

end Model

end TaskWrappers
