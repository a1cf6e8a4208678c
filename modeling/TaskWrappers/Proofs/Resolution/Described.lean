import TaskWrappers.Proofs.ConstantExpr.Words
import TaskWrappers.Proofs.Outcome.Ledger

/-!
# What a candidate's description depends on

A candidate is described by the value of an argument and by the types in its base. Models that agree
on the types and constants whose names end in words of these, of the values of constants and of the
targets of directives, describe it alike (`Model.AgreeOnAll.describe_eq`): references may be
followed from constant to constant and from alias to alias, but never out of these words. So a pass
depends on no other declaration than those its files have words for
(`Outcome.run_eq_of_agreeOnAll`).
-/

namespace TaskWrappers

open Text

namespace Candidate

/-- The type arguments of a task's base. -/
def typeArguments : Candidate → List (Option TypeExpr)
  | task _ _ _ args => args
  | function .. => []

/-- Whether all words that a candidate's description can depend on by itself end in a name with a
property. -/
structure WordsEnd (P : String → Prop) (c : Candidate) : Prop where
  arguments : ∀ a ∈ c.attributes, ∀ x ∈ a.arguments, ConstantExpr.TextWordsEnd P x.expression
  types : ∀ t, some t ∈ c.typeArguments → t.WordsEnd P
  targets : Using.TargetsEnd P c.scope.usings

end Candidate

theorem Attribute.exists_of_nameArgument? {a : Attribute} {expression : String}
    (h : a.nameArgument? = some expression) : ∃ x ∈ a.arguments, x.expression = expression := by
  obtain ⟨x, hx, rfl⟩ := Option.map_eq_some_iff.1 h
  refine ⟨x, ?_, rfl⟩
  cases hfirst : a.firstPositional with
  | some y =>
    rw [hfirst] at hx
    cases hx
    exact List.mem_of_find?_eq_some hfirst
  | none =>
    rw [hfirst] at hx
    exact List.mem_of_find?_eq_some hx

theorem Candidate.exists_of_nameArgument? {c : Candidate} {expression : String} {span : Span}
    (h : c.nameArgument? = some (expression, span)) :
    ∃ a ∈ c.attributes, ∃ x ∈ a.arguments, x.expression = expression := by
  obtain ⟨a, ha, hargument⟩ := List.exists_of_findSome?_eq_some h
  obtain ⟨e, he, heq⟩ := Option.map_eq_some_iff.1 hargument
  cases heq
  exact ⟨a, (List.mem_filter.1 ha).1, Attribute.exists_of_nameArgument? he⟩

namespace Model

/-- Models that agree on the constants with certain names as well. -/
structure AgreeOnAll (P : String → Prop) (m m' : Model) : Prop extends AgreeOn P m m' where
  constant? : ∀ fullName, P (lastPart fullName) → m.constant? fullName = m'.constant? fullName

/-- Whether all words in the values of the constants end in a name with a property. -/
def ValuesEnd (P : String → Prop) (m : Model) : Prop :=
  ∀ c ∈ m.constants, ConstantExpr.TextWordsEnd P c.value

namespace AgreeOnAll

variable {P : String → Prop} {m m' : Model}

theorem valueWithin_eq (h : AgreeOnAll P m m') (hvalues : m.ValuesEnd P) : ∀ (n : Nat) {s : Scope}
    {expression : String}, ConstantExpr.TextWordsEnd P expression →
      ConstantExpr.valueWithin m n s expression = ConstantExpr.valueWithin m' n s expression
  | 0, _, _, _ => rfl
  | n + 1, s, expression, hwords => by
    refine ConstantExpr.value?_congr hwords fun path hpath => ?_
    have hfound : (m.candidates s path).findSome? m.constant?
        = (m'.candidates s path).findSome? m'.constant? := by
      rw [h.candidates_eq]
      refine findSome?_congr fun full hfull => h.constant? full ?_
      rwa [lastPart_of_mem_candidates hfull]
    rw [hfound]
    cases hc : (m'.candidates s path).findSome? m'.constant? with
    | none => rfl
    | some c =>
      rw [← hfound] at hc
      obtain ⟨full, -, hfull⟩ := List.exists_of_findSome?_eq_some hc
      exact valueWithin_eq h hvalues n (hvalues c (List.mem_of_find?_eq_some hfull))

theorem constantValue_eq (h : AgreeOnAll P m m') (hvalues : m.ValuesEnd P) {s : Scope}
    {expression : String} (hwords : ConstantExpr.TextWordsEnd P expression) :
    m.constantValue s expression = m'.constantValue s expression :=
  h.valueWithin_eq hvalues _ hwords

theorem taskName_eq (h : AgreeOnAll P m m') (hvalues : m.ValuesEnd P) {c : Candidate}
    (hc : c.WordsEnd P) : c.taskName m = c.taskName m' := by
  unfold Candidate.taskName
  cases hname : c.nameArgument? with
  | none => rfl
  | some argument =>
    obtain ⟨expression, span⟩ := argument
    obtain ⟨a, ha, x, hx, rfl⟩ := Candidate.exists_of_nameArgument? hname
    simp only [TaskName.ofArgument, h.constantValue_eq hvalues (hc.arguments a ha x hx)]

theorem ofArguments_eq (h : AgreeOnAll P m m') (hglobal : Using.TargetsEnd P m.globalUsings)
    {s : Scope} (hs : Using.TargetsEnd P s.usings) {args : List (Option TypeExpr)}
    (hargs : ∀ t, some t ∈ args → t.WordsEnd P) :
    Payload.ofArguments m s args = Payload.ofArguments m' s args := by
  have hsymbol (k : Nat) : (args[k]?.bind id).bind (m.resolve s)
      = (args[k]?.bind id).bind (m'.resolve s) := by
    cases ht : args[k]?.bind id with
    | none => rfl
    | some t =>
      obtain ⟨t?, hk, rfl⟩ := Option.bind_eq_some_iff.1 ht
      exact h.resolve_eq hglobal hs (hargs t (List.mem_of_getElem? hk))
  simp only [Payload.ofArguments, hsymbol]

/-- A candidate is described alike by models that agree on all names that its words can lead to. -/
theorem describe_eq (h : AgreeOnAll P m m') (hvalues : m.ValuesEnd P)
    (hglobal : Using.TargetsEnd P m.globalUsings) {c : Candidate} (hc : c.WordsEnd P) :
    c.describe m = c.describe m' := by
  have hname := h.taskName_eq hvalues hc
  rw [← Candidate.resolve_eq_taskName, ← Candidate.resolve_eq_taskName] at hname
  cases c with
  | task kind file decl args =>
    have hpayload := h.ofArguments_eq hglobal hc.targets hc.types
    change TaskName.resolve m (.inside file decl) .durableTask decl.attributes decl.name
      = TaskName.resolve m' (.inside file decl) .durableTask decl.attributes decl.name at hname
    change Payload.ofArguments m (.inside file decl) args
      = Payload.ofArguments m' (.inside file decl) args at hpayload
    simp only [Candidate.describe, hname, hpayload]
  | function file decl method marker trigger =>
    change TaskName.resolve m (.inside file decl) .function method.attributes method.name
      = TaskName.resolve m' (.inside file decl) .function method.attributes method.name at hname
    simp only [Candidate.describe, hname]

end AgreeOnAll

end Model

namespace SourceFile

/-- The texts of types that a pass reads in a file: the targets of its directives and the bases of
its types. -/
def typeTexts (f : SourceFile) : List String :=
  f.usings.map (·.target) ++ f.types.flatMap (·.bases)

/-- The attributes of a file's types and of their methods. -/
def attributes (f : SourceFile) : List Attribute :=
  f.types.flatMap fun d => d.attributes ++ d.methods.flatMap (·.attributes)

/-- The constant expressions of a file: the values of its constants and the arguments of its
attributes. -/
def expressions (f : SourceFile) : List String :=
  (f.types.flatMap (·.constants)).map (·.value)
    ++ (f.attributes.flatMap (·.arguments)).map (·.expression)

/-- Whether all words that a file refers by end in a name with a property. -/
structure WordsEnd (P : String → Prop) (f : SourceFile) : Prop where
  types : ∀ text ∈ f.typeTexts, TypeExpr.TextWordsEnd P text
  expressions : ∀ e ∈ f.expressions, ConstantExpr.TextWordsEnd P e

namespace WordsEnd

variable {P : String → Prop} {f : SourceFile} (h : f.WordsEnd P)

include h

theorem targetsEnd : Using.TargetsEnd P f.usings :=
  fun _ hu => h.types _ (List.mem_append_left _ (List.mem_map_of_mem hu))

theorem argumentsEnd {a : Attribute} (ha : a ∈ f.attributes) :
    ∀ x ∈ a.arguments, ConstantExpr.TextWordsEnd P x.expression :=
  fun _ hx => h.expressions _
    (List.mem_append_right _ (List.mem_map_of_mem (List.mem_flatMap.2 ⟨a, ha, hx⟩)))

end WordsEnd

end SourceFile

theorem TypeArg.subset_restTokens {arg : TypeArg} : ∀ {args : List TypeArg}, arg ∈ args →
    arg.tokens ⊆ TypeArg.restTokens args
  | a :: args, h => by
    rw [TypeArg.restTokens]
    refine List.subset_cons_of_subset _ ?_
    rcases List.mem_cons.1 h with rfl | h
    · exact List.subset_append_left _ _
    · exact List.Subset.trans (subset_restTokens h) (List.subset_append_right _ _)

/-- What is written in a base is all that its type arguments have of words. -/
theorem wordsEnd_of_taskBase? {P : String → Prop} {base : String} {kind : TaskKind}
    {args : List (Option TypeExpr)} (h : taskBase? base = some (kind, args))
    (hbase : TypeExpr.TextWordsEnd P base) : ∀ t, some t ∈ args → t.WordsEnd P := by
  unfold taskBase? at h
  split at h
  · rename_i qualifier outer name first rest hread
    obtain ⟨k, -, heq⟩ := Option.map_eq_some_iff.1 h
    cases heq
    intro t ht word hword
    obtain ⟨arg, harg, hgiven⟩ := List.mem_map.1 ht
    have htokens : t.tokens ⊆ arg.tokens := by
      cases arg with
      | omitted => cases hgiven
      | given type =>
        cases hgiven
        rw [TypeArg.tokens]
        exact List.Subset.refl _
    have hargs : arg.tokens ⊆ first.tokens ++ TypeArg.restTokens rest := by
      rcases List.mem_cons.1 harg with rfl | harg
      · exact List.subset_append_left _ _
      · exact List.Subset.trans (TypeArg.subset_restTokens harg) (List.subset_append_right _ _)
    have hmem := hargs (htokens hword)
    refine hbase.read hread word ?_
    simp only [TypeExpr.tokens, Segment.tokens, List.mem_append, List.mem_cons] at hmem ⊢
    exact .inr (.inr (.inr (.inl hmem)))
  · cases h

section Files

variable {P : String → Prop} {files : List SourceFile} (hfiles : ∀ f ∈ files, f.WordsEnd P)
  (implicitSpaces : List String)

include hfiles

theorem Model.globalTargetsEnd_build :
    Using.TargetsEnd P (build files implicitSpaces).globalUsings := by
  intro u hu
  obtain ⟨f, hf, hu⟩ := List.mem_flatMap.1 hu
  exact (hfiles f hf).targetsEnd u (List.mem_filter.1 hu).1

theorem Model.valuesEnd_build : (build files implicitSpaces).ValuesEnd P := by
  intro c hc
  obtain ⟨f, hf, hc⟩ := List.mem_flatMap.1 (List.mem_reverse.1 hc)
  obtain ⟨d, hd, hc⟩ := List.mem_flatMap.1 hc
  obtain ⟨x, hx, rfl⟩ := List.mem_map.1 hc
  exact (hfiles f hf).expressions _
    (List.mem_append_left _ (List.mem_map_of_mem (List.mem_flatMap.2 ⟨d, hd, hx⟩)))

omit implicitSpaces

theorem Candidate.wordsEnd_of_mem_scan {c : Candidate} (hc : c ∈ scan files) : c.WordsEnd P := by
  obtain ⟨f, hf, hc⟩ := List.mem_flatMap.1 hc
  obtain ⟨d, hd, hc⟩ := List.mem_flatMap.1 hc
  have hwords := hfiles f hf
  rcases List.mem_append.1 hc with hc | hc
  · have htask := Option.mem_toList.1 hc
    unfold TypeDecl.taskCandidate? at htask
    split at htask
    · cases htask
    · obtain ⟨⟨kind, args⟩, hbase, rfl⟩ := Option.map_eq_some_iff.1 htask
      obtain ⟨base, hmem, hbase⟩ := List.exists_of_findSome?_eq_some hbase
      have htext : base ∈ f.typeTexts :=
        List.mem_append_right _ (List.mem_flatMap.2 ⟨d, hd, hmem⟩)
      exact ⟨fun a ha => hwords.argumentsEnd
          (List.mem_flatMap.2 ⟨d, hd, List.mem_append_left _ ha⟩),
        wordsEnd_of_taskBase? hbase (hwords.types base htext), hwords.targetsEnd⟩
  · obtain ⟨method, hmethod, hc⟩ := List.mem_filterMap.1 hc
    obtain ⟨marker, -, hc⟩ := Option.bind_eq_some_iff.1 hc
    obtain ⟨trigger, -, hc⟩ := Option.bind_eq_some_iff.1 hc
    cases hc
    refine ⟨fun a ha => hwords.argumentsEnd ?_, nofun, hwords.targetsEnd⟩
    exact List.mem_flatMap.2 ⟨d, hd, List.mem_append_right _
      (List.mem_flatMap.2 ⟨method, hmethod, ha⟩)⟩

/-- A pass has the same outcome in a model that agrees on all names its words can lead to. -/
theorem Outcome.run_eq_of_agreeOnAll {implicitSpaces : List String} {m : Model}
    (h : (Model.build files implicitSpaces).AgreeOnAll P m) (modules : List String) :
    run (.build files implicitSpaces) modules (Candidate.scan files)
      = run m modules (Candidate.scan files) := by
  have hdescribed : (Candidate.scan files).map (·.describe (.build files implicitSpaces))
      = (Candidate.scan files).map (·.describe m) := by
    refine List.map_congr_left fun c hc => ?_
    exact h.describe_eq (Model.valuesEnd_build hfiles implicitSpaces)
      (Model.globalTargetsEnd_build hfiles implicitSpaces)
      (Candidate.wordsEnd_of_mem_scan hfiles hc)
  simp only [run, hdescribed]

end Files

end TaskWrappers
