import TaskWrappers.Proofs.Resolution.Canonical

/-!
# Induction on what resolves

There are six ways in which a type comes to stand for a symbol: it is a keyword, a name of a known
type with arguments that resolve, an alias that stands alone, or it has a mark, is an array or a
tuple of types that resolve. What holds of a type and its symbol in each of these, if it holds of
the parts, holds of everything that resolves (`Model.Keeps.of_resolve`), however many aliases the
resolution goes through.
-/

namespace TaskWrappers

section Forall₂

variable {α β : Type} {R : α → β → Prop} {as : List α} {bs : List β}

theorem exists_of_mem_left (h : List.Forall₂ R as bs) {a : α} (ha : a ∈ as) : ∃ b ∈ bs, R a b := by
  induction h with
  | nil => simp at ha
  | @cons a' b as bs hab _ ih =>
    rcases List.mem_cons.1 ha with rfl | ha
    · exact ⟨b, List.mem_cons_self, hab⟩
    · obtain ⟨b', hb', hR⟩ := ih ha
      exact ⟨b', List.mem_cons_of_mem b hb', hR⟩

theorem exists_of_mem_right (h : List.Forall₂ R as bs) {b : β} (hb : b ∈ bs) : ∃ a ∈ as, R a b :=
  exists_of_mem_left (R := flip R) h.flip hb

end Forall₂

namespace Model

/-- Type arguments resolve where each is given and resolves. -/
theorem resolveArgs_iff {m : Model} {s : Scope} {aliased? : String → Option Symbol}
    {args : List TypeArg} {syms : List Symbol} : resolveArgs aliased? m s args = some syms ↔
      List.Forall₂ (fun arg sym => ∃ type, arg = .given type ∧
        resolveWith aliased? m s type = some sym) args syms := by
  induction args generalizing syms with
  | nil => simp [resolveArgs, eq_comm]
  | cons arg args ih =>
    rw [resolveArgs, Option.bind_eq_bind, Option.bind_eq_some_iff]
    constructor
    · rintro ⟨sym, harg, h⟩
      obtain ⟨syms, hargs, h⟩ := Option.bind_eq_some_iff.1 h
      cases h
      refine .cons ?_ (ih.1 hargs)
      rcases arg with _ | type
      · rw [resolveArg] at harg
        cases harg
      · exact ⟨type, rfl, by rwa [resolveArg] at harg⟩
    · rintro (_ | ⟨⟨type, rfl, htype⟩, hargs⟩)
      refine ⟨_, by rw [resolveArg, htype], ?_⟩
      rw [ih.2 hargs]
      rfl

/-- A name stands for a known type or, if there is none of it and it is a name alone, for an
alias. -/
theorem named_cases {m : Model} {s : Scope} {aliased? : String → Option Symbol}
    {qualifier : Option String} {outer : List Segment} {last : Segment} {syms : List Symbol}
    {sym : Symbol} (hsym : named aliased? m s qualifier outer last syms = some sym) :
    (∀ x ∈ outer, x.isGeneric = false) ∧
      ((∃ t, m.known? s qualifier (Scope.dotted ((outer ++ [last]).map Segment.name))
          syms.length = some t ∧ sym = .ofKnown t syms) ∨
        ∃ name, qualifier = none ∧ outer = [] ∧ last = .plain name ∧
          m.known? s none name syms.length = none ∧ aliased? name = some sym) := by
  unfold named at hsym
  split at hsym
  · cases hsym
  · rename_i houter
    refine ⟨by simpa using houter, ?_⟩
    split at hsym
    · rename_i t ht
      exact .inl ⟨t, ht, (Option.some.inj hsym).symm⟩
    · rename_i hnone
      split at hsym
      · rename_i halone
        simp only [Bool.and_eq_true, Option.isNone_iff_eq_none, List.isEmpty_iff,
          Bool.not_eq_true'] at halone
        obtain ⟨⟨rfl, rfl⟩, hlast⟩ := halone
        rcases last with name | ⟨name, first, rest⟩
        · refine .inr ⟨name, rfl, rfl, rfl, ?_, hsym⟩
          simpa [Scope.dotted, Segment.name] using hnone
        · cases hlast
      · cases hsym

/-- A relation of references and symbols that every way of resolving keeps. -/
structure Keeps (m : Model) (R : Scope → TypeExpr → Symbol → Prop) : Prop where
  keyword {s : Scope} {word : String} {sym : Symbol} (h : Symbol.ofKeyword? word = some sym) :
    R s (.keyword word) sym
  known {s : Scope} {qualifier : Option String} {outer : List Segment} {last : Segment}
    {t : KnownType} {syms : List Symbol}
    (hknown : m.known? s qualifier (Scope.dotted ((outer ++ [last]).map Segment.name))
      last.args.length = some t)
    (hargs : List.Forall₂ (fun arg sym => ∃ type, arg = .given type ∧
      m.resolve s type = some sym ∧ R s type sym) last.args syms) :
    R s (.named qualifier outer last) (.ofKnown t syms)
  aliased {s : Scope} {name target : String} {type : TypeExpr} {sym : Symbol}
    (hnone : m.known? s none name 0 = none) (htarget : m.aliasTarget? s name = some target)
    (htype : TypeExpr.read target = .ok type) (h : R .global type sym) :
    R s (.named none [] (.plain name)) sym
  nullable {s : Scope} {inner : TypeExpr} {sym : Symbol} (h : R s inner sym) :
    R s (.nullable inner) sym.toNullable
  array {s : Scope} {element : TypeExpr} {sym : Symbol} (commas : Nat) (h : R s element sym) :
    R s (.array element commas) (sym.arrayOf commas)
  tuple {s : Scope} (first second : TupleElement) (rest : List TupleElement)
    (shown : List String) : R s (.tuple first second rest) (.tupleOf shown)

namespace Keeps

variable {m : Model} {R : Scope → TypeExpr → Symbol → Prop}

section With

variable {s : Scope} {aliased? : String → Option Symbol}

/-- That what some aliases stand for is part of what they do stand for, and is kept. -/
structure Answers (m : Model) (R : Scope → TypeExpr → Symbol → Prop) (s : Scope)
    (aliased? : String → Option Symbol) : Prop where
  kept : ∀ name sym, aliased? name = some sym → m.known? s none name 0 = none →
    R s (.named none [] (.plain name)) sym
  part : ∀ name sym, aliased? name = some sym → m.resolveAlias s name = some sym

theorem of_named (hR : m.Keeps R) (haliased : Answers m R s aliased?) {qualifier : Option String}
    {outer : List Segment} {last : Segment} {syms : List Symbol} {sym : Symbol}
    (hargs : List.Forall₂ (fun arg sym => ∃ type, arg = .given type ∧
      m.resolve s type = some sym ∧ R s type sym) last.args syms)
    (hsym : named aliased? m s qualifier outer last syms = some sym) :
    R s (.named qualifier outer last) sym := by
  rcases (named_cases hsym).2 with ⟨t, ht, rfl⟩ | ⟨name, rfl, rfl, rfl, hnone, halias⟩
  · rw [← hargs.length_eq] at ht
    exact hR.known ht hargs
  · cases hargs
    exact haliased.kept name sym halias hnone

mutual

theorem of_resolveWith (hR : m.Keeps R) (haliased : Answers m R s aliased?) :
    ∀ (type : TypeExpr) {sym : Symbol},
      resolveWith aliased? m s type = some sym → R s type sym
  | .keyword word, sym, h => by
    rw [resolveWith] at h
    exact hR.keyword h
  | .named qualifier outer (.plain name), sym, h => by
    rw [resolveWith] at h
    exact of_named hR haliased .nil h
  | .named qualifier outer (.generic name first rest), sym, h => by
    rw [resolveWith] at h
    obtain ⟨x, hx, h⟩ := Option.bind_eq_some_iff.1 h
    obtain ⟨xs, hxs, h⟩ := Option.bind_eq_some_iff.1 h
    exact of_named hR haliased
      (.cons (of_resolveArg hR haliased first hx) (of_resolveArgs hR haliased rest hxs)) h
  | .nullable inner, sym, h => by
    rw [resolveWith] at h
    obtain ⟨x, hx, rfl⟩ := Option.map_eq_some_iff.1 h
    exact hR.nullable (of_resolveWith hR haliased inner hx)
  | .array element commas, sym, h => by
    rw [resolveWith] at h
    obtain ⟨x, hx, rfl⟩ := Option.map_eq_some_iff.1 h
    exact hR.array commas (of_resolveWith hR haliased element hx)
  | .tuple first second rest, sym, h => by
    rw [resolveWith] at h
    obtain ⟨x, -, h⟩ := Option.bind_eq_some_iff.1 h
    obtain ⟨y, -, h⟩ := Option.bind_eq_some_iff.1 h
    obtain ⟨zs, -, h⟩ := Option.bind_eq_some_iff.1 h
    cases h
    exact hR.tuple first second rest _

theorem of_resolveArg (hR : m.Keeps R) (haliased : Answers m R s aliased?) :
    ∀ (arg : TypeArg) {sym : Symbol}, resolveArg aliased? m s arg = some sym →
      ∃ type, arg = .given type ∧ m.resolve s type = some sym ∧ R s type sym
  | .omitted, sym, h => by
    rw [resolveArg] at h
    cases h
  | .given type, sym, h => by
    rw [resolveArg] at h
    exact ⟨type, rfl, resolveWith_mono haliased.part type h, of_resolveWith hR haliased type h⟩

theorem of_resolveArgs (hR : m.Keeps R) (haliased : Answers m R s aliased?) :
    ∀ (args : List TypeArg) {syms : List Symbol}, resolveArgs aliased? m s args = some syms →
      List.Forall₂ (fun arg sym => ∃ type, arg = .given type ∧ m.resolve s type = some sym ∧
        R s type sym) args syms
  | [], syms, h => by
    rw [resolveArgs] at h
    cases h
    exact .nil
  | arg :: args, syms, h => by
    rw [resolveArgs] at h
    obtain ⟨x, hx, h⟩ := Option.bind_eq_some_iff.1 h
    obtain ⟨xs, hxs, h⟩ := Option.bind_eq_some_iff.1 h
    cases h
    exact .cons (of_resolveArg hR haliased arg hx) (of_resolveArgs hR haliased args hxs)

end

end With

variable (hR : m.Keeps R)
include hR

theorem of_resolveAlias {s : Scope} {name : String} {sym : Symbol}
    (h : m.resolveAlias s name = some sym) (hnone : m.known? s none name 0 = none) :
    R s (.named none [] (.plain name)) sym := by
  -- Arguments must resolve in the model itself, so each stage of the fixpoint is kept below it.
  have hstep := resolveAlias.partial_correctness m (fun s name sym =>
    m.resolveAlias s name = some sym ∧
      (m.known? s none name 0 = none → R s (.named none [] (.plain name)) sym)) ?_ s name sym h
  · exact hstep.2 hnone
  intro aliased? ih s name sym h
  refine ⟨?_, fun hnone => ?_⟩
  · rw [resolveAlias.eq_1]
    exact followAlias_mono (fun s name sym h => (ih s name sym h).1) h
  · obtain ⟨target, htarget, h⟩ := Option.bind_eq_some_iff.1 h
    obtain ⟨type, htype, h⟩ := Option.bind_eq_some_iff.1 h
    refine hR.aliased hnone htarget (Except.eq_ok_of_toOption htype) ?_
    exact of_resolveWith hR ⟨fun name sym h => (ih .global name sym h).2,
      fun name sym h => (ih .global name sym h).1⟩ type h

/-- What every way of resolving keeps holds of all types that resolve. -/
theorem of_resolve {s : Scope} {type : TypeExpr} {sym : Symbol} (h : m.resolve s type = some sym) :
    R s type sym :=
  of_resolveWith hR ⟨fun _ _ => hR.of_resolveAlias, fun _ _ h => h⟩ type h

end Keeps

end Model

end TaskWrappers
