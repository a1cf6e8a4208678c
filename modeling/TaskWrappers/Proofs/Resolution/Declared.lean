import TaskWrappers.Proofs.Resolution.Induction
import TaskWrappers.Proofs.Resolution.Nearest
import TaskWrappers.Proofs.TypeExpr.Global

/-!
# Declared types and references

What a reference resolves to is declared: the files of the pass or the framework have a type of the
written number of arguments under a full name that the reference may stand for (`Model.MayMean`),
and all arguments resolve by themselves; only a name alone may be an alias instead. The other way
round every declared type is found in every scope by its full name behind `global::`, as the last
declaration of that name and arity (`declaration?`), but only if its name is one to the type syntax
(`Model.resolve_declared`). A declared name may have characters that make no name there, such as
combining marks, and then no text refers to it.
-/

namespace TaskWrappers

open Text

/-- What a pass knows under a full name with a number of type parameters: the last declaration in
the files, or else the framework's type. -/
def declaration? (files : List SourceFile) (name : String) (arity : Nat) : Option KnownType :=
  (((files.flatMap (·.types)).findRev? fun d => d.fullName == name && d.arity == arity).map
      KnownType.ofDecl).or
    ((Catalog.frameworkTypes.find? fun t => t.fullName == name && t.arity == arity).map
      .ofFramework)

namespace Model

variable {m : Model} {s : Scope}

theorem type?_build (files : List SourceFile) (implicitSpaces : List String) (name : String)
    (arity : Nat) :
    (build files implicitSpaces).type? name arity = declaration? files name arity := by
  have hdecls : (files.flatMap fun f => f.types.map KnownType.ofDecl)
      = (files.flatMap (·.types)).map .ofDecl := List.map_flatMap.symm
  rw [type?, build, hdecls, ← List.map_reverse, List.find?_append, List.find?_map, List.find?_map,
    declaration?, List.findRev?_eq_find?_reverse]
  rfl

/-- The full names that a dotted name may stand for in a scope: what is called so inside any of the
names around the scope, what an import in force has of that name, and what an alias puts in the
place of its first part; behind a qualifier only one. -/
inductive MayMean (m : Model) (s : Scope) : Option String → String → String → Prop where
  | around {name : String} {k : Nat} (hk : k ≤ s.around.length) :
      MayMean m s none name (s.nameAt k name)
  | imported {name : String} {u : Using} (hu : u ∈ m.usingsIn s) (hkind : u.kind = .space)
      (hname : '.' ∉ name.toList) : MayMean m s none name (u.target ++ "." ++ name)
  | static {name : String} {u : Using} (hu : u ∈ m.usingsIn s) (hkind : u.kind = .static) :
      MayMean m s none name (u.target ++ "." ++ name)
  | implicit {name space : String} (hspace : space ∈ m.implicitSpaces)
      (hname : '.' ∉ name.toList) : MayMean m s none name (space ++ "." ++ name)
  | aliased {first rest : String} {u : Using} (hu : u ∈ m.usingsIn s)
      (halias : u.isAlias first = true) (hfirst : '.' ∉ first.toList) :
      MayMean m s none (first ++ "." ++ rest) (u.target ++ "." ++ rest)
  | global {name : String} : MayMean m s (some TypeExpr.globalQualifier) name name
  | qualified {qualifier target name : String} (hq : qualifier ≠ TypeExpr.globalQualifier)
      (htarget : Using.aliasTarget? s.usings qualifier = some target) :
      MayMean m s (some qualifier) name (target ++ "." ++ name)

theorem imported?_eq_some_iff {name n : String} {isSimple : Bool} {u : Using} :
    imported? name isSimple u = some n ↔
      (u.kind = .space ∧ isSimple = true ∨ u.kind = .static) ∧ n = u.target ++ "." ++ name := by
  unfold imported?
  cases hkind : u.kind with
  | space => cases isSimple <;> simp [eq_comm]
  | static => simp [eq_comm]
  | aliased a => simp

theorem exists_of_dot_mem {name : String} (h : '.' ∈ name.toList) :
    ∃ first rest, '.' ∉ first.toList ∧ name = first ++ "." ++ rest := by
  obtain ⟨first, rest, hname, hfirst⟩ := List.eq_append_cons_of_mem h
  refine ⟨.ofList first, .ofList rest, by simpa using hfirst, ?_⟩
  rw [← String.toList_inj, hname]
  simp [String.toList_append]

/-- The candidates of the lookup are the names that may be meant. -/
theorem mem_candidates_iff {name n : String} :
    n ∈ m.candidates s name ↔ m.MayMean s none name n := by
  constructor
  · intro h
    by_cases hdot : '.' ∈ name.toList
    · obtain ⟨first, rest, hfirst, rfl⟩ := exists_of_dot_mem hdot
      rw [candidates_dotted hfirst, heads, List.map_append, List.map_append,
        ← Scope.near_dotted] at h
      simp only [List.mem_append, Scope.mem_near_iff, List.mem_map, List.mem_filterMap,
        List.mem_filter, imported?_eq_some_iff] at h
      rcases h with (⟨k, hk, rfl⟩ | ⟨_, ⟨u, hu, (⟨-, hsimple⟩ | hkind), rfl⟩, rfl⟩)
        | ⟨_, ⟨u, ⟨hu, halias⟩, rfl⟩, rfl⟩
      · exact .around hk
      · cases hsimple
      · have hstatic : m.MayMean s none (first ++ "." ++ rest)
            (u.target ++ "." ++ (first ++ "." ++ rest)) := .static hu hkind
        simpa only [String.append_assoc] using hstatic
      · exact .aliased hu halias hfirst
    · rw [candidates_simple hdot, imports] at h
      simp only [List.mem_append, Scope.mem_near_iff, List.mem_map, List.mem_filterMap,
        imported?_eq_some_iff] at h
      rcases h with ⟨k, hk, rfl⟩ | ⟨u, hu, (⟨hkind, -⟩ | hkind), rfl⟩ | ⟨space, hspace, rfl⟩
      · exact .around hk
      · exact .imported hu hkind hdot
      · exact .static hu hkind
      · exact .implicit hspace hdot
  · intro h
    generalize hq : (none : Option String) = q at h
    cases h with
    | around hk =>
      exact (near_prefix_candidates m s name).subset (Scope.mem_near_iff.2 ⟨_, hk, rfl⟩)
    | imported hu hkind hname =>
      rw [candidates_simple hname, imports]
      simp only [List.mem_append, List.mem_filterMap, imported?_eq_some_iff]
      exact .inr (.inl ⟨_, hu, .inl ⟨hkind, trivial⟩, rfl⟩)
    | static hu hkind =>
      simp only [candidates, List.mem_append, List.mem_filterMap, imported?_eq_some_iff]
      exact .inl (.inr ⟨_, hu, .inr hkind, rfl⟩)
    | implicit hspace hname =>
      rw [candidates_simple hname, imports]
      simp only [List.mem_append, List.mem_map]
      exact .inr (.inr ⟨_, hspace, rfl⟩)
    | aliased hu halias hfirst =>
      rw [candidates_dotted hfirst, heads]
      simp only [List.map_append, List.mem_append, List.mem_map, List.mem_filter]
      exact .inr ⟨_, ⟨_, ⟨hu, halias⟩, rfl⟩, rfl⟩
    | global => cases hq
    | qualified => cases hq

section Known

variable {qualifier : Option String} {name : String} {k : Nat}

/-- What a name is found as is declared under a full name that the name may stand for. -/
theorem known?_eq_some {t : KnownType} (h : m.known? s qualifier name k = some t) :
    ∃ n, m.MayMean s qualifier name n ∧ m.type? n k = some t := by
  unfold known? at h
  split at h
  · obtain ⟨n, hn, ht⟩ := List.exists_of_findSome?_eq_some h
    exact ⟨n, mem_candidates_iff.1 hn, ht⟩
  · split at h
    · rename_i hq
      exact ⟨name, hq ▸ .global, h⟩
    · rename_i hq
      obtain ⟨target, htarget, ht⟩ := Option.bind_eq_some_iff.1 h
      exact ⟨_, .qualified hq htarget, ht⟩

theorem known?_eq_none {n : String} (h : m.known? s none name k = none)
    (hn : m.MayMean s none name n) : m.type? n k = none :=
  List.findSome?_eq_none_iff.1 h n (mem_candidates_iff.2 hn)

end Known

section Named

variable {qualifier : Option String} {outer : List Segment} {last : Segment}

/-- A name that resolves means a declared type with its resolved arguments, or else is an alias that
stands alone. -/
theorem resolve_named_some {sym : Symbol}
    (hsym : m.resolve s (.named qualifier outer last) = some sym) :
    (∃ n t syms, m.MayMean s qualifier (Scope.dotted ((outer ++ [last]).map Segment.name)) n ∧
      m.type? n last.args.length = some t ∧ (∀ x ∈ outer, x.isGeneric = false) ∧
      List.Forall₂ (fun arg sym => ∃ type, arg = .given type ∧ m.resolve s type = some sym)
        last.args syms ∧ sym = .ofKnown t syms) ∨
    (qualifier = none ∧ outer = [] ∧ last.args = [] ∧
      (∀ n, m.MayMean s none last.name n → m.type? n 0 = none) ∧
      m.resolveAlias s last.name = some sym) := by
  rw [resolve, resolveWith_named] at hsym
  obtain ⟨syms, hsyms, hnamed⟩ := Option.bind_eq_some_iff.1 hsym
  have hlength := length_resolveArgs hsyms
  obtain ⟨hplain, ⟨t, ht, rfl⟩ | ⟨name, rfl, rfl, rfl, hnone, halias⟩⟩ := named_cases hnamed
  · rw [hlength] at ht
    obtain ⟨n, hn, hknown⟩ := known?_eq_some ht
    exact .inl ⟨n, t, syms, hn, hknown, hplain, resolveArgs_iff.1 hsyms, rfl⟩
  · rw [hlength] at hnone
    exact .inr ⟨rfl, rfl, rfl, fun n => known?_eq_none hnone, halias⟩

/-- An argument that is omitted or resolves to nothing leaves a name without a meaning, and so do
arguments on any part of it but the last. -/
theorem resolve_named_none (h : .omitted ∈ last.args ∨
      (∃ type, .given type ∈ last.args ∧ m.resolve s type = none) ∨
      ∃ x ∈ outer, x.isGeneric = true) :
    m.resolve s (.named qualifier outer last) = none := by
  rw [Option.eq_none_iff_forall_ne_some]
  intro sym hsym
  rcases resolve_named_some hsym with ⟨_, _, syms, -, -, hplain, hargs, -⟩ | ⟨-, rfl, hargs, -, -⟩
  · rcases h with homitted | ⟨type, htype, hnone⟩ | ⟨x, hx, hgeneric⟩
    · obtain ⟨sym, -, type, hgiven, -⟩ := exists_of_mem_left hargs homitted
      cases hgiven
    · obtain ⟨sym, -, type', hgiven, hsome⟩ := exists_of_mem_left hargs htype
      cases hgiven
      rw [hnone] at hsome
      cases hsome
    · rw [hplain x hx] at hgeneric
      cases hgeneric
  · simp [hargs] at h

end Named

section Written

variable {name : String} {texts : List String} {syms : List Symbol}

theorem exists_types
    (h : List.Forall₂ (fun text sym => m.resolveText s text = some sym) texts syms) :
    ∃ types, List.Forall₂ (fun text type => TypeExpr.read text = .ok type) texts types ∧
      List.Forall₂ (fun type sym => m.resolve s type = some sym) types syms := by
  induction h with
  | nil => exact ⟨[], .nil, .nil⟩
  | cons h _ ih =>
    obtain ⟨type, hread, htype⟩ := Option.bind_eq_some_iff.1 h
    obtain ⟨types, htexts, htypes⟩ := ih
    exact ⟨type :: types, .cons (Except.eq_ok_of_toOption hread) htexts, .cons htype htypes⟩

/-- A declared type is found by its full name behind `global::` in every scope. -/
theorem resolveText_globalText {t : KnownType} (hknown : m.type? name texts.length = some t)
    (hnullable : name ≠ "System.Nullable") (hkeyword : Catalog.ofFullName? name = none)
    (htexts : List.Forall₂ (fun text sym => m.resolveText s text = some sym) texts syms)
    (hnames : ∀ part ∈ dotParts name, isName part = true) :
    m.resolveText s (TypeExpr.globalText name texts)
      = some ⟨name ++ Symbol.argumentDisplay syms, t.space, t.isReference, false⟩ := by
  obtain ⟨types, hread, htypes⟩ := exists_types htexts
  have hargs : resolveArgs (m.resolveAlias s) m s (types.map .given) = some syms := by
    rw [resolveArgs_iff, List.forall₂_map_left_iff]
    exact htypes.imp fun type sym h => ⟨type, rfl, h⟩
  have hcollapses : ¬ Symbol.Collapses t syms := by
    have hname := (type?_some hknown).2.1
    rcases syms with _ | ⟨sym, syms⟩
    · simp [Symbol.Collapses, hname, hkeyword]
    · simp [Symbol.Collapses, hname, hnullable]
  rw [resolveText, TypeExpr.read_globalText hread hnames, Except.toOption, Option.bind_some,
    resolve, TypeExpr.ofGlobal, resolveWith_named, Segment.args_ofArgs, hargs, Option.bind_some,
    named, if_neg (by rw [Segment.any_isGeneric_plain]; decide), TypeExpr.dotted_ofPath, known?,
    if_pos rfl, ← htexts.length_eq, hknown]
  simp only [Symbol.ofKnown_of_not_collapses hcollapses, (type?_some hknown).2.1]

end Written

/-- What resolves is declared and its arguments resolve, unless it is an alias that stands alone;
and what is declared resolves in every scope by its full name, unless one word of that is no name to
the type syntax, in which case the full name never resolves. -/
theorem resolve_declared (files : List SourceFile) (implicitSpaces : List String) (s : Scope) :
    (∀ {qualifier : Option String} {outer : List Segment} {last : Segment} {sym : Symbol},
      (build files implicitSpaces).resolve s (.named qualifier outer last) = some sym →
        (∃ n t syms,
          (build files implicitSpaces).MayMean s qualifier
            (Scope.dotted ((outer ++ [last]).map Segment.name)) n ∧
          declaration? files n last.args.length = some t ∧ (∀ x ∈ outer, x.isGeneric = false) ∧
          List.Forall₂ (fun arg sym => ∃ type, arg = .given type ∧
            (build files implicitSpaces).resolve s type = some sym) last.args syms ∧
          sym = .ofKnown t syms) ∨
        (qualifier = none ∧ outer = [] ∧ last.args = [] ∧
          (∀ n, (build files implicitSpaces).MayMean s none last.name n →
            declaration? files n 0 = none) ∧
          (build files implicitSpaces).resolveAlias s last.name = some sym)) ∧
    (∀ {qualifier : Option String} {outer : List Segment} {last : Segment},
      (.omitted ∈ last.args ∨
        (∃ type, .given type ∈ last.args ∧
          (build files implicitSpaces).resolve s type = none) ∨
        ∃ x ∈ outer, x.isGeneric = true) →
      (build files implicitSpaces).resolve s (.named qualifier outer last) = none) ∧
    (∀ {name : String} {texts : List String} {syms : List Symbol} {t : KnownType},
      declaration? files name texts.length = some t → name ≠ "System.Nullable" →
      Catalog.ofFullName? name = none →
      List.Forall₂ (fun text sym =>
        (build files implicitSpaces).resolveText s text = some sym) texts syms →
      ((∀ part ∈ dotParts name, isName part = true) →
        (build files implicitSpaces).resolveText s (TypeExpr.globalText name texts)
          = some ⟨name ++ Symbol.argumentDisplay syms, t.space, t.isReference, false⟩) ∧
      ((∀ part ∈ dotParts name, IsWord part) → (∃ part ∈ dotParts name, isName part = false) →
        (build files implicitSpaces).resolveText s (TypeExpr.globalText name texts) = none)) := by
  refine ⟨fun h => ?_, fun h => resolve_named_none h, ?_⟩
  · simpa only [type?_build] using resolve_named_some h
  · intro name texts syms t hknown hnullable hkeyword htexts
    rw [← type?_build files implicitSpaces] at hknown
    refine ⟨fun hnames => resolveText_globalText hknown hnullable hkeyword htexts hnames, ?_⟩
    intro hwords hbad
    obtain ⟨e, he⟩ := TypeExpr.read_globalText_error hwords hbad texts
    rw [resolveText, he]
    rfl

/-- Two declarations of one name and arity, the later one a structure. -/
def boxes : List SourceFile :=
  [{ path := "Box.cs", usings := [⟨.space, "System", false⟩], damage := none,
     types := [⟨"Box", .class, some "App", [], 1, [], [], [], [], [], default⟩,
       ⟨"Job", .class, some "App", [], 0, [], [], [], [], [], default⟩] },
   { path := "Boxes.cs", usings := [], damage := none,
     types := [⟨"Box", .struct, some "App", [], 1, [], [], [], [], [], default⟩] }]

theorem resolve_declared_boxes :
    (declaration? boxes "App.Box" 1 = some ⟨"App.Box", 1, some "App", false⟩ ∧
      "App.Box" ≠ "System.Nullable" ∧ Catalog.ofFullName? "App.Box" = none ∧
      (build boxes []).resolveText ⟨some "App", ["Job"], []⟩ "string?"
        = some ⟨"string?", some "System", true, true⟩ ∧
      ∀ part ∈ dotParts "App.Box", isName part = true) ∧
    (build boxes []).resolveText ⟨some "App", ["Job"], []⟩ "global::App.Box<string?>"
      = some ⟨"App.Box<string?>", some "App", false, false⟩ ∧
    (build boxes []).resolve ⟨some "App", ["Job"], []⟩ (.named none [] (.generic "Box" .omitted []))
      = none ∧
    ∃ n t syms, (build boxes []).MayMean ⟨some "App", ["Job"], []⟩ none "Box" n ∧
      declaration? boxes n 1 = some t ∧
      some ⟨"App.Box<string>", some "App", false, false⟩ = some (Symbol.ofKnown t syms) := by
  obtain ⟨hsound, hnone, hcomplete⟩ := resolve_declared boxes [] ⟨some "App", ["Job"], []⟩
  have hknown : declaration? boxes "App.Box" ["string?"].length
      = some ⟨"App.Box", 1, some "App", false⟩ := by
    decide +kernel
  have hkeyword : Catalog.ofFullName? "App.Box" = none := by decide +kernel
  have harg : (build boxes []).resolveText ⟨some "App", ["Job"], []⟩ "string?"
      = some ⟨"string?", some "System", true, true⟩ := by
    decide +kernel
  have hnames : ∀ part ∈ dotParts "App.Box", isName part = true := by decide +kernel
  have hbox : (build boxes []).resolve ⟨some "App", ["Job"], []⟩
      (.named none [] (.generic "Box" (.given (.keyword "string")) []))
        = some ⟨"App.Box<string>", some "App", false, false⟩ := by
    decide +kernel
  refine ⟨⟨hknown, by decide, hkeyword, harg, hnames⟩, ?_,
    hnone (.inl (by simp [Segment.args])), ?_⟩
  · exact (hcomplete hknown (by decide) hkeyword (.cons harg .nil)).1 hnames
  · rcases hsound hbox with ⟨n, t, syms, hn, ht, -, -, hsym⟩ | ⟨-, -, hargs, -⟩
    · exact ⟨n, t, syms, hn, ht, congrArg some hsym⟩
    · simp [Segment.args] at hargs

/-- A class whose name ends in a combining accent. -/
def cafes : SourceFile where
  path := "Cafe.cs"
  usings := []
  types := [⟨"Cafe\u0301", .class, none, [], 0, [], [], [], [], [], default⟩]
  damage := none

/-- It is declared, and its full name does not resolve. -/
theorem resolve_declared_cafe :
    (∀ d ∈ cafes.types, '@' ∉ d.fullName.toList) ∧
      declaration? [cafes] "Cafe\u0301" 0 = some ⟨"Cafe\u0301", 0, none, true⟩ ∧
      "Cafe\u0301" ≠ "System.Nullable" ∧ Catalog.ofFullName? "Cafe\u0301" = none ∧
      (build [cafes] []).resolveText .global "global::Cafe\u0301" = none := by
  refine ⟨?_, ?_, by decide, ?_, ?_⟩
  all_goals decide +kernel

end Model

end TaskWrappers
