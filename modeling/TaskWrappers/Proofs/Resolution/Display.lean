import TaskWrappers.Proofs.Resolution.Canonical

/-!
# What a display denotes

Whatever a well formed type resolves to has a canonical type (`Model.canonical_resolve`), through
enclosing types, namespaces, imports and aliases alike. All that is asked of the model and the scope
is that declared full names are paths and that the targets of directives can be read back. So a
display is read again, and resolves to the same symbol from anywhere that sees no more than the
model itself (`Model.resolve_display`).
-/

namespace TaskWrappers

open Text

/-- A model whose types are named by paths, which their namespaces open, and whose aliases have
targets that are written with names. -/
structure Model.Plain (m : Model) : Prop where
  paths : ∀ t ∈ m.types, TypeExpr.isPath t.fullName = true
  spaces : ∀ t ∈ m.types, ∀ space, t.space = some space →
    ∃ rest, t.fullName = space ++ "." ++ rest
  targets : ∀ u ∈ m.globalUsings, VerbatimNames u.target.toList

/-- A scope whose aliases have targets that are written with names. -/
def Scope.Plain (s : Scope) : Prop :=
  ∀ u ∈ s.usings, VerbatimNames u.target.toList

namespace Canonical

variable {m : Model}

theorem exists_toNullable {t : TypeExpr} {sym : Symbol} (h : Canonical m t sym) :
    ∃ t', Canonical m t' sym.toNullable := by
  by_cases hn : sym.isNullable = true
  · exact ⟨t, by rwa [Symbol.toNullable, if_pos hn]⟩
  · exact ⟨_, .nullable h (by simpa using hn)⟩

/-- A known type with canonical arguments is canonical in full or in its shorter form. -/
theorem exists_ofKnown {t : KnownType} {args : List (TypeExpr × Symbol)}
    (hpath : TypeExpr.isPath t.fullName = true) (hknown : m.type? t.fullName args.length = some t)
    (hargs : ∀ a ∈ args, Canonical m a.1 a.2) :
    ∃ t', Canonical m t' (.ofKnown t (args.map (·.2))) := by
  by_cases hc : Symbol.Collapses t (args.map (·.2))
  · cases args with
    | nil =>
      obtain ⟨k, hk, hsym⟩ := Symbol.exists_keyword_of_collapses hc
      rw [List.map_nil, hsym]
      exact ⟨_, .keyword (Symbol.ofKeyword?_of_ofFullName? hk)⟩
    | cons a as =>
      rw [List.map_cons] at hc ⊢
      rw [Symbol.ofKnown_of_collapses hc]
      exact (hargs a List.mem_cons_self).exists_toNullable
  · exact ⟨_, .known hpath hknown hargs hc⟩

end Canonical

namespace Model

section ResolveWith

variable {aliased? : String → Option Symbol} {m : Model} {s : Scope}

theorem canonical_named (hplain : m.Plain)
    (haliased : ∀ name sym, aliased? name = some sym → ∃ t, Canonical m t sym)
    {qualifier : Option String} {outer : List Segment} {last : Segment}
    (args : List (TypeExpr × Symbol)) {sym : Symbol} (hargs : ∀ a ∈ args, Canonical m a.1 a.2)
    (h : named aliased? m s qualifier outer last (args.map (·.2)) = some sym) :
    ∃ t, Canonical m t sym := by
  unfold named at h
  split at h
  · cases h
  · split at h
    · rename_i t ht
      rw [List.length_map] at ht
      have hself := type?_of_known? ht
      cases h
      exact Canonical.exists_ofKnown (hplain.paths t (type?_some hself).1) hself hargs
    · split at h
      · exact haliased _ _ h
      · cases h

mutual

theorem canonical_resolveWith (hplain : m.Plain)
    (haliased : ∀ name sym, aliased? name = some sym → ∃ t, Canonical m t sym) :
    ∀ (type : TypeExpr) {sym : Symbol}, type.WellFormed →
      resolveWith aliased? m s type = some sym → ∃ t, Canonical m t sym
  | .keyword word, sym, _, h => by
    rw [resolveWith] at h
    exact ⟨_, .keyword h⟩
  | .named qualifier outer (.plain name), sym, _, h => by
    rw [resolveWith] at h
    exact canonical_named hplain haliased [] (by simp) h
  | .named qualifier outer (.generic name first rest), sym, hw, h => by
    rw [TypeExpr.WellFormed, Segment.WellFormed] at hw
    obtain ⟨-, -, ⟨-, hfirst, hrest⟩, -⟩ := hw
    rw [resolveWith] at h
    obtain ⟨x, hx, h⟩ := Option.bind_eq_some_iff.1 h
    obtain ⟨xs, hxs, h⟩ := Option.bind_eq_some_iff.1 h
    obtain ⟨t, ht⟩ := canonical_resolveArg hplain haliased first hfirst hx
    obtain ⟨args, rfl, hargs⟩ := canonical_resolveArgs hplain haliased rest hrest hxs
    exact canonical_named hplain haliased ((t, x) :: args)
      (List.forall_mem_cons.2 ⟨ht, hargs⟩) h
  | .nullable inner, sym, hw, h => by
    rw [TypeExpr.WellFormed] at hw
    rw [resolveWith] at h
    obtain ⟨x, hx, rfl⟩ := Option.map_eq_some_iff.1 h
    obtain ⟨t, ht⟩ := canonical_resolveWith hplain haliased inner hw hx
    exact ht.exists_toNullable
  | .array element commas, sym, hw, h => by
    rw [TypeExpr.WellFormed] at hw
    rw [resolveWith] at h
    obtain ⟨x, hx, rfl⟩ := Option.map_eq_some_iff.1 h
    obtain ⟨t, ht⟩ := canonical_resolveWith hplain haliased element hw hx
    exact ⟨_, .array commas ht⟩
  | .tuple first second rest, sym, hw, h => by
    rw [TypeExpr.WellFormed] at hw
    obtain ⟨hfirst, hsecond, hrest⟩ := hw
    rw [resolveWith] at h
    obtain ⟨x, hx, h⟩ := Option.bind_eq_some_iff.1 h
    obtain ⟨y, hy, h⟩ := Option.bind_eq_some_iff.1 h
    obtain ⟨zs, hzs, h⟩ := Option.bind_eq_some_iff.1 h
    cases h
    obtain ⟨a, ha, hna, rfl⟩ := canonical_displayElement hplain haliased first hfirst hx
    obtain ⟨b, hb, hnb, rfl⟩ := canonical_displayElement hplain haliased second hsecond hy
    obtain ⟨cs, hcs, hncs, rfl⟩ := canonical_displayElements hplain haliased rest hrest hzs
    exact ⟨_, .tuple (List.forall_mem_cons.2 ⟨ha, List.forall_mem_cons.2 ⟨hb, hcs⟩⟩)
      (List.forall_mem_cons.2 ⟨hna, List.forall_mem_cons.2 ⟨hnb, hncs⟩⟩)⟩

theorem canonical_resolveArg (hplain : m.Plain)
    (haliased : ∀ name sym, aliased? name = some sym → ∃ t, Canonical m t sym) :
    ∀ (arg : TypeArg) {sym : Symbol}, arg.WellFormed →
      resolveArg aliased? m s arg = some sym → ∃ t, Canonical m t sym
  | .omitted, sym, _, h => by
    rw [resolveArg] at h
    cases h
  | .given type, sym, hw, h => by
    rw [TypeArg.WellFormed] at hw
    rw [resolveArg] at h
    exact canonical_resolveWith hplain haliased type hw h

theorem canonical_resolveArgs (hplain : m.Plain)
    (haliased : ∀ name sym, aliased? name = some sym → ∃ t, Canonical m t sym) :
    ∀ (as : List TypeArg) {syms : List Symbol}, TypeArg.AllWellFormed as →
      resolveArgs aliased? m s as = some syms →
        ∃ args : List (TypeExpr × Symbol), args.map (·.2) = syms ∧ ∀ a ∈ args, Canonical m a.1 a.2
  | [], syms, _, h => by
    rw [resolveArgs] at h
    cases h
    exact ⟨[], rfl, by simp⟩
  | a :: as, syms, hw, h => by
    rw [TypeArg.AllWellFormed] at hw
    rw [resolveArgs] at h
    obtain ⟨x, hx, h⟩ := Option.bind_eq_some_iff.1 h
    obtain ⟨xs, hxs, h⟩ := Option.bind_eq_some_iff.1 h
    cases h
    obtain ⟨t, ht⟩ := canonical_resolveArg hplain haliased a hw.1 hx
    obtain ⟨args, rfl, hargs⟩ := canonical_resolveArgs hplain haliased as hw.2 hxs
    exact ⟨(t, x) :: args, rfl, List.forall_mem_cons.2 ⟨ht, hargs⟩⟩

theorem canonical_displayElement (hplain : m.Plain)
    (haliased : ∀ name sym, aliased? name = some sym → ∃ t, Canonical m t sym) :
    ∀ (e : TupleElement) {shown : String}, e.WellFormed →
      displayElement aliased? m s e = some shown →
        ∃ d : TupleElement × Symbol, Canonical m d.1.type d.2 ∧
          (∀ n, d.1.name = some n → isName n = true) ∧ d.1.shown d.2 = shown
  | ⟨type, name⟩, shown, hw, h => by
    rw [TupleElement.WellFormed] at hw
    rw [displayElement] at h
    obtain ⟨x, hx, rfl⟩ := Option.map_eq_some_iff.1 h
    obtain ⟨t, ht⟩ := canonical_resolveWith hplain haliased type hw.1 hx
    exact ⟨(⟨t, name⟩, x), ht, hw.2, rfl⟩

theorem canonical_displayElements (hplain : m.Plain)
    (haliased : ∀ name sym, aliased? name = some sym → ∃ t, Canonical m t sym) :
    ∀ (es : List TupleElement) {shown : List String}, TupleElement.AllWellFormed es →
      displayElements aliased? m s es = some shown →
        ∃ ds : List (TupleElement × Symbol), (∀ d ∈ ds, Canonical m d.1.type d.2) ∧
          (∀ d ∈ ds, ∀ n, d.1.name = some n → isName n = true) ∧
            (ds.map fun d => d.1.shown d.2) = shown
  | [], shown, _, h => by
    rw [displayElements] at h
    cases h
    exact ⟨[], by simp, by simp, rfl⟩
  | e :: es, shown, hw, h => by
    rw [TupleElement.AllWellFormed] at hw
    rw [displayElements] at h
    obtain ⟨x, hx, h⟩ := Option.bind_eq_some_iff.1 h
    obtain ⟨xs, hxs, h⟩ := Option.bind_eq_some_iff.1 h
    cases h
    obtain ⟨d, hd, hnd, rfl⟩ := canonical_displayElement hplain haliased e hw.1 hx
    obtain ⟨ds, hds, hnds, rfl⟩ := canonical_displayElements hplain haliased es hw.2 hxs
    exact ⟨d :: ds, List.forall_mem_cons.2 ⟨hd, hds⟩, List.forall_mem_cons.2 ⟨hnd, hnds⟩, rfl⟩

end

end ResolveWith

variable {m : Model}

/-- Some directive in force has the target of an alias. -/
theorem mem_of_aliasTarget? {s : Scope} {name target : String}
    (h : m.aliasTarget? s name = some target) :
    ∃ u, (u ∈ s.usings ∨ u ∈ m.globalUsings) ∧ u.target = target := by
  have hmem : ∀ usings : List Using, Using.aliasTarget? usings name = some target →
      ∃ u ∈ usings, u.target = target := by
    intro usings h
    obtain ⟨u, hu, rfl⟩ := Option.map_eq_some_iff.1 h
    exact ⟨u, List.mem_of_find?_eq_some hu, rfl⟩
  unfold aliasTarget? at h
  cases hown : Using.aliasTarget? s.usings name with
  | none =>
    rw [hown] at h
    obtain ⟨u, hu, htarget⟩ := hmem _ h
    exact ⟨u, .inr hu, htarget⟩
  | some own =>
    rw [hown] at h
    cases h
    obtain ⟨u, hu, htarget⟩ := hmem _ hown
    exact ⟨u, .inl hu, htarget⟩

theorem canonical_resolveAlias (hplain : m.Plain) {s : Scope} {name : String} {sym : Symbol}
    (hs : s.Plain) (h : m.resolveAlias s name = some sym) : ∃ t, Canonical m t sym := by
  refine resolveAlias.partial_correctness m (fun s _ sym => s.Plain → ∃ t, Canonical m t sym) ?_
    s name sym h hs
  intro aliased? ih s name sym h hs
  obtain ⟨target, htarget, h⟩ := Option.bind_eq_some_iff.1 h
  obtain ⟨type, htype, h⟩ := Option.bind_eq_some_iff.1 h
  have hnames : VerbatimNames target.toList := by
    obtain ⟨u, hown | hglobal, rfl⟩ := mem_of_aliasTarget? htarget
    · exact hs u hown
    · exact hplain.targets u hglobal
  refine canonical_resolveWith hplain (fun name sym hsym => ?_) type
    (TypeExpr.wellFormed_read hnames (Except.eq_ok_of_toOption htype)) h
  exact ih .global name sym hsym (by simp [Scope.Plain, Scope.global])

/-- What a well formed type resolves to has a canonical type. -/
theorem canonical_resolve (hplain : m.Plain) {s : Scope} (hs : s.Plain) {type : TypeExpr}
    (hw : type.WellFormed) {sym : Symbol} (h : m.resolve s type = some sym) :
    ∃ t, Canonical m t sym :=
  canonical_resolveWith hplain (fun _ _ => canonical_resolveAlias hplain hs) type hw h

theorem isPath_framework (t : FrameworkType) (ht : t ∈ Catalog.frameworkTypes) :
    TypeExpr.isPath t.fullName = true := by
  have hspaces : ∀ t ∈ Catalog.frameworkTypes, t.space ∈ ["System", "System.Collections.Generic",
      "System.Collections.Immutable", "System.Threading", "System.Threading.Tasks",
      "System.Text.Json", "System.Text.Json.Nodes", "System.IO"] := by
    decide +kernel
  have hpaths : ∀ space ∈ ["System", "System.Collections.Generic", "System.Collections.Immutable",
      "System.Threading", "System.Threading.Tasks", "System.Text.Json", "System.Text.Json.Nodes",
      "System.IO"], TypeExpr.isPath space = true := by
    decide +kernel
  have hnames : ∀ t ∈ Catalog.frameworkTypes, isName t.name = true := by decide +kernel
  exact TypeExpr.isPath_append (hpaths _ (hspaces t ht)) (hnames t ht)

/-- A known type is declared in a file or one of the framework's. -/
theorem mem_types_build {files : List SourceFile} {implicitSpaces : List String} {t : KnownType}
    (ht : t ∈ (build files implicitSpaces).types) :
    (∃ f ∈ files, ∃ d ∈ f.types, t = .ofDecl d) ∨
      ∃ d ∈ Catalog.frameworkTypes, t = .ofFramework d := by
  rcases List.mem_append.1 ht with ht | ht
  · obtain ⟨f, hf, ht⟩ := List.mem_flatMap.1 (List.mem_reverse.1 ht)
    obtain ⟨d, hd, rfl⟩ := List.mem_map.1 ht
    exact .inl ⟨f, hf, d, hd, rfl⟩
  · obtain ⟨d, hd, rfl⟩ := List.mem_map.1 ht
    exact .inr ⟨d, hd, rfl⟩

theorem plain_build {files : List SourceFile} (implicitSpaces : List String)
    (hnames : ∀ f ∈ files, ∀ d ∈ f.types, TypeExpr.isPath d.fullName = true)
    (htargets : ∀ f ∈ files, ∀ u ∈ f.usings, VerbatimNames u.target.toList) :
    (build files implicitSpaces).Plain := by
  refine ⟨fun t ht => ?_, fun t ht space hspace => ?_, fun u hu => ?_⟩
  · rcases mem_types_build ht with ⟨f, hf, d, hd, rfl⟩ | ⟨d, hd, rfl⟩
    · exact hnames f hf d hd
    · exact isPath_framework d hd
  · rcases mem_types_build ht with ⟨f, hf, d, hd, rfl⟩ | ⟨d, hd, rfl⟩
    · refine ⟨".".intercalate (d.containers ++ [d.name]), ?_⟩
      rw [KnownType.ofDecl, TypeDecl.fullName, show d.space = some space from hspace,
        Option.toList_some, List.append_assoc, List.singleton_append]
      exact String.intercalate_cons_of_ne_nil (by simp)
    · cases hspace
      exact ⟨d.name, rfl⟩
  · obtain ⟨f, hf, hu⟩ := List.mem_flatMap.1 hu
    exact htargets f hf u ((List.mem_filter.1 hu).1)

/-- The display of what a text resolves to is a type, and resolves to the same from the global
scope. -/
theorem resolve_display {files : List SourceFile} {implicitSpaces : List String} {s : Scope}
    {text : String} {sym : Symbol}
    (hnames : ∀ f ∈ files, ∀ d ∈ f.types, TypeExpr.isPath d.fullName = true)
    (htargets : ∀ f ∈ files, ∀ u ∈ f.usings, '@' ∉ u.target.toList)
    (hscope : ∀ u ∈ s.usings, '@' ∉ u.target.toList) (htext : '@' ∉ text.toList)
    (h : (build files implicitSpaces).resolveText s text = some sym) :
    (∃ t, TypeExpr.read sym.display = .ok t) ∧
      (build files implicitSpaces).resolveText .global sym.display = some sym := by
  have hplain : (build files implicitSpaces).Plain := plain_build implicitSpaces hnames
    fun f hf u hu => verbatimNames_of_not_mem (htargets f hf u hu)
  obtain ⟨type, htype, h⟩ := Option.bind_eq_some_iff.1 h
  obtain ⟨t, ht⟩ := canonical_resolve hplain (fun u hu => verbatimNames_of_not_mem (hscope u hu))
    (TypeExpr.wellFormed_read (verbatimNames_of_not_mem htext) (Except.eq_ok_of_toOption htype)) h
  have hread := ht.read_display
  refine ⟨⟨t, hread⟩, ?_⟩
  rw [resolveText, hread]
  exact ht.resolve ht.reaches_global

/-- A file that declares `App.Page<,>` and a name for `System.Guid`. -/
def pages : SourceFile where
  path := "Pages.cs"
  usings := [⟨.aliased "Id", "System.Guid", false⟩]
  types := [⟨"Page", .record, some "App", [], 2, [], [], [], [], [], default⟩]
  damage := none

/-- Through an enclosing namespace, an alias, `System.Nullable` and a keyword's full name. -/
theorem resolve_display_aliased :
    (build [pages] []).resolveText ⟨some "App.Orders", ["Job"], pages.usings⟩
        "Page<System.Nullable<Id>, global::System.String[]>"
        = some ⟨"App.Page<System.Guid?, string[]>", some "App", true, false⟩ ∧
      (∃ t, TypeExpr.read "App.Page<System.Guid?, string[]>" = .ok t) ∧
        (build [pages] []).resolveText .global "App.Page<System.Guid?, string[]>"
          = some ⟨"App.Page<System.Guid?, string[]>", some "App", true, false⟩ := by
  have hid : (build [pages] []).resolveAlias ⟨some "App.Orders", ["Job"], pages.usings⟩ "Id"
      = some ⟨"System.Guid", some "System", false, false⟩ := by
    rw [resolveAlias]
    decide +kernel
  have h : (build [pages] []).resolveText ⟨some "App.Orders", ["Job"], pages.usings⟩
      "Page<System.Nullable<Id>, global::System.String[]>"
        = some ⟨"App.Page<System.Guid?, string[]>", some "App", true, false⟩ := by
    -- a name that is found nowhere stands for nothing but the alias, which is looked up once
    have hown : (TypeExpr.read "Page<System.Nullable<Id>, global::System.String[]>").toOption.bind
        (resolveWith
          (fun name => if name = "Id" then some ⟨"System.Guid", some "System", false, false⟩
            else none)
          (build [pages] []) ⟨some "App.Orders", ["Job"], pages.usings⟩)
        = some ⟨"App.Page<System.Guid?, string[]>", some "App", true, false⟩ := by
      decide +kernel
    obtain ⟨type, htype, hown⟩ := Option.bind_eq_some_iff.1 hown
    rw [resolveText, htype]
    refine resolveWith_mono (fun name sym hsym => ?_) type hown
    split at hsym
    · subst name
      rw [hid, hsym]
    · cases hsym
  have hnames : ∀ f ∈ [pages], ∀ d ∈ f.types, TypeExpr.isPath d.fullName = true := by
    decide +kernel
  have hdisplay := resolve_display hnames (by decide) (by decide) (by decide) h
  exact ⟨h, hdisplay⟩

end Model

end TaskWrappers
