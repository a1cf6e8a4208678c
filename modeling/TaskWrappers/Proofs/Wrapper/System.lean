import TaskWrappers.Proofs.Wrapper.Marks

/-!
# What is declared in `System`

A type in writing may denote a declared type with arguments, by its name, by an alias, or as the
nullable form of what does (`Model.Denotes`). The symbol then has the namespace of the declaration,
and its display opens with that and a dot, or with the declaration's own name if there is none. So
the payload text leaves out `System.` exactly where the declared type is directly in `System`, and
is the display itself everywhere else (`Model.payloadText_declared`).
-/

namespace TaskWrappers

open Text

namespace Model

/-- The declared type, with its arguments, that a type in writing is or is the nullable form of. A
type that is displayed by a keyword is not denoted in this way, nor is an array or a tuple. -/
inductive Denotes (m : Model) : Scope → TypeExpr → KnownType → List Symbol → Prop where
  | known {s : Scope} {qualifier : Option String} {outer : List Segment} {last : Segment}
      {t : KnownType} {args : List Symbol}
      (hknown : m.known? s qualifier (Scope.dotted ((outer ++ [last]).map Segment.name))
        last.args.length = some t)
      (hargs : List.Forall₂ (fun arg sym => ∃ type, arg = .given type ∧
        m.resolve s type = some sym) last.args args)
      (hfull : ¬ Symbol.Collapses t args) : Denotes m s (.named qualifier outer last) t args
  | aliased {s : Scope} {name target : String} {type : TypeExpr} {t : KnownType}
      {args : List Symbol} (hnone : m.known? s none name 0 = none)
      (htarget : m.aliasTarget? s name = some target) (htype : TypeExpr.read target = .ok type)
      (h : Denotes m .global type t args) : Denotes m s (.named none [] (.plain name)) t args
  | marked {s : Scope} {inner : TypeExpr} {t : KnownType} {args : List Symbol}
      (h : Denotes m s inner t args) : Denotes m s (.nullable inner) t args
  | wrapped {s : Scope} {qualifier : Option String} {outer : List Segment} {last : Segment}
      {wrapper t : KnownType} {inner : TypeExpr} {value : Symbol} {args : List Symbol}
      (hknown : m.known? s qualifier (Scope.dotted ((outer ++ [last]).map Segment.name))
        last.args.length = some wrapper)
      (hargs : last.args = [.given inner]) (hvalue : m.resolve s inner = some value)
      (hwrapper : Symbol.Collapses wrapper [value]) (h : Denotes m s inner t args) :
      Denotes m s (.named qualifier outer last) t args

/-- A name of a known type with its resolved arguments stands for nothing but that. -/
theorem resolve_known {m : Model} {s : Scope} {qualifier : Option String} {outer : List Segment}
    {last : Segment} {t : KnownType} {args : List Symbol} {sym : Symbol}
    (hknown : m.known? s qualifier (Scope.dotted ((outer ++ [last]).map Segment.name))
      last.args.length = some t)
    (hargs : List.Forall₂ (fun arg sym => ∃ type, arg = .given type ∧
      m.resolve s type = some sym) last.args args)
    (hsym : m.resolve s (.named qualifier outer last) = some sym) : sym = .ofKnown t args := by
  rw [resolve, resolveWith_named, resolveArgs_iff.2 hargs, Option.bind_some, named,
    ← hargs.length_eq, hknown] at hsym
  split at hsym
  · cases hsym
  · exact (Option.some.inj hsym).symm

namespace Denotes

variable {m : Model} {s : Scope} {type : TypeExpr} {t : KnownType} {args : List Symbol}

theorem not_collapses (h : m.Denotes s type t args) : ¬ Symbol.Collapses t args := by
  induction h with
  | known _ _ hfull => exact hfull
  | aliased _ _ _ _ ih => exact ih
  | marked _ ih => exact ih
  | wrapped _ _ _ _ _ ih => exact ih

theorem mem_types (h : m.Denotes s type t args) : t ∈ m.types := by
  induction h with
  | known hknown => exact (type?_some (type?_of_known? hknown)).1
  | aliased _ _ _ _ ih => exact ih
  | marked _ ih => exact ih
  | wrapped _ _ _ _ _ ih => exact ih

/-- What a type denotes it stands for, up to one nullable mark. -/
theorem symbol_eq (h : m.Denotes s type t args) : ∀ {sym : Symbol}, m.resolve s type = some sym →
    sym = .ofKnown t args ∨ sym = (Symbol.ofKnown t args).toNullable := by
  have htwice (sym : Symbol) : sym.toNullable.toNullable = sym.toNullable := by
    rw [Symbol.toNullable, if_pos (Symbol.isNullable_toNullable sym)]
  have hmark {sym base : Symbol} (h : sym = base ∨ sym = base.toNullable) :
      sym.toNullable = base.toNullable := by
    rcases h with rfl | rfl
    · rfl
    · exact htwice base
  induction h with
  | known hknown hargs => exact fun hsym => .inl (resolve_known hknown hargs hsym)
  | aliased hnone htarget htype _ ih =>
    intro sym hsym
    rw [resolve_plain, resolveAlias_target htarget, resolveText, htype] at hsym
    rw [known?] at hnone
    rw [hnone] at hsym
    exact ih hsym
  | marked _ ih =>
    intro sym hsym
    rw [resolve, resolveWith] at hsym
    obtain ⟨base, hbase, rfl⟩ := Option.map_eq_some_iff.1 hsym
    exact .inr (hmark (ih hbase))
  | wrapped hknown hlast hvalue hwrapper _ ih =>
    intro sym hsym
    have hargs := resolve_known hknown (by rw [hlast]; exact .cons ⟨_, rfl, hvalue⟩ .nil) hsym
    rw [hargs, Symbol.ofKnown_of_collapses hwrapper]
    exact .inr (hmark (ih hvalue))

/-- The symbol has the namespace of the declaration and is displayed under its full name. -/
theorem display_eq (h : m.Denotes s type t args) {sym : Symbol}
    (hsym : m.resolve s type = some sym) : sym.space = t.space ∧
      sym.display = t.fullName ++ Symbol.argumentDisplay args
        ++ if sym.isNullable then "?" else "" := by
  have hfull := Symbol.ofKnown_of_not_collapses h.not_collapses
  rcases h.symbol_eq hsym with rfl | rfl
  · rw [hfull]
    exact ⟨rfl, String.append_empty.symm⟩
  · rw [Symbol.toNullable_of_unmarked (by rw [hfull]), hfull]
    exact ⟨rfl, rfl⟩

end Denotes

/-- What resolves denotes a declared type, or else loses nothing of its display. -/
theorem keeps_denotes (m : Model) : m.Keeps fun s type sym =>
    (∃ t args, m.Denotes s type t args) ∨ sym.shortDisplay = sym.display where
  keyword h := .inr (Symbol.opensElsewhere_keyword h).shortDisplay_eq
  known {s qualifier outer last t syms} hknown hargs := by
    by_cases hc : Symbol.Collapses t syms
    · rcases syms with _ | ⟨arg, rest⟩
      · obtain ⟨k, hk, hsym⟩ := Symbol.exists_keyword_of_collapses hc
        rw [hsym]
        exact .inr (Symbol.opensElsewhere_keyword
          (Symbol.ofKeyword?_of_ofFullName? hk)).shortDisplay_eq
      -- A nullable value keeps the symbol of the value, so it denotes what the value does.
      · obtain rfl : rest = [] := List.isEmpty_iff.1 hc.2.1
        generalize hlast : last.args = written at hargs
        rcases hargs with _ | ⟨⟨inner, rfl, hvalue, hinner⟩, hnil⟩
        cases hnil
        rw [Symbol.ofKnown_of_collapses hc]
        rcases hinner with ⟨t, args, hdenotes⟩ | hfull
        · exact .inl ⟨t, args, .wrapped hknown hlast hvalue hc hdenotes⟩
        · exact .inr (Symbol.shortDisplay_toNullable_eq hfull)
    · refine .inl ⟨t, syms, .known hknown (hargs.imp ?_) hc⟩
      rintro arg sym ⟨type, hgiven, hsym, -⟩
      exact ⟨type, hgiven, hsym⟩
  aliased hnone htarget htype h := by
    rcases h with ⟨t, args, hdenotes⟩ | hfull
    · exact .inl ⟨t, args, .aliased hnone htarget htype hdenotes⟩
    · exact .inr hfull
  nullable h := by
    rcases h with ⟨t, args, hdenotes⟩ | hfull
    · exact .inl ⟨t, args, .marked hdenotes⟩
    · exact .inr (Symbol.shortDisplay_toNullable_eq hfull)
  array _ _ := .inr (Symbol.shortDisplay_of_space (by simp [Symbol.arrayOf]))
  tuple _ _ _ shown := .inr (Symbol.opensElsewhere_tupleOf shown).shortDisplay_eq

end Model

/-- What a known type is called in its namespace: a declaration by the types around it and its own
name, a type of the framework by its name. -/
def KnownType.IsCalled (files : List SourceFile) (t : KnownType) (own : String) : Prop :=
  (∃ f ∈ files, ∃ d ∈ f.types, t = .ofDecl d ∧ own = Scope.dotted (d.containers ++ [d.name])) ∨
    ∃ d ∈ Catalog.frameworkTypes, t = .ofFramework d ∧ own = d.name

/-- A full name is the namespace with a dot, if there is one, and the name in it. -/
theorem KnownType.exists_fullName_eq {files : List SourceFile} {implicitSpaces : List String}
    {t : KnownType} (ht : t ∈ (Model.build files implicitSpaces).types) :
    ∃ own, t.IsCalled files own ∧ t.fullName = t.space.elim "" (· ++ ".") ++ own := by
  rcases Model.mem_types_build ht with ⟨f, hf, d, hd, rfl⟩ | ⟨d, hd, rfl⟩
  · refine ⟨_, .inl ⟨f, hf, d, hd, rfl, rfl⟩, ?_⟩
    rw [KnownType.ofDecl, TypeDecl.fullName]
    cases d.space with
    | none => simp [Scope.dotted]
    | some space =>
      rw [Option.toList_some, List.append_assoc, List.singleton_append,
        String.intercalate_cons_of_ne_nil (by simp)]
      rfl
  · exact ⟨_, .inr ⟨d, hd, rfl, rfl⟩, rfl⟩

/-- The payload text leaves out `System.` exactly where the type is, or is the nullable form of, a
type that is declared directly in that namespace. What denotes a declared type at all is displayed
under the declaration's namespace, if it has one, and the name in it. -/
theorem Model.payloadText_declared (files : List SourceFile) (implicitSpaces : List String)
    (s : Scope) {text : String} {sym : Symbol}
    (htext : (build files implicitSpaces).resolveText s text = some sym) :
    ∃ type, TypeExpr.read text = .ok type ∧
      (∀ t args, (build files implicitSpaces).Denotes s type t args →
        sym.space = t.space ∧ ∃ own, t.IsCalled files own ∧
          sym.display = t.space.elim "" (· ++ ".") ++ own ++ Symbol.argumentDisplay args
            ++ if sym.isNullable then "?" else "") ∧
      ((∃ t args, (build files implicitSpaces).Denotes s type t args ∧
          t.space = some Symbol.systemSpace) →
        sym.display = "System." ++ Symbol.payloadText (some sym) false) ∧
      ((¬ ∃ t args, (build files implicitSpaces).Denotes s type t args ∧
          t.space = some Symbol.systemSpace) →
        Symbol.payloadText (some sym) false = sym.display) := by
  obtain ⟨type, hread, hsym⟩ := Option.bind_eq_some_iff.1 htext
  have hdisplay : ∀ t args, (build files implicitSpaces).Denotes s type t args →
      sym.space = t.space ∧ ∃ own, t.IsCalled files own ∧
        sym.display = t.space.elim "" (· ++ ".") ++ own ++ Symbol.argumentDisplay args
          ++ if sym.isNullable then "?" else "" := by
    intro t args h
    obtain ⟨own, hown, hname⟩ := KnownType.exists_fullName_eq h.mem_types
    obtain ⟨hspace, heq⟩ := h.display_eq hsym
    exact ⟨hspace, own, hown, hname ▸ heq⟩
  refine ⟨type, Except.eq_ok_of_toOption hread, hdisplay, ?_, ?_⟩
  · rintro ⟨t, args, h, hsystem⟩
    obtain ⟨hspace, own, -, heq⟩ := hdisplay t args h
    rw [hsystem] at hspace heq
    simp only [Option.elim_some, String.append_assoc] at heq
    have hlead : sym.display = Symbol.systemSpace ++ "." ++
        (own ++ (Symbol.argumentDisplay args ++ if sym.isNullable then "?" else "")) := by
      rw [heq, String.append_assoc]
    rw [Symbol.payloadText, Symbol.shortDisplay_of_system hspace hlead]
    exact hlead
  · intro hother
    rcases (keeps_denotes _).of_resolve hsym with ⟨t, args, h⟩ | hfull
    · refine Symbol.shortDisplay_of_space fun hsystem => hother ⟨t, args, h, ?_⟩
      rw [← (hdisplay t args h).1, hsystem]
    · exact hfull

/-- A class of the global namespace that is called like the namespace, with a type in it. -/
def systemClassFile : SourceFile where
  path := "System.cs"
  usings := []
  types := [⟨"System", .class, none, [], 0, [], [], [], [], [], default⟩,
    ⟨"Clock", .struct, none, ["System"], 0, [], [], [], [], [], default⟩]
  damage := none

theorem Model.payloadText_declared_clock :
    (build [systemClassFile] []).resolveText .global "System.Nullable<System.Guid>"
        = some ⟨"System.Guid?", some "System", false, true⟩ ∧
      Symbol.payloadText (some ⟨"System.Guid?", some "System", false, true⟩) false = "Guid?" ∧
      (build [systemClassFile] []).resolveText .global "System.Clock?"
        = some ⟨"System.Clock?", none, false, true⟩ ∧
      Symbol.payloadText (some ⟨"System.Clock?", none, false, true⟩) false = "System.Clock?" := by
  have hguid : (build [systemClassFile] []).resolveText .global "System.Nullable<System.Guid>"
      = some ⟨"System.Guid?", some "System", false, true⟩ := by
    decide +kernel
  have hclock : (build [systemClassFile] []).resolveText .global "System.Clock?"
      = some ⟨"System.Clock?", none, false, true⟩ := by
    decide +kernel
  refine ⟨hguid, ?_, hclock, ?_⟩
  · obtain ⟨type, hread, -, hsystem, -⟩ := payloadText_declared [systemClassFile] [] .global hguid
    have hwritten : TypeExpr.read "System.Nullable<System.Guid>" = .ok (.named none
        [.plain "System"] (.generic "Nullable"
          (.given (.named none [.plain "System"] (.plain "Guid"))) [])) := by
      refine TypeExpr.read_of_print_eq ?_ (by decide +kernel)
      simp only [TypeExpr.WellFormed, Segment.AllWellFormed, Segment.WellFormed,
        TypeArg.WellFormed, TypeArg.AllWellFormed]
      decide +kernel
    obtain rfl := Except.ok.inj (hread.symm.trans hwritten)
    have hinner : (build [systemClassFile] []).Denotes .global
        (.named none [.plain "System"] (.plain "Guid"))
        ⟨"System.Guid", 0, some "System", false⟩ [] := by
      refine .known (by decide +kernel) .nil ?_
      rw [Symbol.Collapses]
      decide
    have hvalue : (build [systemClassFile] []).resolve .global
        (.named none [.plain "System"] (.plain "Guid"))
          = some ⟨"System.Guid", some "System", false, false⟩ := by
      decide +kernel
    have hwrapper : (build [systemClassFile] []).known? .global none "System.Nullable" 1
        = some ⟨"System.Nullable", 1, some "System", false⟩ := by
      decide +kernel
    have hcollapses : Symbol.Collapses ⟨"System.Nullable", 1, some "System", false⟩
        [⟨"System.Guid", some "System", false, false⟩] := by
      rw [Symbol.Collapses]
      decide
    have hdisplay := hsystem ⟨_, _, .wrapped hwrapper rfl hvalue hcollapses hinner, rfl⟩
    exact (String.append_right_inj "System.").1 hdisplay.symm
  · obtain ⟨type, -, hdisplay, -, hother⟩ :=
      payloadText_declared [systemClassFile] [] .global hclock
    refine hother ?_
    rintro ⟨t, args, hdenotes, hspace⟩
    rw [← (hdisplay t args hdenotes).1] at hspace
    cases hspace

end TaskWrappers
