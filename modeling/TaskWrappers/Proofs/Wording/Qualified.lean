import TaskWrappers.Proofs.ConstantExpr.Denotation
import TaskWrappers.Proofs.Resolution.Alias
import TaskWrappers.Proofs.Resolution.Display
import TaskWrappers.Proofs.Resolution.Names
import TaskWrappers.Proofs.Wording.Choice

/-!
# Directives written with `global::`

A candidate is a directive's target with more behind it, and nothing is declared under a name that
opens with `global::`. So an import written with it has no effect, nor has an alias in front of a
dot or of `::`. Only a name alone that is an alias is not put together like this: its target is read
as a type, which may be written either way. On the whole such a directive acts as if it were not
there, except that aliases are still aliases where they stand alone (`ChosenFile.model_qualified`).
-/

namespace TaskWrappers

namespace Model

variable {m : Model} {outer : List Segment} {last : Segment}

/-- Whether a name is written in full: a type has it, or nothing that can be seen from the global
namespace, as with the name of a namespace. -/
def IsFull (m : Model) (name : String) (k : Nat) : Prop :=
  (m.type? name k).isSome ∨
    m.known? .global none name k = none ∧ Using.aliasTarget? m.globalUsings name = none

/-- In the global scope a name in full stands for what it stands for behind `global::`. -/
theorem named_of_isFull (f : String → Option Symbol) {args : List Symbol}
    (h : m.IsFull (Scope.dotted ((outer ++ [last]).map Segment.name)) args.length) :
    named (m.resolveAlias .global) m .global none outer last args
      = named f m .global (some TypeExpr.globalQualifier) outer last args := by
  have hglobal (name : String) (k : Nat) :
      m.known? .global (some TypeExpr.globalQualifier) name k = m.type? name k := by
    rw [known?, if_pos rfl]
  rw [named, named, hglobal]
  split
  · rfl
  · rcases h with hdeclared | ⟨hnone, halias⟩
    · obtain ⟨t, ht⟩ := Option.isSome_iff_exists.1 hdeclared
      have hreaches : m.known? .global none _ args.length = m.type? _ args.length :=
        reaches_global ht
      rw [hreaches, ht]
    · have htype : m.type? (Scope.dotted ((outer ++ [last]).map Segment.name)) args.length
          = none := by
        rw [known?, List.findSome?_eq_none_iff] at hnone
        exact hnone _ (mem_candidates m .global _)
      rw [hnone, htype]
      dsimp only
      split
      · rename_i halone
        simp only [Bool.and_eq_true, List.isEmpty_iff] at halone
        obtain ⟨⟨-, rfl⟩, -⟩ := halone
        have hname : Scope.dotted (([] ++ [last]).map Segment.name) = last.name := by
          simp [Scope.dotted]
        rw [hname] at halias
        rw [resolveAlias_eq_bind, aliasTarget?, halias]
        rfl
      · rfl

theorem resolve_of_isFull
    (h : m.IsFull (Scope.dotted ((outer ++ [last]).map Segment.name)) last.args.length) :
    m.resolve .global (.named none outer last)
      = m.resolve .global (.named (some TypeExpr.globalQualifier) outer last) := by
  rw [resolve, resolve, resolveWith_named, resolveWith_named]
  cases hsyms : resolveArgs (m.resolveAlias .global) m .global last.args with
  | none => rfl
  | some syms =>
    refine named_of_isFull _ ?_
    rwa [length_resolveArgs hsyms]

end Model

namespace ChosenModel

variable {m : ChosenModel} {s : ChosenScope}

/-- Whether nothing is declared under a name with `global::` in front. -/
structure Unqualified (m : ChosenModel) : Prop where
  type? : ∀ name k, m.type? (globalName name) k = none
  constant? : ∀ name, m.constant? (globalName name) = none

/-- A name is found where directives open with `global::` as it is without them. -/
theorem findSome?_candidates {β : Type} {f : String → Option β}
    (hf : ∀ name, f (globalName name) = none) (s : ChosenScope) (name : String) :
    ((m.worded .qualified).candidates (s.worded .qualified) name).findSome? f
      = ((m.worded .omitted).candidates (s.worded .omitted) name).findSome? f := by
  rw [candidates_worded, candidates_worded]
  exact Wording.findSome?_congr .qualified fun n _ => hf n

/-- Whether a directive's target is written in full, and as a name without qualifier if the
directive is chosen. -/
def InFull (m : ChosenModel) (u : Using × Bool) : Prop :=
  (u.2 = true → ∃ outer last, TypeExpr.read u.1.target = .ok (.named none outer last)) ∧
    ∀ type, TypeExpr.read u.1.target = .ok type → type.AllNames (m.worded .plain).IsFull

theorem inFull_path {u : Using} (chosen : Bool) (hpath : TypeExpr.isPath u.target = true)
    (hfull : (m.worded .plain).IsFull u.target 0) : m.InFull (u, chosen) := by
  have hread : TypeExpr.read u.target = .ok (.ofPath u.target []) := by
    have hprint : (TypeExpr.ofPath u.target []).print = u.target := by
      rw [TypeExpr.print_ofPath, TypeExpr.argumentList, String.append_empty]
    have hw : (TypeExpr.ofPath u.target []).WellFormed :=
      TypeExpr.wellFormed_ofPath hpath (by simp [TypeArg.AllWellFormed])
    have hread := TypeExpr.read_print hw
    rwa [hprint] at hread
  refine ⟨fun _ => ⟨_, _, hread⟩, fun type htype => ?_⟩
  rw [hread] at htype
  cases htype
  refine ⟨?_, trivial⟩
  rwa [TypeExpr.dotted_ofPath]

section Qualified

variable (h : m.Unqualified)
include h

theorem valueWithin_qualified (n : Nat) (s : ChosenScope) (expression : String) :
    ConstantExpr.valueWithin (m.worded .qualified) n (s.worded .qualified) expression
      = ConstantExpr.valueWithin (m.worded .omitted) n (s.worded .omitted) expression := by
  induction n generalizing s expression with
  | zero => rw [ConstantExpr.valueWithin, ConstantExpr.valueWithin]
  | succ n ih =>
    have hconstant (how : Wording) : (m.worded how).constant?
        = Option.map (ChosenConstant.worded · how) ∘ m.constant? :=
      funext (constant?_worded how)
    have hreference (path : String) :
        ConstantExpr.reference (m.worded .qualified) n (s.worded .qualified) path
          = ConstantExpr.reference (m.worded .omitted) n (s.worded .omitted) path := by
      rw [ConstantExpr.reference, ConstantExpr.reference, hconstant, hconstant,
        ← List.map_findSome?, ← List.map_findSome?, findSome?_candidates h.constant?]
      cases ((m.worded .omitted).candidates (s.worded .omitted) path).findSome? m.constant? with
      | none => simp only [Option.map_none, Option.bind_eq_bind, Option.bind_none]
      | some c => exact ih c.scope c.value
    rw [ConstantExpr.valueWithin_succ, ConstantExpr.valueWithin_succ, funext hreference]

/-- What a name stands for, behind any qualifier. -/
theorem known?_qualified (honce : (s.usings.filterMap (·.1.alias?)).Nodup)
    (qualifier : Option String) (name : String) (k : Nat) :
    (m.worded .qualified).known? (s.worded .qualified) qualifier name k
      = (m.worded .omitted).known? (s.worded .omitted) qualifier name k := by
  rw [Model.known?.eq_def, Model.known?.eq_def]
  simp only [type?_worded]
  cases qualifier with
  | none => exact findSome?_candidates (fun full => h.type? full k) s name
  | some q =>
    dsimp only
    split
    · rfl
    · refine aliasTarget?_qualified (fun target => ?_) q honce
      rw [globalName, String.append_assoc, String.append_assoc]
      exact h.type? _ k

theorem isFull_qualified {name : String} {k : Nat} (hfull : (m.worded .plain).IsFull name k) :
    (m.worded .qualified).IsFull name k := by
  rw [Model.IsFull, Model.known?, type?_worded] at hfull ⊢
  simp only [type?_worded] at hfull ⊢
  rcases hfull with hdeclared | ⟨hnone, halias⟩
  · exact .inl hdeclared
  · refine .inr ⟨?_, ?_⟩
    · refine (findSome?_candidates (fun full => h.type? full k) ChosenScope.global name).trans ?_
      have hplain := candidates_worded m ChosenScope.global .plain name
      rw [candidates_worded, List.findSome?_eq_none_iff]
      intro n hn
      refine List.findSome?_eq_none_iff.1 hnone n ?_
      exact hplain ▸ Wording.omitted_subset_plain _ hn
    · exact (aliasTarget?_eq_none_iff .qualified (by simp)).2
        ((aliasTarget?_eq_none_iff .plain (by simp)).1 halias)

/-- What is written in full keeps its meaning in the global scope. -/
theorem resolve_global {type : TypeExpr} (htype : type.AllNames (m.worded .plain).IsFull) :
    (m.worded .qualified).resolve .global type = (m.worded .plain).resolve .global type := by
  have hknown (how : Wording) (q name : String) (k : Nat) :
      (m.worded how).known? .global (some q) name k
        = if q = TypeExpr.globalQualifier then m.type? name k else none := by
    rw [Model.known?, type?_worded]
    rfl
  have hqualifier (q : String) (outer : List Segment) (last : Segment) (args : List Symbol) :
      Model.named ((m.worded .qualified).resolveAlias .global) (m.worded .qualified) .global
          (some q) outer last args
        = Model.named ((m.worded .plain).resolveAlias .global) (m.worded .plain) .global (some q)
          outer last args := by
    simp only [Model.named, hknown, Option.isNone_some, Bool.false_and, Bool.false_eq_true,
      if_false]
  refine Model.resolveWith_congr (fun qualifier outer last args hfull => ?_) htype
  cases qualifier with
  | none =>
    rw [Model.named_of_isFull ((m.worded .qualified).resolveAlias .global)
      (isFull_qualified h hfull), hqualifier, ← Model.named_of_isFull _ hfull]
  | some q => exact hqualifier q outer last args

/-- What a target in full means, with `global::` in front if it has been put there. -/
theorem resolveText_inFull {u : Using} {chosen : Bool} (hu : m.InFull (u, chosen)) :
    (m.worded .qualified).resolveText .global (if chosen then globalName u.target else u.target)
      = (m.worded .plain).resolveText .global u.target := by
  rw [Model.resolveText, Model.resolveText]
  cases chosen with
  | false =>
    rw [if_neg (by decide)]
    cases hread : TypeExpr.read u.target with
    | error e => simp only [Except.toOption, Option.bind_none]
    | ok type => exact resolve_global h (hu.2 type hread)
  | true =>
    obtain ⟨outer, last, hread⟩ : ∃ outer last, TypeExpr.read u.target
        = .ok (.named none outer last) := hu.1 rfl
    have hname := hu.2 _ hread
    have hglobal : TypeExpr.read (globalName u.target)
        = .ok (.named (some TypeExpr.globalQualifier) outer last) := TypeExpr.read_global hread
    rw [if_pos rfl, hglobal, hread]
    simp only [Except.toOption, Option.bind_some]
    rw [← resolve_global h hname, Model.resolve_of_isFull (isFull_qualified h hname.1)]

/-- An alias that stands alone keeps its meaning. -/
theorem resolveAlias_qualified
    (hfull : ∀ u ∈ s.usings ++ m.globalUsings, u.1.alias?.isSome → m.InFull u) (name : String) :
    (m.worded .qualified).resolveAlias (s.worded .qualified) name
      = (m.worded .plain).resolveAlias (s.worded .plain) name := by
  rw [Model.resolveAlias_eq_bind, Model.resolveAlias_eq_bind,
    aliasTarget?_worded m s .qualified (by simp), aliasTarget?_worded m s .plain (by simp)]
  cases hfind : (s.usings ++ m.globalUsings).find? (·.1.isAlias name) with
  | none => simp only [Option.bind_none, Option.map_none]
  | some u =>
    have halias : u.1.isAlias name = true := by simpa using List.find?_some hfind
    have hu := hfull u (List.mem_of_find?_eq_some hfind) (by rw [Using.isAlias_iff.1 halias]; rfl)
    obtain ⟨u, chosen⟩ := u
    have hword := resolveText_inFull h hu
    cases chosen with
    | false => exact hword
    | true => exact hword

end Qualified

section Build

variable {files : List ChosenFile} {implicitSpaces : List String}

theorem colon_mem_of_append_dot {outer name rest : String}
    (h : outer ++ "." ++ name = globalName rest) : ':' ∈ outer.toList := by
  have hchars : outer.toList ++ '.' :: name.toList = "global::".toList ++ rest.toList := by
    rw [← String.toList_append, ← globalName, ← h]
    simp [String.toList_append]
  rcases List.append_eq_append_iff.1 hchars with ⟨more, hglobal, hmore⟩ | ⟨more, houter, -⟩
  · cases more with
    | nil =>
      rw [List.append_nil] at hglobal
      rw [← hglobal]
      decide
    | cons c more =>
      have hdot : '.' ∈ "global::".toList := by
        rw [hglobal, (List.cons.inj hmore).1]
        simp
      exact absurd hdot (by decide)
  · rw [houter]
    exact List.mem_append_left _ (by decide)

theorem unqualified_build (hcolon : ∀ f ∈ files, ∀ d ∈ f.types, ':' ∉ d.fullName.toList) :
    (build files implicitSpaces).Unqualified where
  type? name k := by
    have hname : ':' ∈ (globalName name).toList := by
      rw [globalName, String.toList_append]
      exact List.mem_append_left _ (by decide)
    refine List.find?_eq_none.2 fun t ht hfound => ?_
    have hfull : t.fullName = globalName name := by
      simp only [Bool.and_eq_true, beq_iff_eq] at hfound
      exact hfound.1
    rw [← hfull] at hname
    rcases List.mem_append.1 ht with ht | ht
    · obtain ⟨f, hf, ht⟩ := List.mem_flatMap.1 (List.mem_reverse.1 ht)
      obtain ⟨d, hd, rfl⟩ := List.mem_map.1 ht
      exact hcolon f hf d hd hname
    · obtain ⟨k, hk, rfl⟩ := List.mem_map.1 ht
      exact TypeExpr.not_mem_of_isPath (Model.isPath_framework k hk) (by decide) (by decide) hname
  constant? name := by
    refine List.find?_eq_none.2 fun c hc hfound => ?_
    obtain ⟨f, hf, hc⟩ := List.mem_flatMap.1 (List.mem_reverse.1 hc)
    obtain ⟨d, hd, hc⟩ := List.mem_flatMap.1 hc
    obtain ⟨x, -, rfl⟩ := List.mem_map.1 hc
    exact hcolon f hf d hd (colon_mem_of_append_dot (eq_of_beq hfound))

end Build

end ChosenModel

/-- Whether the directives of a scope's file give no name to two things, and the aliases in force
are for what is written in full. -/
structure ChosenScope.InOrder (m : ChosenModel) (s : ChosenScope) : Prop where
  once : (s.usings.filterMap (·.1.alias?)).Nodup
  full : ∀ u ∈ s.usings ++ m.globalUsings, u.1.alias?.isSome → m.InFull u

namespace ChosenFile

variable {files : List ChosenFile} {implicitSpaces : List String}

/-- Directives with `global::` in front of their targets do for constants what they do if they are
left out. For types they do that too, but the aliases among them still stand for their targets where
they stand alone. So a name alone keeps its meaning where none of the directives offers a type. -/
theorem model_qualified (hcolon : ∀ f ∈ files, ∀ d ∈ f.types, ':' ∉ d.fullName.toList)
    (s : ChosenScope) :
    (∀ expression,
      (model files implicitSpaces .qualified).constantValue (s.worded .qualified) expression
        = (model files implicitSpaces .omitted).constantValue (s.worded .omitted) expression) ∧
    (s.InOrder (.build files implicitSpaces) →
      (∀ type,
        (model files implicitSpaces .qualified).resolve (s.worded .qualified) type
          = Model.resolveWith
              ((model files implicitSpaces .plain).resolveAlias (s.worded .plain))
              (model files implicitSpaces .omitted) (s.worded .omitted) type) ∧
      ∀ name,
        (∀ c ∈ (ChosenModel.build files implicitSpaces).candidates s name, c.2 = true →
          (ChosenModel.build files implicitSpaces).type? c.1 0 = none) →
        (model files implicitSpaces .qualified).resolve (s.worded .qualified)
            (.named none [] (.plain name))
          = (model files implicitSpaces .plain).resolve (s.worded .plain)
            (.named none [] (.plain name))) := by
  have hunqualified : (ChosenModel.build files implicitSpaces).Unqualified :=
    ChosenModel.unqualified_build hcolon
  simp only [← ChosenModel.worded_build]
  generalize ChosenModel.build files implicitSpaces = m at hunqualified ⊢
  refine ⟨fun expression => ?_, fun hs => ⟨fun type => ?_, fun name hname => ?_⟩⟩
  · exact ChosenModel.valueWithin_qualified hunqualified _ s expression
  · rw [Model.resolve]
    refine Model.resolveWith_congr (P := fun _ _ => True) (fun qualifier outer last args _ => ?_)
      (TypeExpr.allNames_of_forall (fun _ _ => trivial) type)
    rw [Model.named, Model.named, ChosenModel.known?_qualified hunqualified hs.once,
      ChosenModel.resolveAlias_qualified hunqualified hs.full]
  · rw [Model.resolve_plain, Model.resolve_plain,
      ChosenModel.resolveAlias_qualified hunqualified hs.full, ChosenModel.candidates_worded,
      ChosenModel.candidates_worded]
    simp only [ChosenModel.type?_worded]
    have hfirst : (Wording.qualified.all globalName (m.candidates s name)).findSome? (m.type? · 0)
        = (Wording.plain.all globalName (m.candidates s name)).findSome? (m.type? · 0) :=
      Wording.findSome?_congr .qualified fun full hfull =>
        (hunqualified.type? full 0).trans (hname _ hfull rfl).symm
    rw [hfirst]

/-- Directives that import a namespace, import what a class has, and give the class a name. -/
def directives : List (Using × Bool) :=
  [(⟨.space, "App.Models", false⟩, true), (⟨.static, "App.Models.Order", false⟩, true),
    (⟨.aliased "Item", "App.Models.Order", false⟩, true)]

/-- The class, which has a constant, and another one in a file with the directives. -/
def shipping : List ChosenFile :=
  [⟨"Orders.cs", [],
      [⟨"Order", .class, some "App.Models", [], 0, [], [], [], [],
        [⟨"Kind", "string", "\"Goods\""⟩], default⟩], none⟩,
    ⟨"Ship.cs", directives,
      [⟨"Ship", .class, some "Shop", [], 0, [], [], [], [], [], default⟩], none⟩]

/-- Where the other class stands. -/
def ship : ChosenScope := ⟨some "Shop", ["Ship"], directives⟩

theorem model_qualified_shipping :
    (model shipping [] .qualified).constantValue (ship.worded .qualified) "Kind" = none ∧
      (model shipping [] .qualified).resolve (ship.worded .qualified)
          (.named none [] (.plain "Item"))
        = some ⟨"App.Models.Order", some "App.Models", true, false⟩ := by
  have hcolon : ∀ f ∈ shipping, ∀ d ∈ f.types, ':' ∉ d.fullName.toList := by decide
  have hitem : (model shipping [] .plain).resolve (ship.worded .plain)
      (.named none [] (.plain "Item"))
        = some ⟨"App.Models.Order", some "App.Models", true, false⟩ := by
    have hnone : ((model shipping [] .plain).candidates (ship.worded .plain) "Item").findSome?
        ((model shipping [] .plain).type? · 0) = none := by
      decide
    have htarget : (model shipping [] .plain).aliasTarget? (ship.worded .plain) "Item"
        = some "App.Models.Order" := by
      decide
    rw [Model.resolve_plain, hnone, Model.resolveAlias_target htarget]
    decide +kernel
  have horder : ship.InOrder (.build shipping []) := by
    refine ⟨by decide, fun u hu halias => ?_⟩
    have hu : u = (⟨.aliased "Item", "App.Models.Order", false⟩, true) := by
      revert u
      decide
    rw [hu]
    refine ChosenModel.inFull_path true (by decide) (.inl ?_)
    decide
  obtain ⟨hconstant, hrest⟩ := @model_qualified shipping [] hcolon ship
  refine ⟨?_, ?_⟩
  · rw [hconstant]
    decide +kernel
  · rw [(hrest horder).2 "Item" ?_, hitem]
    decide

/-- Written with `global::`, the imports are lost. -/
theorem model_qualified_order :
    (model shipping [] .plain).constantValue (ship.worded .plain) "Kind" = some "Goods" ∧
      (model shipping [] .qualified).constantValue (ship.worded .qualified) "Kind" = none ∧
      (model shipping [] .plain).resolveText (ship.worded .plain) "Order"
        = some ⟨"App.Models.Order", some "App.Models", true, false⟩ ∧
      (model shipping [] .qualified).resolveText (ship.worded .qualified) "Order" = none := by
  refine ⟨by decide +kernel, by decide +kernel, by decide +kernel, ?_⟩
  have hread : TypeExpr.read "Order" = .ok (.named none [] (.plain "Order")) :=
    Model.read_plain (by decide)
  have hnone : ((model shipping [] .qualified).candidates (ship.worded .qualified)
      "Order").findSome? ((model shipping [] .qualified).type? · 0) = none := by
    decide
  have halias : (model shipping [] .qualified).aliasTarget? (ship.worded .qualified) "Order"
      = none := by
    decide
  rw [Model.resolveText, hread, Except.toOption, Option.bind_some, Model.resolve_plain, hnone,
    Model.resolveAlias_eq_bind, halias]
  rfl

end ChosenFile

end TaskWrappers
