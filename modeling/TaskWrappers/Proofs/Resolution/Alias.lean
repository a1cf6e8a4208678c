import TaskWrappers.Proofs.Resolution.Cycle
import TaskWrappers.Proofs.Resolution.Lookup
import TaskWrappers.Proofs.TypeExpr.RoundTrip

/-!
# What an alias decides

Imports are asked before aliases. Where nothing of its name is declared near the scope, a file's
alias stands for its target unless an import offers a type of that name, which is then the one that
is meant (`Model.resolveText_alias`). A word that names a type by itself is never an alias. An alias
whose name is not one that types can be called by, such as one that keeps its `@`, is out of reach.
-/

namespace TaskWrappers

open Text

namespace Model

variable {m : Model} {s : Scope} {name : String}

/-- A name alone is the first declared type that it may stand for, or else an alias. -/
theorem resolve_plain : m.resolve s (.named none [] (.plain name))
    = (((m.candidates s name).findSome? (m.type? · 0)).map (.ofKnown · [])
        <|> m.resolveAlias s name) := by
  have hdotted : Scope.dotted (([] ++ [Segment.plain name]).map Segment.name) = name := by
    simp [Scope.dotted, Segment.name]
  rw [resolve, resolveWith, named, if_neg (by simp), hdotted, List.length_nil, known?]
  cases (m.candidates s name).findSome? (m.type? · 0) <;> rfl

/-- An alias stands for what its target means in the global scope. -/
theorem resolveAlias_eq_bind (m : Model) (s : Scope) (name : String) :
    m.resolveAlias s name = (m.aliasTarget? s name).bind (m.resolveText .global) := by
  rw [resolveAlias_eq, aliasedType?, Option.bind_assoc]
  rfl

theorem resolveAlias_target {target : String} (h : m.aliasTarget? s name = some target) :
    m.resolveAlias s name = m.resolveText .global target := by
  rw [resolveAlias_eq_bind, h, Option.bind_some]

theorem read_plain (hname : isName name = true) :
    TypeExpr.read name = .ok
      (if name ∈ TypeExpr.keywords then .keyword name else .named none [] (.plain name)) := by
  split
  · rename_i hkeyword
    exact TypeExpr.read_print (t := .keyword name) hkeyword
  · rename_i hkeyword
    have hprint : (TypeExpr.named none [] (.plain name)).print = name := by
      simp [TypeExpr.print, Segment.printDotted, Segment.print]
    have hw : (TypeExpr.named none [] (.plain name)).WellFormed := by
      simp only [TypeExpr.WellFormed, Segment.AllWellFormed, Segment.WellFormed]
      exact ⟨nofun, trivial, hname, hkeyword⟩
    have hread := TypeExpr.read_print hw
    rwa [hprint] at hread

theorem read_verbatim (hname : isName name = true) :
    TypeExpr.read ("@" ++ name) = TypeExpr.read name := by
  refine TypeExpr.read_congr ?_
  have hverbatim := TypeToken.scan_verbatim_append hname TypeToken.breaks_nil
  have hplain := TypeToken.scan_name_append hname TypeToken.breaks_nil
  rw [List.append_nil] at hverbatim hplain
  rw [String.toList_append, hplain]
  exact hverbatim

/-- An alias for a type, where nothing near the scope has its name. -/
theorem resolveText_alias {target : String} {sym : Symbol} (hname : isName name = true)
    (halias : Using.aliasTarget? s.usings name = some target)
    (hsym : m.resolveText .global target = some sym)
    (hnear : ∀ n ∈ s.near name, m.type? n 0 = none) :
    m.resolveText s name =
      if name ∈ TypeExpr.keywords then Symbol.ofKeyword? name
      else some (((m.imports s name).findSome? (m.type? · 0)).elim sym (.ofKnown · [])) := by
  have htarget : m.aliasTarget? s name = some target := by
    rw [aliasTarget?, halias]
    rfl
  have hfound : (m.candidates s name).findSome? (m.type? · 0)
      = (m.imports s name).findSome? (m.type? · 0) := by
    rw [candidates_simple (not_mem_dot_of_isName hname), List.findSome?_append,
      List.findSome?_eq_none_iff.2 hnear, Option.none_or]
  rw [resolveText, read_plain hname]
  split
  · rw [Except.toOption, Option.bind_some, resolve, resolveWith]
  · rw [Except.toOption, Option.bind_some, resolve_plain, hfound, resolveAlias_target htarget, hsym]
    cases (m.imports s name).findSome? (m.type? · 0) <;> rfl

/-- A file with two aliases, the name of one being that of a type in `System`. -/
def clocks : SourceFile where
  path := "Clock.cs"
  usings := [⟨.space, "System", false⟩, ⟨.aliased "Instant", "System.DateTime", false⟩,
    ⟨.aliased "Guid", "System.DateTime", false⟩]
  types := [⟨"Clock", .class, some "App", [], 0, [], [], [], [], [], default⟩]
  damage := none

theorem resolveText_alias_instant :
    (build [clocks] []).resolveText ⟨some "App", ["Clock"], clocks.usings⟩ "Instant"
      = some ⟨"System.DateTime", some "System", false, false⟩ := by
  have hsym : (build [clocks] []).resolveText .global "System.DateTime"
      = some ⟨"System.DateTime", some "System", false, false⟩ := by
    decide +kernel
  have hnear : ∀ n ∈ Scope.near ⟨some "App", ["Clock"], clocks.usings⟩ "Instant",
      (build [clocks] []).type? n 0 = none := by
    decide +kernel
  have himports : ((build [clocks] []).imports ⟨some "App", ["Clock"], clocks.usings⟩
      "Instant").findSome? ((build [clocks] []).type? · 0) = none := by
    decide +kernel
  rw [resolveText_alias (by decide) (by decide) hsym hnear, himports, if_neg (by decide)]
  rfl

/-- Two aliases by names that a type expression does not have: an `@` is no part of a name there,
and neither is a combining mark. -/
def unreachable : SourceFile where
  path := "Event.cs"
  usings := [⟨.aliased "@event", "System.DateTime", false⟩,
    ⟨.aliased "Cafe\u0301", "System.DateTime", false⟩]
  types := [⟨"Clock", .class, some "App", [], 0, [], [], [], [], [], default⟩]
  damage := none

/-- The other alias is for the same type, and stands for what `System` has of its name. One whose
name no type expression has stands for nothing. -/
theorem resolveText_alias_guid :
    ((Using.aliasTarget? clocks.usings "Guid" = some "System.DateTime" ∧
        (clocks.usings.filter (·.isAlias "Guid")).length = 1) ∧
      (build [clocks] []).resolveText .global "System.DateTime"
        = some ⟨"System.DateTime", some "System", false, false⟩ ∧
      (∀ n ∈ Scope.near ⟨some "App", ["Clock"], clocks.usings⟩ "Guid",
        (build [clocks] []).type? n 0 = none) ∧
      (build [clocks] []).resolveText ⟨some "App", ["Clock"], clocks.usings⟩ "Guid"
        = some ⟨"System.Guid", some "System", false, false⟩) ∧
    ∀ name ∈ ["@event", "Cafe\u0301"], isName name = false ∧
      Using.aliasTarget? unreachable.usings name = some "System.DateTime" ∧
      (∀ n ∈ Scope.near ⟨some "App", ["Clock"], unreachable.usings⟩ name,
        (build [unreachable] []).type? n 0 = none) ∧
      (build [unreachable] []).imports ⟨some "App", ["Clock"], unreachable.usings⟩ name = [] ∧
      (build [unreachable] []).resolveText ⟨some "App", ["Clock"], unreachable.usings⟩ name
        = none := by
  have hread : TypeExpr.read "@event" = .ok (.named none [] (.plain "event")) :=
    (read_verbatim (show isName "event" = true by decide)).trans (read_plain (by decide))
  have hfound : ((build [unreachable] []).candidates ⟨some "App", ["Clock"], unreachable.usings⟩
      "event").findSome? ((build [unreachable] []).type? · 0) = none := by
    decide +kernel
  have halias : (build [unreachable] []).aliasTarget? ⟨some "App", ["Clock"], unreachable.usings⟩
      "event" = none := by
    decide +kernel
  have hevent : (build [unreachable] []).resolveText ⟨some "App", ["Clock"], unreachable.usings⟩
      "@event" = none := by
    rw [resolveText, hread, Except.toOption, Option.bind_some, resolve_plain, hfound,
      resolveAlias_eq_bind, halias]
    rfl
  have hcafe : (build [unreachable] []).resolveText ⟨some "App", ["Clock"], unreachable.usings⟩
      "Cafe\u0301" = none := by
    decide +kernel
  refine ⟨⟨by decide, ?_, ?_, ?_⟩, List.forall_mem_cons.2 ⟨⟨?_, ?_, ?_, ?_, hevent⟩,
    List.forall_mem_singleton.2 ⟨?_, ?_, ?_, ?_, hcafe⟩⟩⟩
  all_goals decide +kernel

end Model

end TaskWrappers
