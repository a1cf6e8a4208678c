import TaskWrappers.Proofs.Resolution.Canonical

/-!
# Names behind an alias

Behind an alias of the file itself a name stands for what it stands for behind `global::` and the
alias's target. The aliases of the pass are not asked there, though a name alone and the first part
of a dotted one may be such an alias: behind one of these no name stands for anything, so it has its
meaning in full only where that is nothing as well (`Model.resolve_qualified_iff`).
-/

namespace TaskWrappers

open Text

/-- The reference in full to what a namespace has under a name. -/
def TypeExpr.inSpace (space : String) (outer : List Segment) (last : Segment) : TypeExpr :=
  .named (some globalQualifier) ((dotParts space).map .plain ++ outer) last

theorem TypeExpr.dotted_inSpace (space : String) (outer : List Segment) (last : Segment) :
    Scope.dotted (((dotParts space).map Segment.plain ++ outer ++ [last]).map Segment.name)
      = space ++ "." ++ Scope.dotted ((outer ++ [last]).map Segment.name) := by
  rw [List.append_assoc, List.map_append, Segment.map_name_plain, Scope.dotted,
    String.intercalate_append_of_ne_nil (dotParts_ne_nil space) (by simp)]
  exact congrArg (· ++ "." ++ _) (dotted_dotParts space)

namespace Model

variable {m : Model} {s : Scope} {word target : String}

theorem known?_qualified (hglobal : word ≠ TypeExpr.globalQualifier) (name : String) (k : Nat) :
    m.known? s (some word) name k
      = (Using.aliasTarget? s.usings word).bind fun target =>
          m.known? s (some TypeExpr.globalQualifier) (target ++ "." ++ name) k := by
  simp only [known?, if_neg hglobal, if_pos]

/-- An alias that the scope's file has is as good as its target in full. -/
theorem resolve_qualified (hglobal : word ≠ TypeExpr.globalQualifier)
    (hown : Using.aliasTarget? s.usings word = some target) (outer : List Segment)
    (last : Segment) :
    m.resolve s (.named (some word) outer last) = m.resolve s (.inSpace target outer last) := by
  rw [resolve, resolve, TypeExpr.inSpace, resolveWith_named, resolveWith_named]
  refine congrArg _ (funext fun syms => ?_)
  rw [named, named, TypeExpr.dotted_inSpace, known?_qualified hglobal, hown, Option.bind_some,
    List.any_append, Segment.any_isGeneric_plain, Bool.false_or]
  rfl

theorem resolve_qualified_eq_none (hglobal : word ≠ TypeExpr.globalQualifier)
    (hown : Using.aliasTarget? s.usings word = none) (outer : List Segment) (last : Segment) :
    m.resolve s (.named (some word) outer last) = none := by
  rw [resolve, resolveWith_named, Option.bind_eq_none_iff]
  intro syms _
  rw [named, known?_qualified hglobal, hown]
  split <;> rfl

/-- Behind an alias in force a name means what it means in full behind the alias's target, if the
file of the reference has the alias; and where it means something in full, only then. -/
theorem resolve_qualified_iff (hglobal : word ≠ TypeExpr.globalQualifier)
    (halias : m.aliasTarget? s word = some target) (outer : List Segment) (last : Segment) :
    ((Using.aliasTarget? s.usings word).isSome →
      m.resolve s (.named (some word) outer last) = m.resolve s (.inSpace target outer last)) ∧
    ∀ sym, m.resolve s (.inSpace target outer last) = some sym →
      (m.resolve s (.named (some word) outer last) = some sym
        ↔ (Using.aliasTarget? s.usings word).isSome) := by
  cases hown : Using.aliasTarget? s.usings word with
  | none =>
    refine ⟨nofun, fun sym _ => ?_⟩
    rw [resolve_qualified_eq_none hglobal hown]
    exact iff_of_false nofun nofun
  | some own =>
    rw [aliasTarget?, hown] at halias
    cases halias
    have heq := resolve_qualified (m := m) hglobal hown outer last
    exact ⟨fun _ => heq, fun sym hsym => iff_of_true (heq.trans hsym) rfl⟩

/-- A namespace with an alias for the whole pass and another one in the file of a class. -/
def orders : List SourceFile :=
  [⟨"Usings.cs", [⟨.aliased "Models", "App.Models", true⟩], [], none⟩,
    ⟨"Orders.cs", [],
      [⟨"Order", .class, some "App.Models", [], 0, [], [], [], [], [], default⟩], none⟩,
    ⟨"Ship.cs", [⟨.aliased "Stock", "App.Models", false⟩],
      [⟨"Ship", .class, some "Shop", [], 0, [], [], [], [], [], default⟩], none⟩]

/-- Where the class stands. -/
def ship : Scope :=
  ⟨some "Shop", ["Ship"], [⟨.aliased "Stock", "App.Models", false⟩]⟩

theorem resolve_qualified_iff_orders :
    (build orders []).resolve ship (.named (some "Stock") [] (.plain "Order"))
        = some ⟨"App.Models.Order", some "App.Models", true, false⟩ ∧
      (build orders []).resolve ship (.named (some "Models") [] (.plain "Order"))
        ≠ some ⟨"App.Models.Order", some "App.Models", true, false⟩ := by
  have hfull : (build orders []).resolve ship (.inSpace "App.Models" [] (.plain "Order"))
      = some ⟨"App.Models.Order", some "App.Models", true, false⟩ := by
    decide
  have hstock : (build orders []).aliasTarget? ship "Stock" = some "App.Models" := by decide
  have hmodels : (build orders []).aliasTarget? ship "Models" = some "App.Models" := by
    decide
  constructor
  · exact ((resolve_qualified_iff (by decide) hstock [] (.plain "Order")).2 _ hfull).2 (by decide)
  · intro h
    have hown := ((resolve_qualified_iff (by decide) hmodels [] (.plain "Order")).2 _ hfull).1 h
    revert hown
    decide

/-- Of the pass's alias a dotted name finds the type, and one behind `::` does not. -/
theorem resolve_qualified_orders :
    (build orders []).aliasTarget? ship "Models" = some "App.Models" ∧
      (build orders []).resolveText ship "global::App.Models.Order"
        = some ⟨"App.Models.Order", some "App.Models", true, false⟩ ∧
      (build orders []).resolveText ship "Models.Order"
        = some ⟨"App.Models.Order", some "App.Models", true, false⟩ ∧
      (build orders []).resolveText ship "Models::Order" = none := by
  refine ⟨?_, ?_, ?_, ?_⟩
  · decide
  · decide +kernel
  · decide +kernel
  · decide +kernel

end Model

end TaskWrappers
