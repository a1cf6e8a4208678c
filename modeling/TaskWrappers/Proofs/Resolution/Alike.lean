import TaskWrappers.Outcome
import TaskWrappers.Proofs.Resolution.Agree
import TaskWrappers.Proofs.Resolution.Cycle

/-!
# What resolution depends on

Of a model, types are resolved by what its lookup of types finds, by its global directives and by
its implicit namespaces, and by nothing else (`Model.SameTypes.resolve_eq`); how deeply aliases nest
is settled by the same (`Model.SameTypes.resolveWithin_eq`). Constant expressions depend on the
values of the constants that are found as well (`Model.SameTypes.valueWithin_eq`), and descriptions
of candidates on both (`Model.Same.describe_eq`).
-/

namespace TaskWrappers

namespace Model

/-- Models in which all names stand for the same types. -/
structure SameTypes (m m' : Model) : Prop where
  type? : ∀ fullName arity, m.type? fullName arity = m'.type? fullName arity
  globalUsings : m.globalUsings = m'.globalUsings
  implicitSpaces : m.implicitSpaces = m'.implicitSpaces

/-- Models in which all references have the same meaning. -/
structure Same (m m' : Model) : Prop extends SameTypes m m' where
  constantValue : ∀ s expression, m.constantValue s expression = m'.constantValue s expression

/-- Models in which every name finds the same constant, or constants with the same values as deep as
references are followed. -/
def SameConstants (m m' : Model) : Prop :=
  ∀ fullName, Option.Rel
    (fun c c' => c = c' ∨ ∀ n ≤ ConstantExpr.maxDepth, ConstantExpr.valueWithin m n c.scope c.value
      = ConstantExpr.valueWithin m' n c'.scope c'.value)
    (m.constant? fullName) (m'.constant? fullName)

namespace SameTypes

variable {m m' : Model} (h : SameTypes m m') {s : Scope}

include h

/-- They agree on all names, whatever their ends. -/
theorem agreeOn : AgreeOn (fun _ => True) m m' :=
  ⟨fun name arity _ => h.type? name arity, h.globalUsings, h.implicitSpaces⟩

theorem candidates_eq (name : String) : m.candidates s name = m'.candidates s name :=
  h.agreeOn.candidates_eq name

theorem inquire_eq (type : TypeExpr) : m.inquire s type = m'.inquire s type :=
  h.agreeOn.inquire_eq fun _ _ => trivial

theorem aliasedType?_eq (name : String) : m.aliasedType? s name = m'.aliasedType? s name := by
  rw [aliasedType?, aliasedType?, h.agreeOn.aliasTarget?_eq]

theorem resolve_eq (type : TypeExpr) : m.resolve s type = m'.resolve s type :=
  h.agreeOn.resolve_eq (fun _ _ _ _ _ _ => trivial) (fun _ _ _ _ _ _ => trivial)
    fun _ _ => trivial

theorem resolveWithin_eq (n : Nat) (type : TypeExpr) :
    m.resolveWithin n s type = m'.resolveWithin n s type := by
  induction n generalizing s type with
  | zero => rfl
  | succ n ih =>
    rw [resolveWithin, resolveWithin, h.inquire_eq]
    simp only [h.aliasedType?_eq, funext ih]

theorem ofArguments_eq (args : List (Option TypeExpr)) :
    Payload.ofArguments m s args = Payload.ofArguments m' s args := by
  rw [Payload.ofArguments, Payload.ofArguments, funext h.resolve_eq]

omit h in
theorem sameConstants_of_eq (hconstant : ∀ fullName, m.constant? fullName = m'.constant? fullName) :
    SameConstants m m' := by
  intro fullName
  rw [hconstant]
  cases m'.constant? fullName with
  | none => exact .none
  | some c => exact .some (.inl rfl)

/-- An expression depends on constants through their values only. -/
theorem valueWithin_eq (hconstants : SameConstants m m') {n : Nat}
    (hn : n ≤ ConstantExpr.maxDepth + 1) (expression : String) :
    ConstantExpr.valueWithin m n s expression = ConstantExpr.valueWithin m' n s expression := by
  induction n generalizing s expression with
  | zero => rfl
  | succ n ih =>
    have hdeep : n ≤ ConstantExpr.maxDepth := Nat.le_of_succ_le_succ hn
    rw [ConstantExpr.valueWithin, ConstantExpr.valueWithin]
    refine congrArg (ConstantExpr.value? · expression) (funext fun path => ?_)
    rw [h.candidates_eq]
    induction m'.candidates s path with
    | nil => rfl
    | cons name names ihnames =>
      rw [List.findSome?_cons, List.findSome?_cons]
      have hname := hconstants name
      cases hc : m.constant? name with
      | none =>
        rw [hc] at hname
        cases hc' : m'.constant? name with
        | none => exact ihnames
        | some c' =>
          rw [hc'] at hname
          cases hname
      | some c =>
        rw [hc] at hname
        cases hc' : m'.constant? name with
        | none =>
          rw [hc'] at hname
          cases hname
        | some c' =>
          rw [hc'] at hname
          cases hname with
          | some hsame =>
            rcases hsame with rfl | hvalues
            · exact ih (Nat.le_succ_of_le hdeep) c.value
            · exact hvalues n hdeep

theorem same (hconstants : SameConstants m m') : Same m m' :=
  ⟨h, fun _ expression => h.valueWithin_eq hconstants (Nat.le_refl _) expression⟩

end SameTypes

namespace Same

variable {m m' : Model} (h : Same m m')

include h

theorem describe_eq (c : Candidate) : c.describe m = c.describe m' := by
  cases c with
  | task kind file decl args =>
    simp only [Candidate.describe, TaskName.resolve, TaskName.ofArgument, h.constantValue,
      h.ofArguments_eq]
  | function file decl method marker trigger =>
    simp only [Candidate.describe, TaskName.resolve, TaskName.ofArgument, h.constantValue]

theorem run_eq (modules : List String) (cs : List Candidate) :
    Outcome.run m modules cs = Outcome.run m' modules cs := by
  simp only [Outcome.run, h.describe_eq]

end Same

end Model

end TaskWrappers
