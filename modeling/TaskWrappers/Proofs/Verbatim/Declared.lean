import TaskWrappers.Proofs.Resolution.Described
import TaskWrappers.Proofs.Verbatim.Reference

/-!
# Declarations written verbatim

A reference loses the `@` of its names, a declaration keeps it. So no reference ends in a name with
an `@`, and types and constants that are declared under one are found by none, as if they were not
known (`Model.resolveText_withoutVerbatim`, `Model.constantValue_withoutVerbatim`). Nor can such a
name be a task's. So verbatim names change nothing in references, and in declarations they lose
what is declared (`Outcome.run_verbatim`).
-/

namespace TaskWrappers

open Text

namespace Model

/-- The model without the types and constants that are declared under verbatim names. -/
def withoutVerbatim (m : Model) : Model :=
  { m with
    types := m.types.filter fun t => '@' ∉ (lastPart t.fullName).toList
    constants := m.constants.filter fun c => '@' ∉ (lastPart c.fullName).toList }

theorem agreeOnAll_withoutVerbatim (m : Model) :
    m.AgreeOnAll (fun name => '@' ∉ name.toList) m.withoutVerbatim where
  type? fullName arity hname := by
    rw [type?, type?, withoutVerbatim, List.find?_filter]
    refine congrArg (List.find? · _) (funext fun t => ?_)
    rw [Bool.eq_iff_iff]
    by_cases ht : t.fullName = fullName
    · simp [ht, hname]
    · simp [ht]
  constant? fullName hname := by
    rw [constant?, constant?, withoutVerbatim, List.find?_filter]
    refine congrArg (List.find? · _) (funext fun c => ?_)
    by_cases hc : c.fullName = fullName
    · simp [hc, hname]
    · simp [hc]
  globalUsings := rfl
  implicitSpaces := rfl

end Model

theorem Text.not_mem_at_of_isNameRest {word : String}
    (h : ∀ c ∈ word.toList, isNameRest c = true) : '@' ∉ (lastPart word).toList := by
  rw [lastPart_of_isNameRest h]
  exact fun hat => absurd (h '@' hat) (by decide)

/-- No word of a type has an `@`. -/
theorem TypeExpr.textWordsEnd_plain (text : String) :
    TextWordsEnd (fun name => '@' ∉ name.toList) text :=
  fun _ hts _ hword => not_mem_at_of_isNameRest (TypeToken.isNameRest_of_mem_scan hts hword)

theorem ConstantExpr.textWordsEnd_plain (expression : String) :
    TextWordsEnd (fun name => '@' ∉ name.toList) expression :=
  fun _ hts _ hword => not_mem_at_of_isNameRest (ConstantToken.isNameRest_of_mem_scan hts hword)

namespace Model

variable (m : Model) (s : Scope)

theorem resolveText_withoutVerbatim (text : String) :
    m.resolveText s text = m.withoutVerbatim.resolveText s text := by
  rw [resolveText, resolveText]
  cases hread : TypeExpr.read text with
  | error => rfl
  | ok type =>
    have hwords := (TypeExpr.textWordsEnd_plain text).read hread
    exact m.agreeOnAll_withoutVerbatim.resolve_eq (fun u _ => TypeExpr.textWordsEnd_plain u.target)
      (fun u _ => TypeExpr.textWordsEnd_plain u.target) hwords

theorem constantValue_withoutVerbatim (expression : String) :
    m.constantValue s expression = m.withoutVerbatim.constantValue s expression :=
  m.agreeOnAll_withoutVerbatim.constantValue_eq (fun c _ => ConstantExpr.textWordsEnd_plain c.value)
    (ConstantExpr.textWordsEnd_plain expression)

end Model

theorem isIdentifier_of_mem_at {name : String} (h : '@' ∈ name.toList) :
    isIdentifier name = false := by
  rw [Bool.eq_false_iff]
  exact fun hname => not_mem_of_isName (isName_of_isIdentifier hname) (by decide) h

namespace Outcome

/-- In references names may be written verbatim or not. What is declared under a verbatim name is
found by no reference and counts for nothing, and no task is called by one. -/
theorem run_verbatim (files : List SourceFile) (implicitSpaces modules : List String) :
    (∀ files', List.Forall₂ SourceFile.SameWords files files' →
      (run (.build files implicitSpaces) modules (Candidate.scan files)).SameWords
        (run (.build files' implicitSpaces) modules (Candidate.scan files'))) ∧
    (∀ s text, (Model.build files implicitSpaces).resolveText s text
        = (Model.build files implicitSpaces).withoutVerbatim.resolveText s text ∧
      (Model.build files implicitSpaces).constantValue s text
        = (Model.build files implicitSpaces).withoutVerbatim.constantValue s text) ∧
    run (.build files implicitSpaces) modules (Candidate.scan files)
      = run (Model.build files implicitSpaces).withoutVerbatim modules (Candidate.scan files) ∧
    ∀ c ∈ Candidate.scan files, '@' ∈ (c.calledName (.build files implicitSpaces)).toList →
      .invalidName (c.calledName (.build files implicitSpaces)) c.declaration
          ∈ (run (.build files implicitSpaces) modules (Candidate.scan files)).warnings ∧
        ∀ p, ∀ d ∈
            (run (.build files implicitSpaces) modules (Candidate.scan files)).tasks.members p,
          d.name ≠ c.calledName (.build files implicitSpaces) := by
  refine ⟨fun files' h => run_of_sameWords h implicitSpaces modules, fun s text => ⟨?_, ?_⟩, ?_,
    fun c hc hat => ?_⟩
  · exact Model.resolveText_withoutVerbatim _ s text
  · exact Model.constantValue_withoutVerbatim _ s text
  · refine run_eq_of_agreeOnAll (fun f _ => ⟨?_, ?_⟩) (Model.agreeOnAll_withoutVerbatim _) modules
    · exact fun text _ => TypeExpr.textWordsEnd_plain text
    · exact fun expression _ => ConstantExpr.textWordsEnd_plain expression
  · exact invalid_run _ modules _ hc (isIdentifier_of_mem_at hat)

/-- A file with one activity, which is named by its class. -/
def classFile (name : String) : SourceFile where
  path := "Ship.cs"
  usings := []
  types := [⟨name, .class, some "App", [], 0, [], [], ["TaskActivity<int, string>"], [], [],
    default⟩]
  damage := none

/-- The class is a task, but not if its name is written verbatim. -/
theorem run_verbatim_ship :
    (run (.build [classFile "Ship"] []) [] (Candidate.scan [classFile "Ship"])).tasks.activities.map
        (·.name) = ["Ship"] ∧
      (run (.build [classFile "@Ship"] []) []
        (Candidate.scan [classFile "@Ship"])).tasks.activities = [] ∧
      (run (.build [classFile "@Ship"] []) [] (Candidate.scan [classFile "@Ship"])).warnings
        = [.invalidName "@Ship" "App.@Ship"] := by
  decide +kernel

end Outcome

end TaskWrappers
