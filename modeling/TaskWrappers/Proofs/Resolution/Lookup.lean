import TaskWrappers.Proofs.Text.Split
import TaskWrappers.Proofs.TypeExpr.Path
import TaskWrappers.Symbol

/-!
# Looking types up

A known type is found under its own full name and number of parameters (`Model.type?_some`), and a
name that is written in full is one of its own candidates, so looking it up always finds something
(`Model.known?_ne_none`). Whether it finds the type of that full name is what `Model.Reaches` says;
from the global scope it always does (`Model.reaches_global`).

A name without dots may be declared near its scope or imported (`Model.candidates_simple`). Of a
dotted name only the first part is looked up, near the scope, in what is imported statically and
among the aliases, and the rest is put behind it (`Model.candidates_dotted`).
-/

namespace TaskWrappers

namespace Scope

/-- The names under which a type or namespace around a scope, or the global namespace, may declare a
name. -/
def near (s : Scope) (name : String) : List String :=
  s.inTypes name ++ s.inSpaces name ++ [name]

theorem near_dotted (s : Scope) (first rest : String) :
    s.near (first ++ "." ++ rest) = (s.near first).map (· ++ "." ++ rest) := by
  have hassoc (lead : String) :
      lead ++ "." ++ (first ++ "." ++ rest) = lead ++ "." ++ first ++ "." ++ rest := by
    simp only [String.append_assoc]
  unfold near inTypes inSpaces
  cases s.space <;>
    simp only [hassoc, List.map_append, List.map_map, Function.comp_def, List.map_nil,
      List.map_cons]

end Scope

namespace Model

variable {m : Model} {s : Scope} {name : String} {k : Nat} {t : KnownType}

theorem type?_some (h : m.type? name k = some t) :
    t ∈ m.types ∧ t.fullName = name ∧ t.arity = k := by
  refine ⟨List.mem_of_find?_eq_some h, ?_⟩
  have := List.find?_some h
  simpa using this

/-- A found type is found again under its own full name. -/
theorem type?_self (h : m.type? name k = some t) : m.type? t.fullName k = some t := by
  rwa [(type?_some h).2.1]

theorem mem_candidates (m : Model) (s : Scope) (name : String) : name ∈ m.candidates s name := by
  simp [candidates]

theorem known?_ne_none (h : m.type? name k = some t) : m.known? s none name k ≠ none := by
  intro hnone
  have := List.findSome?_eq_none_iff.1 hnone name (mem_candidates m s name)
  rw [h] at this
  cases this

/-- All types that are looked up are found under some full name of theirs. -/
theorem type?_of_known? {qualifier : Option String} (h : m.known? s qualifier name k = some t) :
    m.type? t.fullName k = some t := by
  unfold known? at h
  split at h
  · obtain ⟨_, _, hc⟩ := List.exists_of_findSome?_eq_some h
    exact type?_self hc
  · split at h
    · exact type?_self h
    · obtain ⟨_, _, hc⟩ := Option.bind_eq_some_iff.1 h
      exact type?_self hc

/-- Whether a full name denotes the type of that full name, and no other, in a scope. -/
def Reaches (m : Model) (s : Scope) (name : String) (k : Nat) : Prop :=
  m.known? s none name k = m.type? name k

theorem candidates_global (m : Model) (name : String) :
    (m.candidates .global name).head? = some name := by
  simp [candidates, Scope.inTypes, Scope.inSpaces, Scope.outward, Scope.global]

theorem reaches_global (h : m.type? name k = some t) : m.Reaches .global name k := by
  obtain ⟨rest, hrest⟩ := List.head?_eq_some_iff.1 (candidates_global m name)
  simp only [Reaches, known?, hrest, List.findSome?_cons, h]

/-- An alias is what the first directive in force makes of its name. -/
theorem aliasTarget?_eq (m : Model) (s : Scope) (name : String) :
    m.aliasTarget? s name = Using.aliasTarget? (m.usingsIn s) name := by
  rw [aliasTarget?, usingsIn, Using.aliasTarget?, Using.aliasTarget?, Using.aliasTarget?,
    List.find?_append]
  cases s.usings.find? (·.isAlias name) <;> rfl

/-- The names under which the imports in force in a scope may offer a name without dots. -/
def imports (m : Model) (s : Scope) (name : String) : List String :=
  (m.usingsIn s).filterMap (imported? name true) ++ m.implicitSpaces.map (· ++ "." ++ name)

/-- What the first part of a dotted name may stand for. -/
def heads (m : Model) (s : Scope) (first : String) : List String :=
  s.near first ++ (m.usingsIn s).filterMap (imported? first false)
    ++ ((m.usingsIn s).filter (·.isAlias first)).map (·.target)

theorem candidates_simple (h : '.' ∉ name.toList) :
    m.candidates s name = s.near name ++ m.imports s name := by
  rw [candidates, Text.cut?_eq_none h, List.append_assoc]
  rfl

theorem imported?_dotted (first rest : String) (u : Using) :
    imported? (first ++ "." ++ rest) false u
      = (imported? first false u).map (· ++ "." ++ rest) := by
  unfold imported?
  split
  · rfl
  · simp only [Option.map_some, String.append_assoc]
  · rfl

theorem candidates_dotted {first : String} (h : '.' ∉ first.toList) (rest : String) :
    m.candidates s (first ++ "." ++ rest) = (m.heads s first).map (· ++ "." ++ rest) := by
  have hdot : (first ++ "." ++ rest).toList = first.toList ++ '.' :: rest.toList := by
    simp [String.toList_append]
  rw [candidates, hdot, Text.cut?_append_cons h]
  simp only [Option.isNone_some, String.ofList_toList]
  have hnear := s.near_dotted first rest
  rw [Scope.near] at hnear
  rw [hnear, heads, List.map_append, List.map_append, List.map_filterMap, List.map_map,
    funext (imported?_dotted first rest)]
  rfl

end Model

end TaskWrappers
