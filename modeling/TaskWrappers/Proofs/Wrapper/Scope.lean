import TaskWrappers.Proofs.Resolution.Display
import TaskWrappers.Wrapper.Plan

/-!
# Names in the generated class

A name in the generated file is first looked up in the generated class and in the namespaces around
it, then as it is written, then in `System`. So a name in full is lost to a declaration such as
`Microsoft.System.Guid` and to nothing else (`Model.reaches_iff_unhidden`), and a simple name that
means a type of `System` also to one of the same name in the global namespace
(`Model.firstDeclared_simple_iff`).
-/

namespace TaskWrappers

open Text

namespace Plan

/-- The scope of the generated class's members. -/
def scope (p : Plan) : Scope :=
  ⟨some p.space, [p.className], p.usings.map fun target => ⟨.space, target, false⟩⟩

/-- The generated class and the namespaces around it, from the inside out. -/
def enclosing : List String :=
  ["Microsoft.DurableTask.GeneratedDurableTaskExtensions", "Microsoft.DurableTask", "Microsoft"]

theorem enclosing_build (mode : Mode) (tasks : TaskSet) (name : String) :
    (build mode tasks).scope.inTypes name ++ (build mode tasks).scope.inSpaces name
      = enclosing.map (· ++ "." ++ name) := by
  have htypes : Scope.dotted ["Microsoft.DurableTask", "GeneratedDurableTaskExtensions"]
      = "Microsoft.DurableTask.GeneratedDurableTaskExtensions" := by
    decide +kernel
  have hspaces : Scope.outward (dotParts "Microsoft.DurableTask")
      = [["Microsoft", "DurableTask"], ["Microsoft"]] := by
    decide +kernel
  have hspace : Scope.dotted ["Microsoft", "DurableTask"] = "Microsoft.DurableTask" := by
    decide +kernel
  have houter : Scope.dotted ["Microsoft"] = "Microsoft" := by decide +kernel
  simp only [build, scope, Scope.inTypes, Scope.inSpaces, generatedSpace, generatedClass, enclosing,
    hspaces, List.map_cons, List.map_nil, hspace, houter, ← htypes]
  rfl

theorem plain_scope (mode : Mode) (tasks : TaskSet) : (build mode tasks).scope.Plain := by
  have hall : ∀ mode : Mode, ∀ target ∈ baseUsings ++ inHost mode hostUsings,
      VerbatimNames target.toList := by
    intro mode
    cases mode <;> decide +kernel
  intro u hu
  obtain ⟨target, htarget, rfl⟩ := List.mem_map.1 hu
  exact hall mode target htarget

end Plan

namespace Model

open Plan (enclosing)
open TaskWrappers.Symbol (systemSpace)

variable {m : Model} {mode : Mode} {tasks : TaskSet} {name : String} {k : Nat} {t : KnownType}

/-- Whether nothing around the generated members hides a name in full. -/
def Unhidden (m : Model) (name : String) (k : Nat) : Prop :=
  ∀ e ∈ enclosing, m.type? (e ++ "." ++ name) k = none

theorem candidates_generated (m : Model) (mode : Mode) (tasks : TaskSet) (name : String) :
    enclosing.map (· ++ "." ++ name) ++ [name]
      <+: m.candidates (Plan.build mode tasks).scope name := by
  rw [← Plan.enclosing_build mode tasks, candidates]
  exact (List.prefix_append _ _).trans (List.prefix_append _ _)

/-- A name without dots is also looked up in `System`, right after the name as it is written. -/
theorem candidates_generated_simple (m : Model) (mode : Mode) (tasks : TaskSet)
    (hname : isName name = true) :
    enclosing.map (· ++ "." ++ name) ++ [name, systemSpace ++ "." ++ name]
      <+: m.candidates (Plan.build mode tasks).scope name := by
  have husings : m.usingsIn (Plan.build mode tasks).scope
      = ⟨.space, "System", false⟩ :: (m.usingsIn (Plan.build mode tasks).scope).tail := rfl
  rw [← Plan.enclosing_build mode tasks, candidates, cut?_eq_none (not_mem_dot_of_isName hname),
    husings, List.filterMap_cons]
  refine List.IsPrefix.trans ?_ (List.prefix_append _ _)
  rw [List.append_assoc _ [name]]
  exact (List.prefix_append_right_inj _).2 ⟨_, rfl⟩

/-- Whether the first declared type that a name may stand for is the one of the given full name. -/
def FirstDeclared (m : Model) (s : Scope) (name : String) (k : Nat) (fullName : String) : Prop :=
  (m.candidates s name).find? (fun c => (m.type? c k).isSome) = some fullName

theorem findSome?_eq_bind (f : String → Option KnownType) : ∀ names : List String,
    names.findSome? f = (names.find? fun n => (f n).isSome).bind f
  | [] => rfl
  | n :: ns => by
    rw [List.findSome?_cons, List.find?_cons]
    cases hf : f n with
    | none => exact findSome?_eq_bind f ns
    | some t => exact hf.symm

theorem firstDeclared_iff {s : Scope} (hknown : m.type? t.fullName k = some t) :
    m.FirstDeclared s name k t.fullName ↔ m.known? s none name k = some t := by
  simp only [FirstDeclared, known?, findSome?_eq_bind]
  constructor
  · intro h
    rw [h]
    exact hknown
  · intro h
    obtain ⟨c, hc, htype⟩ := Option.bind_eq_some_iff.1 h
    rw [hc, (type?_some htype).2.1]

theorem find?_append_cons_iff {p : String → Bool} {before rest : List String} {c : String}
    (hc : p c = true) (hnot : c ∉ before) :
    (before ++ c :: rest).find? p = some c ↔ ∀ b ∈ before, p b = false := by
  rw [List.find?_append, List.find?_cons_of_pos hc]
  constructor
  · intro h b hb
    cases hfound : before.find? p with
    | none => simpa using List.find?_eq_none.1 hfound b hb
    | some x =>
      rw [hfound, Option.some_or, Option.some.injEq] at h
      subst h
      exact absurd (List.mem_of_find?_eq_some hfound) hnot
  · intro h
    have hnone : before.find? p = none := by simpa using h
    rw [hnone, Option.none_or]

theorem not_mem_enclosing (name : String) : name ∉ enclosing.map (· ++ "." ++ name) := by
  intro h
  obtain ⟨e, -, heq⟩ := List.mem_map.1 h
  have hlen := congrArg String.length heq
  simp only [String.length_append] at hlen
  have : ".".length = 1 := rfl
  omega

/-- A name in full reaches its type from the generated class if nothing there hides it. -/
theorem reaches_iff_unhidden (hknown : m.type? name k = some t) :
    m.Reaches (Plan.build mode tasks).scope name k ↔ m.Unhidden name k := by
  obtain ⟨rest, hrest⟩ := candidates_generated m mode tasks name
  have hname := (type?_some hknown).2.1
  rw [Reaches, hknown, ← firstDeclared_iff (by rwa [hname]), hname, FirstDeclared, ← hrest,
    List.append_assoc, List.singleton_append,
    find?_append_cons_iff (by rw [hknown]; rfl) (not_mem_enclosing name)]
  simp [Unhidden]

/-- A simple name of a type in `System` keeps denoting it if neither the generated class, nor the
namespaces around it, nor the global namespace declare another type of this name. -/
theorem firstDeclared_simple_iff (hname : isName name = true)
    (hknown : m.type? (systemSpace ++ "." ++ name) k = some t) :
    m.FirstDeclared (Plan.build mode tasks).scope name k (systemSpace ++ "." ++ name) ↔
      m.Unhidden name k ∧ m.type? name k = none := by
  obtain ⟨rest, hrest⟩ := candidates_generated_simple m mode tasks hname
  have hnot : systemSpace ++ "." ++ name ∉ enclosing.map (· ++ "." ++ name) ++ [name] := by
    rw [List.mem_append, List.mem_map, List.mem_singleton]
    rintro (⟨e, he, heq⟩ | heq)
    · have hall : ∀ e ∈ enclosing, e ++ "." ≠ systemSpace ++ "." := by decide
      exact hall e he ((String.append_left_inj name).1 heq)
    · have hlen := congrArg String.length heq
      rw [String.length_append] at hlen
      have : (systemSpace ++ ".").length = 7 := rfl
      omega
  have hsplit : m.candidates (Plan.build mode tasks).scope name
      = (enclosing.map (· ++ "." ++ name) ++ [name]) ++ (systemSpace ++ "." ++ name) :: rest := by
    rw [← hrest, List.append_assoc, List.append_assoc]
    rfl
  rw [FirstDeclared, hsplit, find?_append_cons_iff (by rw [hknown]; rfl) hnot]
  simp only [List.forall_mem_append, List.forall_mem_map, List.forall_mem_singleton, Unhidden,
    Option.isSome_eq_false_iff, Option.isNone_iff_eq_none]

end Model

namespace Canonical

variable {m : Model} {mode : Mode} {tasks : TaskSet} {t : TypeExpr} {sym : Symbol}

theorem reaches_iff_unhidden (h : Canonical m t sym) :
    t.AllNames (m.Reaches (Plan.build mode tasks).scope) ↔ t.AllNames m.Unhidden := by
  induction h with
  | keyword _ => rw [TypeExpr.AllNames, TypeExpr.AllNames]
  | known _ hknown _ _ ih =>
    rw [TypeExpr.allNames_ofPath, TypeExpr.allNames_ofPath, Model.reaches_iff_unhidden hknown]
    exact and_congr_right fun _ => forall_congr' fun a => forall_congr' fun ha => ih a ha
  | nullable _ _ ih => rwa [TypeExpr.AllNames, TypeExpr.AllNames]
  | array _ _ ih => rwa [TypeExpr.AllNames, TypeExpr.AllNames]
  | tuple _ _ ih =>
    rw [TypeExpr.allNames_tuple, TypeExpr.allNames_tuple]
    exact forall_congr' fun e => forall_congr' fun he => ih e he

end Canonical

end TaskWrappers
