import TaskWrappers.Outcome
import TaskWrappers.Proofs.Naming

/-!
# The parts of a set of tasks

Described candidates are sorted into orchestrators, activity classes and activity functions, each
part in their order (`TaskSet.members_ofDescribed`), and names are given out part by part. What
becomes of each member of a part is its judgement (`TaskSet.judged`): the tasks that are kept and
the warnings are those of the judgements (`TaskSet.members_validate`, `TaskSet.validate_snd`).
Activity classes and functions are judged like one list, all classes before any function
(`TaskSet.judged_append`).
-/

namespace TaskWrappers

inductive Part where
  | orchestrators
  | activities
  | functions
  deriving DecidableEq

namespace Part

def all : List Part := [orchestrators, activities, functions]

/-- The kind whose names the members of a part use. -/
def kind : Part → TaskKind
  | orchestrators => .orchestrator
  | activities => .activity
  | functions => .activity

end Part

namespace Described

def part : Described → Part
  | task t =>
    match t.kind with
    | .orchestrator => .orchestrators
    | .activity => .activities
  | function _ => .functions

def kind (d : Described) : TaskKind := d.part.kind

end Described

theorem filterMap_admitted?_sublist {α : Type} : ∀ rows : List (α × Option Warning),
    (rows.filterMap admitted?).Sublist (rows.map (·.1))
  | [] => .slnil
  | (a, none) :: rows => (filterMap_admitted?_sublist rows).cons_cons a
  | (a, some _) :: rows => (filterMap_admitted?_sublist rows).cons a

namespace TaskSet

def members (t : TaskSet) : Part → List Described
  | .orchestrators => t.orchestrators.map .task
  | .activities => t.activities.map .task
  | .functions => t.functions.map .function

/-- The tasks that are called as activities, classes first. -/
def calls (t : TaskSet) : List Described := t.members .activities ++ t.members .functions

theorem members_ofDescribed (ds : List Described) (p : Part) :
    (ofDescribed ds).members p = ds.filter (·.part = p) := by
  induction ds with
  | nil => cases p <;> rfl
  | cons d ds ih =>
    rw [List.filter_cons, ← ih]
    cases d with
    | function f => cases p <;> rfl
    | task t =>
      cases hkind : t.kind <;> cases p <;>
        simp [ofDescribed, members, Described.part, hkind]

theorem eq_of_members {t u : TaskSet} (h : ∀ p, t.members p = u.members p) : t = u := by
  have htask : ∀ a b, Described.task a = .task b → a = b := fun _ _ heq => Described.task.inj heq
  have hfunction : ∀ a b, Described.function a = .function b → a = b :=
    fun _ _ heq => Described.function.inj heq
  have horchestrators := (List.map_inj_right htask).1 (h .orchestrators)
  have hactivities := (List.map_inj_right htask).1 (h .activities)
  have hfunctions := (List.map_inj_right hfunction).1 (h .functions)
  cases t
  cases u
  simp only [mk.injEq]
  exact ⟨horchestrators, hactivities, hfunctions⟩

/-- The members of a part, each with the warning that refuses it its name, if one does. -/
def judged (t : TaskSet) : Part → List (Described × Option Warning)
  | .orchestrators =>
    judge .orchestrator Described.name Described.declaration [] (t.members .orchestrators)
  | .activities => judge .activity Described.name Described.declaration [] (t.members .activities)
  | .functions =>
    judge .activity Described.name Described.declaration
      (keep .activity Described.name Described.declaration [] (t.members .activities)).2.1
      (t.members .functions)

variable (t : TaskSet)

theorem map_fst_judged (p : Part) : (t.judged p).map (·.1) = t.members p := by
  cases p
  all_goals exact map_fst_judge _ _

theorem judged_append :
    t.judged .activities ++ t.judged .functions
      = judge .activity Described.name Described.declaration [] t.calls :=
  (judge_append _ _ _).symm

theorem refuses_of_mem_judged {p : Part} {d : Described} {w : Warning}
    (h : (d, some w) ∈ t.judged p) : w.Refuses p.kind d.name d.declaration := by
  cases p
  all_goals exact refuses_of_mem_judge h

theorem invalid_of_mem_judged {p : Part} {row : Described × Option Warning}
    (h : row ∈ t.judged p) (hname : isIdentifier row.1.name = false) :
    row.2 = some (.invalidName row.1.name row.1.declaration) := by
  cases p
  all_goals exact invalid_of_mem_judge h hname

theorem members_validate (p : Part) :
    t.validate.1.members p = (t.judged p).filterMap admitted? := by
  cases p
  · rw [judged, ← keep_fst, members, members, keep_map]
    rfl
  · rw [judged, ← keep_fst, members, members, keep_map]
    rfl
  · rw [judged, ← keep_fst, members, members, members, keep_map, keep_map]
    rfl

theorem members_validate_sublist (p : Part) :
    (t.validate.1.members p).Sublist (t.members p) := by
  rw [members_validate, ← map_fst_judged]
  exact filterMap_admitted?_sublist _

theorem validate_snd : t.validate.2 = Part.all.flatMap fun p => (t.judged p).filterMap (·.2) := by
  simp only [Part.all, List.flatMap_cons, List.flatMap_nil, List.append_nil]
  rw [judged, judged, judged, ← keep_warnings, ← keep_warnings, ← keep_warnings, members, members,
    members, keep_map, keep_map, keep_map, ← List.append_assoc]
  rfl

end TaskSet

end TaskWrappers
