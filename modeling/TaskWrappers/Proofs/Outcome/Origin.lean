import TaskWrappers.Proofs.Outcome.Ledger

/-!
# Where names come from

Names are given out, and the artifact is made, without a look at where a name comes from and where
its task stands. So whatever is done to these in the descriptions of candidates is done to the tasks
of the outcome, and nothing else changes (`Outcome.run_of_mapOrigin`).
-/

namespace TaskWrappers

section Definitions

variable (f : NameSource → NameSource) (g : Span → Span)

def Task.mapOrigin (t : Task) : Task := { t with source := f t.source, span := g t.span }

def FunctionTask.mapOrigin (t : FunctionTask) : FunctionTask :=
  { t with source := f t.source, span := g t.span }

def TaskSet.mapOrigin (t : TaskSet) : TaskSet :=
  ⟨t.orchestrators.map (.mapOrigin f g), t.activities.map (.mapOrigin f g),
    t.functions.map (.mapOrigin f g)⟩

def Described.mapOrigin : Described → Described
  | task t => task (t.mapOrigin f g)
  | function t => function (t.mapOrigin f g)

end Definitions

variable {f : NameSource → NameSource} {g : Span → Span}

theorem Described.part_mapOrigin (d : Described) : (d.mapOrigin f g).part = d.part := by
  cases d <;> rfl

namespace TaskSet

theorem members_mapOrigin (t : TaskSet) (p : Part) :
    (t.mapOrigin f g).members p = (t.members p).map (.mapOrigin f g) := by
  cases p
  all_goals
    simp only [members, mapOrigin, List.map_map]
    rfl

theorem ofDescribed_mapOrigin (ds : List Described) :
    ofDescribed (ds.map (.mapOrigin f g)) = (ofDescribed ds).mapOrigin f g := by
  refine eq_of_members fun p => ?_
  rw [members_mapOrigin, members_ofDescribed, members_ofDescribed, List.filter_map]
  refine congrArg _ (List.filter_congr fun d _ => ?_)
  rw [Function.comp_apply, Described.part_mapOrigin]

theorem validate_mapOrigin (t : TaskSet) :
    (t.mapOrigin f g).validate = (t.validate.1.mapOrigin f g, t.validate.2) := by
  simp only [validate, mapOrigin, keep_map]
  rfl

end TaskSet

theorem Artifact.generate_mapOrigin (mode : Mode) (t : TaskSet) :
    generate mode (t.mapOrigin f g) = generate mode t := by
  have hempty : (t.mapOrigin f g).isEmpty = t.isEmpty := by
    simp only [TaskSet.isEmpty, TaskSet.size, TaskSet.mapOrigin, List.length_map]
  have hplan : Plan.build mode (t.mapOrigin f g) = Plan.build mode t := by
    have hclosing : Plan.closing mode (t.mapOrigin f g) = Plan.closing mode t := by
      simp only [Plan.closing, TaskSet.mapOrigin, List.isEmpty_map, List.map_map]
      rfl
    simp only [Plan.build, Plan.membersOf, hclosing]
    simp only [TaskSet.mapOrigin, List.map_map, List.flatMap_map]
    rfl
  rw [generate, generate, hempty, hplan]

/-- Passes whose descriptions are the same apart from where names come from have the same refusals
and the same artifact. -/
theorem Outcome.run_of_mapOrigin {m m' : Model} {cs cs' : List Candidate}
    (h : (TaskSet.ofDescribed (cs.map (·.describe m))).mapOrigin f g
      = (TaskSet.ofDescribed (cs'.map (·.describe m'))).mapOrigin f g) (modules : List String) :
    (run m modules cs).tasks.mapOrigin f g = (run m' modules cs').tasks.mapOrigin f g ∧
      (TaskSet.ofDescribed (cs.map (·.describe m))).validate.2
        = (TaskSet.ofDescribed (cs'.map (·.describe m'))).validate.2 ∧
      (run m modules cs).artifact = (run m' modules cs').artifact := by
  have hvalid := congrArg TaskSet.validate h
  rw [TaskSet.validate_mapOrigin, TaskSet.validate_mapOrigin] at hvalid
  obtain ⟨htasks, hwarnings⟩ := Prod.mk.inj hvalid
  have htasks : (run m modules cs).tasks.mapOrigin f g = (run m' modules cs').tasks.mapOrigin f g :=
    htasks
  refine ⟨htasks, hwarnings, ?_⟩
  change Artifact.generate _ (run m modules cs).tasks
    = Artifact.generate _ (run m' modules cs').tasks
  rw [← Artifact.generate_mapOrigin (f := f) (g := g), htasks, Artifact.generate_mapOrigin]

end TaskWrappers
