import TaskWrappers.Outcome
import TaskWrappers.Proofs.Naming
import TaskWrappers.Proofs.Wrapper.Call

/-!
# The members of the generated class

Each wrapper has a role and is made for one task. The wrappers of a role that are made for a name
are those that the tasks of that name ask for (`Plan.wrappers_build`), and a pass keeps each name
once in each list (`TaskSet.named_validate`). So every task that a pass keeps has its wrappers
exactly once and no other wrapper is there (`Outcome.emits_run`). Each wrapper that calls its task
has a text of its own in the file, and there the call is keyed by the task's name.
-/

namespace TaskWrappers

/-- What a wrapper does for its task. -/
inductive Role where
  | «instance»
  | orchestratorTrigger
  | schedule
  | subOrchestration
  | activityCall
  | activityTrigger
  | functionCall
  deriving DecidableEq

namespace Member

/-- The role of a wrapper and the task it is made for. -/
def role? : Member → Option (Role × String)
  | .instance task _ => some (.instance, task)
  | orchestratorTrigger task .. => some (.orchestratorTrigger, task)
  | schedule task _ => some (.schedule, task)
  | subOrchestration task .. => some (.subOrchestration, task)
  | activityCall task .. => some (.activityCall, task)
  | activityTrigger task .. => some (.activityTrigger, task)
  | functionCall task .. => some (.functionCall, task)
  | adapter => none
  | registration .. => none

end Member

namespace Role

/-- Whether only a host needs the role. -/
def isHosted : Role → Bool
  | .instance | orchestratorTrigger | activityTrigger => true
  | _ => false

/-- Whether a wrapper of the role calls its task, by a string. -/
def isCall : Role → Bool
  | .instance | orchestratorTrigger => false
  | _ => true

/-- The tasks that can have the role, by name. -/
def names (t : TaskSet) : Role → List String
  | .instance | orchestratorTrigger | schedule | subOrchestration => t.orchestrators.map (·.name)
  | activityCall | activityTrigger => t.activities.map (·.name)
  | functionCall => t.functions.map (·.name)

open Plan

def ofOrchestrator (mode : Mode) (o : Task) : Role → List Member
  | .instance => inHost mode [.instance o.name o.declaration]
  | orchestratorTrigger => inHost mode [.orchestratorTrigger o.name o.input o.output]
  | schedule => [.schedule o.name o.inputDefault]
  | subOrchestration => [.subOrchestration o.name o.inputDefault o.output]
  | _ => []

def ofActivity (mode : Mode) (a : Task) : Role → List Member
  | activityCall => [.activityCall a.name a.input a.output]
  | activityTrigger => inHost mode [.activityTrigger a.name a.declaration a.inputDefault a.output]
  | _ => []

def ofFunction (f : FunctionTask) : Role → List Member
  | functionCall => [.functionCall f.name f.input f.result]
  | _ => []

end Role

theorem Member.exists_call?_of_role? {x : Member} {r : Role} {n : String}
    (hrole : x.role? = some (r, n)) (hcall : r.isCall = true) :
    ∃ c, x.call? = some c ∧ c.task = n := by
  cases x with
  | «instance» | orchestratorTrigger =>
    cases hrole
    cases hcall
  | adapter | registration => cases hrole
  | schedule | subOrchestration | activityCall | activityTrigger | functionCall =>
    cases hrole
    exact ⟨_, rfl, rfl⟩

namespace Plan

/-- The wrappers of a role that are made for a name. -/
def wrappers (p : Plan) (r : Role) (n : String) : List Member :=
  p.members.filter (·.role? = some (r, n))

/-- That a plan has all wrappers of a set of tasks, each once and nothing else but what the mode
adds to them, and that each has its place in the text, keyed by its task. -/
structure Emits (p : Plan) (t : TaskSet) : Prop where
  orchestrator : ∀ o ∈ t.orchestrators,
    p.wrappers .schedule o.name = [.schedule o.name o.inputDefault] ∧
      p.wrappers .subOrchestration o.name
        = [.subOrchestration o.name o.inputDefault o.output] ∧
      p.wrappers .instance o.name = inHost p.mode [.instance o.name o.declaration] ∧
      p.wrappers .orchestratorTrigger o.name
        = inHost p.mode [.orchestratorTrigger o.name o.input o.output]
  activity : ∀ a ∈ t.activities,
    p.wrappers .activityCall a.name = [.activityCall a.name a.input a.output] ∧
      p.wrappers .activityTrigger a.name
        = inHost p.mode [.activityTrigger a.name a.declaration a.inputDefault a.output]
  function : ∀ f ∈ t.functions,
    p.wrappers .functionCall f.name = [.functionCall f.name f.input f.result]
  named : ∀ x ∈ p.members, ∀ r n, x.role? = some (r, n) → n ∈ r.names t
  hosted : ∀ x ∈ p.members, ∀ r n, x.role? = some (r, n) → r.isHosted = true →
    p.mode = .hostIntegrated
  adapter : p.members.count .adapter
    = if p.mode = .hostIntegrated ∧ t.activities ≠ [] then 1 else 0
  unregistered : p.mode = .hostIntegrated → ∀ os as, .registration os as ∉ p.members
  registered : p.mode = .standalone → ∃ before,
    p.members = before ++ [.registration (t.orchestrators.map (·.declaration))
      (t.activities.map (·.declaration))] ∧ ∀ os as, .registration os as ∉ before
  placed : ∀ before x after, p.members = before ++ x :: after →
    p.text = String.join (p.openingLines.map (· ++ "\n"))
      ++ String.join (before.map (memberText · ++ "\n")) ++ memberText x
      ++ String.join (after.map ("\n" ++ memberText ·))
      ++ String.join (closingLines.map (· ++ "\n"))
  keyed : ∀ x ∈ p.members, ∀ r n, x.role? = some (r, n) → r.isCall = true →
    ∃ c, x.call? = some c ∧ c.task = n ∧ c.Keyed (memberText x)

theorem filter_flatMap_named {α : Type} {name : α → String} {n : String} {p : Member → Bool}
    {f g : α → List Member} (h : ∀ a, (f a).filter p = if name a = n then g a else []) :
    ∀ as : List α, (as.flatMap f).filter p = (as.filter (name · = n)).flatMap g
  | [] => rfl
  | a :: as => by
    rw [List.flatMap_cons, List.filter_append, h, filter_flatMap_named h as]
    by_cases hn : name a = n
    · rw [if_pos hn, List.filter_cons_of_pos (by simpa using hn), List.flatMap_cons]
    · rw [if_neg hn, List.filter_cons_of_neg (by simpa using hn), List.nil_append]

section Build

variable (mode : Mode) (t : TaskSet) (r : Role) (n : String)

theorem inHost_map {α : Type} (f : α → Member) (as : List α) :
    inHost mode (as.map f) = as.flatMap fun a => inHost mode [f a] := by
  cases mode with
  | hostIntegrated => exact List.map_eq_flatMap
  | standalone => exact List.flatMap_eq_nil_iff.2 (fun _ _ => rfl) |>.symm

theorem filter_ofOrchestrator (o : Task) :
    (ofOrchestrator mode o).filter (·.role? = some (r, n))
      = if o.name = n then (if r = .instance then [] else r.ofOrchestrator mode o) else [] := by
  by_cases hn : o.name = n
  · cases mode <;> cases r <;> simp [ofOrchestrator, inHost, Member.role?, Role.ofOrchestrator, hn]
  · cases mode <;> cases r <;> simp [ofOrchestrator, inHost, Member.role?, hn]

theorem filter_instance (o : Task) :
    (inHost mode [.instance o.name o.declaration]).filter (·.role? = some (r, n))
      = if o.name = n then (if r = .instance then r.ofOrchestrator mode o else []) else [] := by
  by_cases hn : o.name = n
  · cases mode <;> cases r <;> simp [inHost, Member.role?, Role.ofOrchestrator, hn]
  · cases mode <;> cases r <;> simp [inHost, Member.role?, hn]

theorem filter_ofActivity (a : Task) :
    (ofActivity mode a).filter (·.role? = some (r, n))
      = if a.name = n then r.ofActivity mode a else [] := by
  by_cases hn : a.name = n
  · cases mode <;> cases r <;> simp [ofActivity, inHost, Member.role?, Role.ofActivity, hn]
  · cases mode <;> cases r <;> simp [ofActivity, inHost, Member.role?, hn]

theorem filter_ofFunction (f : FunctionTask) :
    [ofFunction f].filter (·.role? = some (r, n))
      = if f.name = n then r.ofFunction f else [] := by
  by_cases hn : f.name = n
  · cases r <;> simp [ofFunction, Member.role?, Role.ofFunction, hn]
  · cases r <;> simp [ofFunction, Member.role?, hn]

theorem filter_closing : (closing mode t).filter (·.role? = some (r, n)) = [] := by
  unfold closing
  split
  · split <;> rfl
  · rfl

/-- The wrappers of a role for a name are those of the tasks that have the name. -/
theorem wrappers_build :
    (build mode t).wrappers r n
      = (t.orchestrators.filter (·.name = n)).flatMap (r.ofOrchestrator mode)
        ++ (t.activities.filter (·.name = n)).flatMap (r.ofActivity mode)
        ++ (t.functions.filter (·.name = n)).flatMap r.ofFunction := by
  rw [wrappers, build, membersOf, inHost_map, List.map_eq_flatMap, List.filter_append,
    List.filter_append, List.filter_append, List.filter_append, filter_closing, List.append_nil,
    filter_flatMap_named (filter_instance mode r n),
    filter_flatMap_named (filter_ofOrchestrator mode r n),
    filter_flatMap_named (filter_ofActivity mode r n), filter_flatMap_named (filter_ofFunction r n)]
  congr 2
  -- the instances stand in front of all other wrappers, so one of the two lists is empty
  by_cases hr : r = .instance
  · simp [hr]
  · simp [hr]

end Build

end Plan

/-- That the tasks of each list have names of their own, which can be those of methods. -/
structure TaskSet.Named (t : TaskSet) : Prop where
  orchestrators : (t.orchestrators.map (·.name)).Nodup
  activities : (t.activities.map (·.name)).Nodup
  functions : (t.functions.map (·.name)).Nodup
  isName : ∀ r : Role, ∀ n ∈ r.names t, Text.isName n = true

theorem TaskSet.named_validate (t : TaskSet) : t.validate.1.Named where
  orchestrators := nodup_keep _ _
  activities := nodup_keep _ _
  functions := nodup_keep _ _
  isName r n hn := by
    cases r
    all_goals
      obtain ⟨a, ha, rfl⟩ := List.mem_map.1 hn
      exact isName_of_isIdentifier (isIdentifier_of_mem_keep ha)

theorem filter_eq_singleton {α : Type} {name : α → String} : ∀ {as : List α} {a : α},
    (as.map name).Nodup → a ∈ as → as.filter (name · = name a) = [a]
  | b :: as, a, hnodup, ha => by
    obtain ⟨hb, hnodup⟩ := List.nodup_cons.1 hnodup
    rcases List.mem_cons.1 ha with rfl | ha
    · rw [List.filter_cons_of_pos (by simp), List.filter_eq_nil_iff.2]
      exact fun c hc h => hb (List.mem_map.2 ⟨c, hc, by simpa using h⟩)
    · have hne : name b ≠ name a := fun h => hb (List.mem_map.2 ⟨a, ha, h.symm⟩)
      rw [List.filter_cons_of_neg (by simpa using hne), filter_eq_singleton hnodup ha]

namespace Plan

variable (mode : Mode) {t : TaskSet}

theorem mem_names_of_orchestrator {x : Member} {r : Role} {o : Task} (ho : o ∈ t.orchestrators)
    (hx : x ∈ r.ofOrchestrator mode o) :
    o.name ∈ r.names t ∧ (r.isHosted = true → mode = .hostIntegrated) := by
  have hname := List.mem_map_of_mem (f := Task.name) ho
  cases r with
  | «instance» | orchestratorTrigger =>
    cases mode with
    | hostIntegrated => exact ⟨hname, fun _ => rfl⟩
    | standalone => cases hx
  | schedule | subOrchestration => exact ⟨hname, nofun⟩
  | activityCall | activityTrigger | functionCall => cases hx

theorem mem_names_of_activity {x : Member} {r : Role} {a : Task} (ha : a ∈ t.activities)
    (hx : x ∈ r.ofActivity mode a) :
    a.name ∈ r.names t ∧ (r.isHosted = true → mode = .hostIntegrated) := by
  have hname := List.mem_map_of_mem (f := Task.name) ha
  cases r with
  | activityTrigger =>
    cases mode with
    | hostIntegrated => exact ⟨hname, fun _ => rfl⟩
    | standalone => cases hx
  | activityCall => exact ⟨hname, nofun⟩
  | _ => cases hx

theorem mem_names_of_function {x : Member} {r : Role} {f : FunctionTask} (hf : f ∈ t.functions)
    (hx : x ∈ r.ofFunction f) :
    f.name ∈ r.names t ∧ (r.isHosted = true → mode = .hostIntegrated) := by
  cases r with
  | functionCall => exact ⟨List.mem_map_of_mem (f := FunctionTask.name) hf, nofun⟩
  | _ => cases hx

/-- A wrapper is made for a task that there is, and only a host has those that a host needs. -/
theorem mem_names_of_role? {x : Member} {r : Role} {n : String} (hx : x ∈ (build mode t).members)
    (hr : x.role? = some (r, n)) :
    n ∈ r.names t ∧ (r.isHosted = true → mode = .hostIntegrated) := by
  have hmem : x ∈ (build mode t).wrappers r n := List.mem_filter.2 ⟨hx, by simpa using hr⟩
  rw [wrappers_build, List.mem_append, List.mem_append] at hmem
  rcases hmem with (hmem | hmem) | hmem
  · obtain ⟨o, ho, hxo⟩ := List.mem_flatMap.1 hmem
    obtain ⟨ho, hname⟩ := List.mem_filter.1 ho
    rw [← of_decide_eq_true hname]
    exact mem_names_of_orchestrator mode ho hxo
  · obtain ⟨a, ha, hxa⟩ := List.mem_flatMap.1 hmem
    obtain ⟨ha, hname⟩ := List.mem_filter.1 ha
    rw [← of_decide_eq_true hname]
    exact mem_names_of_activity mode ha hxa
  · obtain ⟨f, hf, hxf⟩ := List.mem_flatMap.1 hmem
    obtain ⟨hf, hname⟩ := List.mem_filter.1 hf
    rw [← of_decide_eq_true hname]
    exact mem_names_of_function mode hf hxf

theorem role?_ofOrchestrator (o : Task) : ∀ x ∈ ofOrchestrator mode o, x.role? ≠ none := by
  cases mode <;> simp [ofOrchestrator, inHost, Member.role?]

theorem role?_ofActivity (a : Task) : ∀ x ∈ ofActivity mode a, x.role? ≠ none := by
  cases mode <;> simp [ofActivity, inHost, Member.role?]

/-- Only what closes the class is no wrapper. -/
theorem exists_before_closing (t : TaskSet) : ∃ before,
    (build mode t).members = before ++ closing mode t ∧ ∀ x ∈ before, x.role? ≠ none := by
  refine ⟨_, rfl, fun x hx => ?_⟩
  rcases List.mem_append.1 hx with hx | hx
  · rcases List.mem_append.1 hx with hx | hx
    · rcases List.mem_append.1 hx with hx | hx
      · rw [inHost_map] at hx
        obtain ⟨o, -, hx⟩ := List.mem_flatMap.1 hx
        cases mode with
        | hostIntegrated =>
          rw [List.mem_singleton.1 hx]
          exact nofun
        | standalone => cases hx
      · obtain ⟨o, -, hx⟩ := List.mem_flatMap.1 hx
        exact role?_ofOrchestrator mode o x hx
    · obtain ⟨a, -, hx⟩ := List.mem_flatMap.1 hx
      exact role?_ofActivity mode a x hx
  · obtain ⟨f, -, rfl⟩ := List.mem_map.1 hx
    exact nofun

theorem count_adapter (t : TaskSet) : (build mode t).members.count .adapter
    = if mode = .hostIntegrated ∧ t.activities ≠ [] then 1 else 0 := by
  obtain ⟨before, hmembers, hbefore⟩ := exists_before_closing mode t
  have hnone : before.count .adapter = 0 :=
    List.count_eq_zero.2 fun h => hbefore _ h rfl
  rw [hmembers, List.count_append, hnone, Nat.zero_add]
  cases mode with
  | hostIntegrated => cases h : t.activities <;> simp [closing, h]
  | standalone => simp [closing]

theorem flatMap_nil {α : Type} (as : List α) : as.flatMap (fun _ => ([] : List Member)) = [] :=
  List.flatMap_eq_nil_iff.2 fun _ _ => rfl

theorem emits_build (ht : t.Named) : (build mode t).Emits t where
  orchestrator o ho := by
    have honly := filter_eq_singleton ht.orchestrators ho
    refine ⟨?_, ?_, ?_, ?_⟩
    all_goals
      rw [wrappers_build, honly]
      simp [Role.ofOrchestrator, Role.ofActivity, Role.ofFunction, flatMap_nil, build]
  activity a ha := by
    have honly := filter_eq_singleton ht.activities ha
    refine ⟨?_, ?_⟩
    all_goals
      rw [wrappers_build, honly]
      simp [Role.ofOrchestrator, Role.ofActivity, Role.ofFunction, flatMap_nil, build]
  function f hf := by
    rw [wrappers_build, filter_eq_singleton ht.functions hf]
    simp [Role.ofOrchestrator, Role.ofActivity, Role.ofFunction, flatMap_nil]
  named x hx r n hr := (mem_names_of_role? mode hx hr).1
  hosted x hx r n hr := (mem_names_of_role? mode hx hr).2
  adapter := count_adapter mode t
  unregistered hmode os as h := by
    -- a registration has no role, so it could only close the class
    obtain ⟨before, hmembers, hbefore⟩ := exists_before_closing mode t
    rw [hmembers] at h
    rcases List.mem_append.1 h with h | h
    · exact hbefore _ h rfl
    · cases (show mode = .hostIntegrated from hmode)
      simp only [closing] at h
      split at h <;> simp at h
  registered hmode := by
    obtain ⟨before, hmembers, hbefore⟩ := exists_before_closing mode t
    cases (show mode = .standalone from hmode)
    exact ⟨before, hmembers, fun os as h => hbefore _ h rfl⟩
  placed _ _ _ hmembers := text_eq hmembers
  keyed x hx r n hr hcall := by
    obtain ⟨c, hc, rfl⟩ := Member.exists_call?_of_role? hr hcall
    exact ⟨c, hc, rfl, Member.keyed_memberText hc (ht.isName r _ (mem_names_of_role? mode hx hr).1)⟩

end Plan

/-- Every task that a pass keeps is emitted exactly once, under its own key. -/
theorem Outcome.emits_run (m : Model) (modules : List String) (cs : List Candidate) :
    (Plan.build (run m modules cs).mode (run m modules cs).tasks).Emits (run m modules cs).tasks :=
  Plan.emits_build _ (TaskSet.named_validate _)

end TaskWrappers
