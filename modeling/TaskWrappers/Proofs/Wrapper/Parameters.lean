import TaskWrappers.Outcome
import TaskWrappers.Proofs.Outcome.Parts

/-!
# The parameters of the generated methods

The wrappers bring parameters with names of their own, and these are pairwise distinct. The one
name that comes from the sources is that of a function's input: it is put between the context and
the options of the function's call without a look at their names. So all methods of a pass have
distinct parameters exactly if no function that is kept names its input like one of the two
(`Outcome.distinct_parameters_iff`), be it verbatim, which is the same identifier.
-/

namespace TaskWrappers

/-- The identifier that a name stands for, to which the mark of a verbatim name does not belong. -/
def identifierOf (name : String) : String := .ofList (Text.dropLead "@" name)

namespace WrapperMethod

/-- Whether the parameters are pairwise distinct when their names are read in a given way. -/
def DistinctBy (read : String → String) (w : WrapperMethod) : Prop :=
  (w.parameters.map fun p => read p.name).Nodup

instance (read : String → String) (w : WrapperMethod) : Decidable (w.DistinctBy read) :=
  inferInstanceAs (Decidable (List.Nodup _))

end WrapperMethod

namespace Member

/-- The parameters beside the input in the call of an activity. -/
def besideInput : List String := ["ctx", "options"]

/-- All names that wrappers give to parameters themselves. -/
def ownNames : List String :=
  besideInput ++ ["input", "orchestratorState", "executionContext", "client", "instanceId",
    "startTime", "context", "builder"]

variable {read : String → String} (hread : ∀ n ∈ ownNames, read n = n)
include hread

theorem distinctBy_callMethod (task : String) (input : FunctionInput) (output : String) :
    (callMethod task input output).DistinctBy read ↔ read input.name ∉ besideInput := by
  have hctx : read "ctx" = "ctx" := hread _ (by decide)
  have hoptions : read "options" = "options" := hread _ (by decide)
  show [read "ctx", read input.name, read "options"].Nodup ↔ _
  rw [hctx, hoptions, besideInput]
  simp only [List.nodup_cons, List.mem_cons, List.not_mem_nil, or_false, not_or]
  constructor
  · rintro ⟨⟨hctx, -⟩, hoptions, -⟩
    exact ⟨Ne.symm hctx, hoptions⟩
  · rintro ⟨hctx, hoptions⟩
    exact ⟨⟨Ne.symm hctx, by decide⟩, hoptions, not_false, List.nodup_nil⟩

/-- A method whose parameters all have names of the wrappers' own keeps them apart as they are. -/
theorem distinctBy_of_own {w : WrapperMethod} (hown : ∀ p ∈ w.parameters, p.name ∈ ownNames)
    (hdistinct : w.DistinctBy id) : w.DistinctBy read := by
  have hnames : (w.parameters.map fun p => read p.name) = w.parameters.map fun p => id p.name :=
    List.map_congr_left fun p hp => hread _ (hown p hp)
  rw [WrapperMethod.DistinctBy, hnames]
  exact hdistinct

/-- Only the call of a function can have two parameters of one name. -/
theorem distinctBy_of_decl {x : Member} {w : WrapperMethod} (hdecl : x.decl = .method w) :
    w.DistinctBy read ↔
      ∀ task input result, x = .functionCall task input result → read input.name ∉ besideInput := by
  have hother (hown : ∀ p ∈ w.parameters, p.name ∈ ownNames) (hdistinct : w.DistinctBy id)
      (hx : ∀ task input result, x ≠ .functionCall task input result) :
      w.DistinctBy read ↔ ∀ task input result, x = .functionCall task input result →
        read input.name ∉ besideInput :=
    iff_of_true (distinctBy_of_own hread hown hdistinct)
      fun task input result heq => (hx task input result heq).elim
  cases x with
  | functionCall task input result =>
    cases hdecl
    rw [distinctBy_callMethod hread]
    constructor
    · intro h task input result heq
      cases heq
      exact h
    · intro h
      exact h task input result rfl
  | «instance» => cases hdecl
  | adapter => cases hdecl
  | orchestratorTrigger | schedule | subOrchestration | activityCall | activityTrigger
  | registration =>
    cases hdecl
    refine hother ?_ ?_ nofun
    · intro p hp
      revert p
      simp [ownNames, besideInput, orchestratorTriggerMethod, scheduleMethod,
        subOrchestrationMethod, callMethod, activityTriggerMethod, registrationMethod,
        WrapperParameter.plain, WrapperParameter.receiver, WrapperParameter.bound,
        WrapperParameter.optional]
    · show List.Nodup _
      simp [orchestratorTriggerMethod, scheduleMethod, subOrchestrationMethod, callMethod,
        activityTriggerMethod, registrationMethod, WrapperParameter.plain,
        WrapperParameter.receiver, WrapperParameter.bound, WrapperParameter.optional]

end Member

namespace Plan

theorem functionCall_mem_build {mode : Mode} {t : TaskSet} {task : String} {input : FunctionInput}
    {result : String} :
    .functionCall task input result ∈ (build mode t).members ↔
      ∃ f ∈ t.functions, f.name = task ∧ f.input = input ∧ f.result = result := by
  cases mode <;>
    simp [build, membersOf, ofOrchestrator, ofActivity, ofFunction, closing, inHost]

/-- The methods of the generated class. -/
def methods (p : Plan) : List WrapperMethod :=
  p.members.filterMap fun x =>
    match x.decl with
    | .method w => some w
    | _ => none

theorem mem_methods {p : Plan} {w : WrapperMethod} :
    w ∈ p.methods ↔ ∃ x ∈ p.members, x.decl = .method w := by
  rw [methods, List.mem_filterMap]
  refine exists_congr fun x => and_congr_right fun _ => ?_
  cases x.decl <;> simp

/-- The methods of a plan have distinct parameters exactly if all inputs of functions are called
otherwise than the parameters beside them. -/
theorem distinctBy_build {read : String → String} (hread : ∀ n ∈ Member.ownNames, read n = n)
    (mode : Mode) (t : TaskSet) :
    (∀ w ∈ (build mode t).methods, w.DistinctBy read) ↔
      ∀ f ∈ t.functions, read f.input.name ∉ Member.besideInput := by
  constructor
  · intro h f hf
    have hmem : .functionCall f.name f.input f.result ∈ (build mode t).members :=
      functionCall_mem_build.2 ⟨f, hf, rfl, rfl, rfl⟩
    have hdistinct := h _ (mem_methods.2 ⟨_, hmem, rfl⟩)
    exact (Member.distinctBy_callMethod hread f.name f.input f.result).1 hdistinct
  · intro h w hw
    obtain ⟨x, hx, hdecl⟩ := mem_methods.1 hw
    rw [Member.distinctBy_of_decl hread hdecl]
    rintro task input result rfl
    obtain ⟨f, hf, -, rfl, -⟩ := functionCall_mem_build.1 hx
    exact h f hf

end Plan

namespace Outcome

variable (m : Model) (modules : List String) (cs : List Candidate)

/-- Whether a function that a pass keeps has a trigger of the given name. -/
def BindsInput (n : String) : Prop :=
  ∃ file decl method marker trigger, .function file decl method marker trigger ∈ cs ∧
    (Candidate.function file decl method marker trigger).describe m
      ∈ (run m modules cs).tasks.members .functions ∧ trigger.name = n

/-- Inputs are called like the triggers they are bound to. -/
theorem exists_function_run {n : String} :
    (∃ f ∈ (run m modules cs).tasks.functions, f.input.name = n) ↔ BindsInput m modules cs n := by
  constructor
  · rintro ⟨f, hf, hname⟩
    have hkept : .function f ∈ (run m modules cs).tasks.members .functions := List.mem_map_of_mem hf
    have hdescribed := (TaskSet.members_validate_sublist _ _).subset hkept
    rw [TaskSet.members_ofDescribed, List.mem_filter, List.mem_map] at hdescribed
    obtain ⟨⟨c, hc, hdescribe⟩, -⟩ := hdescribed
    cases c with
    | task kind file decl args => cases hdescribe
    | function file decl method marker trigger =>
      rw [← hdescribe] at hkept
      cases hdescribe
      exact ⟨file, decl, method, marker, trigger, hc, hkept, hname⟩
  · rintro ⟨file, decl, method, marker, trigger, -, hkept, hname⟩
    obtain ⟨f, hf, hdescribe⟩ := List.mem_map.1 hkept
    cases hdescribe
    exact ⟨_, hf, hname⟩

theorem distinctBy_run {read : String → String} (hread : ∀ n ∈ Member.ownNames, read n = n) :
    (∀ w ∈ (Plan.build (run m modules cs).mode (run m modules cs).tasks).methods,
        w.DistinctBy read) ↔
      ∀ n, BindsInput m modules cs n → read n ∉ Member.besideInput := by
  rw [Plan.distinctBy_build hread]
  constructor
  · intro h n hn
    obtain ⟨f, hf, rfl⟩ := (exists_function_run m modules cs).2 hn
    exact h f hf
  · intro h f hf
    exact h _ ((exists_function_run m modules cs).1 ⟨f, hf, rfl⟩)

/-- The methods that a pass generates have pairwise distinct parameters, as they are written and
as identifiers, exactly if no trigger of a function that is kept is called like a parameter beside
it. -/
theorem distinct_parameters_iff :
    ((∀ w ∈ (Plan.build (run m modules cs).mode (run m modules cs).tasks).methods,
        w.DistinctBy id) ↔
      ∀ n, BindsInput m modules cs n → n ∉ Member.besideInput) ∧
    ((∀ w ∈ (Plan.build (run m modules cs).mode (run m modules cs).tasks).methods,
        w.DistinctBy identifierOf) ↔
      ∀ n, BindsInput m modules cs n → identifierOf n ∉ Member.besideInput) := by
  have hid : ∀ n ∈ Member.ownNames, id n = n := fun _ _ => rfl
  have hidentifier : ∀ n ∈ Member.ownNames, identifierOf n = n := by decide
  exact ⟨distinctBy_run m modules cs hid, distinctBy_run m modules cs hidentifier⟩

/-- A file with an activity function that calls its input like the context of its own call. -/
def contextFile : SourceFile where
  path := "Jobs.cs"
  usings := []
  types := [⟨"Jobs", .class, some "App", [], 0, ["public", "static"], [], [],
    [⟨"Run", "string", [⟨"ctx", "string", [⟨"ActivityTrigger", [], default⟩], []⟩],
      [⟨"Function", [⟨none, "\"Ship\""⟩], default⟩], ["public", "static"], default⟩], [], default⟩]
  damage := none

/-- The function is kept without a warning, and its call has two parameters `ctx`. -/
theorem distinct_parameters_clash :
    (run (.build [contextFile] []) [] (Candidate.scan [contextFile])).warnings = [] ∧
      ((Plan.build .standalone
          (run (.build [contextFile] []) [] (Candidate.scan [contextFile])).tasks).methods.map
        fun w => (w.name, w.parameters.map (·.name)))
        = [("CallShipAsync", ["ctx", "ctx", "options"]), ("AddAllGeneratedTasks", ["builder"])] ∧
      ¬ ∀ w ∈ (Plan.build .standalone
          (run (.build [contextFile] []) [] (Candidate.scan [contextFile])).tasks).methods,
        w.DistinctBy id := by
  decide +kernel

end Outcome

end TaskWrappers
