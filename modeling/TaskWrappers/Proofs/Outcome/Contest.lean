import TaskWrappers.Proofs.Outcome.Ledger

/-!
# Who keeps a contested activity

Classes and functions share the names of activities, and a pass gives the names to all classes
before any function. A name that several candidates are called by therefore goes to the first class
among them, wherever it stands, and only without one to the first candidate
(`Outcome.activity_contest`). The candidate that comes first in the sources loses its name exactly
where it is a function and a class comes after it.
-/

namespace TaskWrappers

namespace Candidate

def isClass : Candidate → Bool
  | task .. => true
  | function .. => false

/-- The candidates that a name would call as an activity, in their order. -/
def contenders (m : Model) (cs : List Candidate) (n : String) : List Candidate :=
  cs.filter fun c => c.kind = .activity ∧ c.calledName m = n

/-- The contender that comes first when all classes are put before the functions. -/
def keeper? (m : Model) (cs : List Candidate) (n : String) : Option Candidate :=
  ((contenders m cs n).find? (·.isClass)).or (contenders m cs n).head?

theorem part_describe_of_isClass (m : Model) {c : Candidate} :
    (c.describe m).part = .activities ↔ c.kind = .activity ∧ c.isClass = true := by
  cases c with
  | task kind file decl args =>
    cases kind
    · exact ⟨nofun, nofun⟩
    · exact ⟨fun _ => ⟨rfl, rfl⟩, fun _ => rfl⟩
  | function => exact ⟨nofun, fun h => nomatch h.2⟩

theorem part_describe_of_not_isClass (m : Model) {c : Candidate} :
    (c.describe m).part = .functions ↔ c.kind = .activity ∧ c.isClass = false := by
  cases c with
  | task kind file decl args => cases kind <;> exact ⟨nofun, fun h => nomatch h.2⟩
  | function => exact ⟨fun _ => ⟨rfl, rfl⟩, fun _ => rfl⟩

theorem isClass_of_describe_eq {m : Model} {c d : Candidate} (h : c.describe m = d.describe m) :
    c.isClass = d.isClass := by
  cases c <;> cases d <;> first | rfl | cases h

variable (m : Model) (cs : List Candidate) (n : String)

/-- The activities called by a name before any is refused are its contenders, classes first. -/
theorem filter_calls :
    (TaskSet.ofDescribed (cs.map (·.describe m))).calls.filter (·.name == n)
      = ((contenders m cs n).filter (·.isClass)
          ++ (contenders m cs n).filter (!·.isClass)).map (·.describe m) := by
  have hpart (p : Part) (isClass : Candidate → Bool)
      (h : ∀ c : Candidate, (c.describe m).part = p ↔ c.kind = .activity ∧ isClass c = true) :
      ((cs.map (·.describe m)).filter (·.part = p)).filter (·.name == n)
        = ((contenders m cs n).filter isClass).map (·.describe m) := by
    rw [contenders, List.filter_filter, List.filter_filter, List.filter_map]
    refine congrArg (List.map _) (List.filter_congr fun c _ => ?_)
    rw [Bool.eq_iff_iff]
    simp only [Function.comp_apply, Bool.and_eq_true, beq_iff_eq, decide_eq_true_eq, h,
      name_describe]
    exact ⟨fun ⟨hname, hkind, hclass⟩ => ⟨hclass, hkind, hname⟩,
      fun ⟨hclass, hkind, hname⟩ => ⟨hname, hkind, hclass⟩⟩
  -- each of the two parts picks its contenders, and functions are the contenders that are no class
  rw [TaskSet.calls, TaskSet.members_ofDescribed, TaskSet.members_ofDescribed, List.filter_append,
    hpart .activities (·.isClass) fun c => part_describe_of_isClass m,
    hpart .functions (!·.isClass) fun c => ?_, List.map_append]
  rw [Bool.not_eq_true']
  exact part_describe_of_not_isClass m

theorem head?_ranked :
    ((contenders m cs n).filter (·.isClass)
        ++ (contenders m cs n).filter (!·.isClass)).head? = keeper? m cs n := by
  rw [keeper?, List.head?_append, List.head?_filter]
  cases hclass : (contenders m cs n).find? (·.isClass) with
  | some c => rfl
  | none =>
    rw [List.filter_eq_self.2 fun c hc => ?_]
    simpa using List.find?_eq_none.1 hclass c hc

variable {m cs n}

theorem describe_keeper?_iff {first keeper : Candidate}
    (hfirst : (contenders m cs n).head? = some first) (hkeeper : keeper? m cs n = some keeper) :
    keeper.describe m = first.describe m ↔
      first.isClass = true ∨ ∀ c ∈ contenders m cs n, c.isClass = false := by
  obtain ⟨rest, hcontenders⟩ := List.head?_eq_some_iff.1 hfirst
  rw [keeper?, hfirst] at hkeeper
  cases hclass : (contenders m cs n).find? (·.isClass) with
  | none =>
    rw [hclass, Option.none_or, Option.some_inj] at hkeeper
    rw [hkeeper]
    exact ⟨fun _ => .inr fun c hc => by simpa using List.find?_eq_none.1 hclass c hc, fun _ => rfl⟩
  | some c =>
    rw [hclass, Option.some_or, Option.some_inj] at hkeeper
    subst hkeeper
    have hc := List.find?_some hclass
    constructor
    · exact fun h => .inl ((isClass_of_describe_eq h).symm.trans hc)
    · rintro (h | h)
      · rw [hcontenders, List.find?_cons_of_pos h, Option.some_inj] at hclass
        rw [hclass]
      · rw [h c (List.mem_of_find?_eq_some hclass)] at hc
        cases hc

end Candidate

namespace TaskSet

variable (t : TaskSet)

theorem calls_validate :
    t.validate.1.calls = (keep .activity Described.name Described.declaration [] t.calls).1 := by
  rw [keep_fst, ← judged_append, List.filterMap_append, calls, members_validate, members_validate]

theorem duplicate_of_mem_validate {n kept skipped : String}
    (h : .duplicateName .activity n kept skipped ∈ t.validate.2) :
    .duplicateName .activity n kept skipped
      ∈ (keep .activity Described.name Described.declaration [] t.calls).2.2 := by
  rw [validate_snd] at h
  obtain ⟨p, -, h⟩ := List.mem_flatMap.1 h
  rw [keep_warnings, ← judged_append, List.filterMap_append, List.mem_append]
  cases p with
  | orchestrators =>
    obtain ⟨⟨d, refusal⟩, hrow, heq⟩ := List.mem_filterMap.1 h
    subst heq
    cases t.refuses_of_mem_judged hrow
  | activities => exact .inl h
  | functions => exact .inr h

end TaskSet

namespace Outcome

open Candidate

variable {m : Model} {cs : List Candidate} {n : String} {first keeper : Candidate}

theorem keeper?_run (modules : List String) (hn : isIdentifier n = true)
    (hkeeper : keeper? m cs n = some keeper) :
    (run m modules cs).tasks.calls.filter (·.name == n) = [keeper.describe m] ∧
      ∀ kept skipped, .duplicateName .activity n kept skipped ∈ (run m modules cs).warnings →
        kept = keeper.declaration := by
  rw [← head?_ranked] at hkeeper
  obtain ⟨rest, hranked⟩ := List.head?_eq_some_iff.1 hkeeper
  have hcalls := filter_calls m cs n
  rw [hranked] at hcalls
  constructor
  · rw [tasks_run, TaskSet.calls_validate, filter_keep hn, hcalls]
    rfl
  · intro kept skipped h
    rw [warnings_run, List.mem_append] at h
    rcases h with h | h
    · -- no fallback is a duplicate
      obtain ⟨c, -, hc⟩ := List.mem_filterMap.1 h
      cases (c.isFallback_of_fallback? m hc).1
    · obtain ⟨-, -, hholder⟩ := holder?_of_duplicate (TaskSet.duplicate_of_mem_validate _ h)
      rw [holder?, List.lookup_nil, Option.none_or, ← List.head?_filter, hcalls] at hholder
      cases hholder
      exact declaration_describe m keeper

/-- A contested name goes to the first class that is called by it, or without one to the first
candidate, and every warning that refuses it names that one. So the first candidate keeps its name
if it is a class itself or no class contends with it, and only then. -/
theorem activity_contest (modules : List String) (hn : isIdentifier n = true)
    (hfirst : (contenders m cs n).head? = some first) :
    ∃ keeper, keeper? m cs n = some keeper ∧
      (run m modules cs).tasks.calls.filter (·.name == n) = [keeper.describe m] ∧
      (∀ kept skipped, .duplicateName .activity n kept skipped ∈ (run m modules cs).warnings →
        kept = keeper.declaration) ∧
      (keeper.describe m = first.describe m ↔
        first.isClass = true ∨ ∀ c ∈ contenders m cs n, c.isClass = false) := by
  obtain ⟨keeper, hkeeper⟩ : ∃ keeper, keeper? m cs n = some keeper := by
    rw [keeper?, hfirst]
    cases (contenders m cs n).find? (·.isClass) with
    | none => exact ⟨first, rfl⟩
    | some c => exact ⟨c, rfl⟩
  obtain ⟨hcalls, hwarnings⟩ := keeper?_run modules hn hkeeper
  exact ⟨keeper, hkeeper, hcalls, hwarnings, describe_keeper?_iff hfirst hkeeper⟩

/-- A file with an activity function that is called `Ship`. -/
def jobs : SourceFile where
  path := "Jobs.cs"
  usings := []
  types := [⟨"Jobs", .class, some "App", [], 0, ["public", "static"], [], [],
    [⟨"Run", "string", [⟨"order", "string", [⟨"ActivityTrigger", [], default⟩], []⟩],
      [⟨"Function", [⟨none, "\"Ship\""⟩], default⟩], ["public", "static"], default⟩], [], default⟩]
  damage := none

/-- A file with an activity class of that name. -/
def ships : SourceFile where
  path := "Ships.cs"
  usings := []
  types := [⟨"Ship", .class, some "App", [], 0, ["public"], [], ["TaskActivity<int, string>"], [],
    [], default⟩]
  damage := none

/-- The function comes after the class and is skipped. -/
theorem activity_contest_ships :
    isIdentifier "Ship" = true ∧
      ∃ first,
        (contenders (.build [ships, jobs] []) (scan [ships, jobs]) "Ship").head? = some first ∧
          first.declaration = "App.Ship" ∧
          (run (.build [ships, jobs] []) [] (scan [ships, jobs])).tasks.calls.filter
            (·.name == "Ship") = [first.describe (.build [ships, jobs] [])] := by
  have hn : isIdentifier "Ship" = true := by decide +kernel
  have hhead : ((contenders (.build [ships, jobs] []) (scan [ships, jobs]) "Ship").head?).map
      (fun c => (c.declaration, c.isClass)) = some ("App.Ship", true) := by
    decide +kernel
  obtain ⟨first, hfirst, heq⟩ := Option.map_eq_some_iff.1 hhead
  obtain ⟨hdeclaration, hclass⟩ := Prod.mk.inj heq
  obtain ⟨keeper, -, hcalls, -, hdescribe⟩ := activity_contest [] hn hfirst
  rw [hdescribe.2 (.inl hclass)] at hcalls
  exact ⟨hn, first, hfirst, hdeclaration, hcalls⟩

/-- The function comes first, and yet the class has the name and the function is skipped. -/
theorem activity_contest_jobs :
    (contenders (.build [jobs, ships] []) (scan [jobs, ships]) "Ship").map (·.declaration)
        = ["App.Jobs.Run", "App.Ship"] ∧
      (run (.build [jobs, ships] []) [] (scan [jobs, ships])).tasks.calls.map
        (fun d => (d.name, d.declaration)) = [("Ship", "App.Ship")] ∧
      (run (.build [jobs, ships] []) [] (scan [jobs, ships])).warnings
        = [.duplicateName .activity "Ship" "App.Ship" "App.Jobs.Run"] := by
  decide +kernel

end Outcome

end TaskWrappers
