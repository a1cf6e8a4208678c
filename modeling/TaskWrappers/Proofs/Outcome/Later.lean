import Mathlib.Data.List.Flatten
import TaskWrappers.Proofs.Outcome.Ledger

/-!
# Candidates that come later

A name that is taken stays with its holder, so whoever comes later in a list changes nothing about
the members before (`judge_append`). But classes get their names before all functions do, and in
that a class that comes later is ahead of a function that comes earlier. So later candidates leave
all tasks and warnings of a pass as they are, in front of their own, as long as none is called like
a function that has been kept (`Outcome.run_append`).
-/

namespace TaskWrappers

section Judge

variable {α : Type} {kind : TaskKind} {name declaration : α → String}

/-- After a list a name that can be used is with its holder. -/
theorem lookup_keep {n : String} (hn : isIdentifier n = true) : ∀ (taken : Taken) (as : List α),
    (keep kind name declaration taken as).2.1.lookup n = holder? name declaration taken as n
  | taken, [] => by
    rw [keep, holder?, List.find?_nil, Option.map_none, Option.or_none]
  | taken, a :: as => by
    rcases take_cases kind taken (name a) (declaration a) with
      ⟨hname, htake⟩ | ⟨hname, first, hlookup, htake⟩ | ⟨hname, hlookup, htake⟩
    · rw [keep_cons_of_error htake, holder?_cons_of_ne (ne_of_isIdentifier hn hname)]
      exact lookup_keep hn taken as
    · rw [keep_cons_of_error htake]
      refine (lookup_keep hn taken as).trans ?_
      by_cases hne : name a = n
      · subst hne
        rw [holder?_of_lookup hlookup, holder?_of_lookup hlookup]
      · rw [holder?_cons_of_ne hne]
    · rw [keep_cons_of_ok htake, ← holder?_take hlookup]
      exact lookup_keep hn _ as

/-- Of the names that were taken before, the judgements depend on those of the members alone. -/
theorem judge_congr : ∀ {taken taken' : Taken} {as : List α},
    (∀ a ∈ as, isIdentifier (name a) = true → taken.lookup (name a) = taken'.lookup (name a)) →
      judge kind name declaration taken as = judge kind name declaration taken' as
  | _, _, [], _ => rfl
  | taken, taken', a :: as, h => by
    have hrest : ∀ b ∈ as, isIdentifier (name b) = true →
        taken.lookup (name b) = taken'.lookup (name b) :=
      fun b hb => h b (List.mem_cons_of_mem a hb)
    rcases take_cases kind taken (name a) (declaration a) with
      ⟨hname, htake⟩ | ⟨hname, first, hlookup, htake⟩ | ⟨hname, hlookup, htake⟩
    · have htake' : take kind taken' (name a) (declaration a)
          = .error (.invalidName (name a) (declaration a)) := by
        rw [take, if_neg (by simp [hname])]
      rw [judge_cons_of_error htake, judge_cons_of_error htake', judge_congr hrest]
    · have htake' : take kind taken' (name a) (declaration a)
          = .error (.duplicateName kind (name a) first (declaration a)) := by
        rw [take, if_pos hname, ← h a List.mem_cons_self hname, hlookup]
      rw [judge_cons_of_error htake, judge_cons_of_error htake', judge_congr hrest]
    · have htake' : take kind taken' (name a) (declaration a)
          = .ok ((name a, declaration a) :: taken') := by
        rw [take, if_pos hname, ← h a List.mem_cons_self hname, hlookup]
      rw [judge_cons_of_ok htake, judge_cons_of_ok htake', judge_congr fun b hb hname => ?_]
      rw [List.lookup_cons, List.lookup_cons, hrest b hb hname]

end Judge

namespace TaskSet

theorem members_ofDescribed_append (ds es : List Described) (p : Part) :
    (ofDescribed (ds ++ es)).members p
      = (ofDescribed ds).members p ++ (ofDescribed es).members p := by
  simp only [members_ofDescribed, List.filter_append]

theorem members_functions_validate (t : TaskSet) :
    t.validate.1.members .functions =
      (keep .activity Described.name Described.declaration
        (keep .activity Described.name Described.declaration [] (t.members .activities)).2.1
        (t.members .functions)).1 := by
  rw [members_validate, judged, ← keep_fst]

/-- If no class has the name of a function, some function keeps it. -/
theorem exists_function_validate {t : TaskSet} {d : Described} (hd : d ∈ t.members .functions)
    (hname : isIdentifier d.name = true)
    (hclass : (t.members .activities).find? (·.name == d.name) = none) :
    ∃ g ∈ t.validate.1.members .functions, g.name = d.name := by
  have hfree : (keep .activity Described.name Described.declaration []
      (t.members .activities)).2.1.lookup d.name = none := by
    rw [lookup_keep hname, holder?, hclass]
    rfl
  have hkept : (t.validate.1.members .functions).filter (·.name == d.name)
      = ((t.members .functions).filter (·.name == d.name)).take 1 := by
    rw [members_functions_validate, filter_keep hname, hfree]
    rfl
  have hmem : d ∈ (t.members .functions).filter (·.name == d.name) :=
    List.mem_filter.2 ⟨hd, beq_self_eq_true _⟩
  obtain ⟨g, gs, hgs⟩ := List.exists_cons_of_ne_nil (List.ne_nil_of_mem hmem)
  have hg : g ∈ (t.validate.1.members .functions).filter (·.name == d.name) := by
    rw [hkept, hgs]
    exact List.mem_cons_self
  obtain ⟨hg, heq⟩ := List.mem_filter.1 hg
  exact ⟨g, hg, eq_of_beq heq⟩

/-- Further members of a set leave the judgements of the others as they are, if none of the classes
among them is called like a function that is kept. -/
theorem judged_append_later {ds es : List Described}
    (h : ∀ e ∈ (ofDescribed es).members .activities,
      ∀ g ∈ (ofDescribed ds).validate.1.members .functions, e.name ≠ g.name) (p : Part) :
    ∃ rows : List (Described × Option Warning),
      (ofDescribed (ds ++ es)).judged p = (ofDescribed ds).judged p ++ rows ∧
        rows.map (·.1) = (ofDescribed es).members p := by
  cases p with
  | orchestrators | activities =>
    rw [judged, members_ofDescribed_append, judge_append]
    exact ⟨_, rfl, map_fst_judge _ _⟩
  | functions =>
    rw [judged, members_ofDescribed_append, members_ofDescribed_append, judge_append]
    refine ⟨_, congrArg (· ++ _) (judge_congr fun d hd hname => ?_), map_fst_judge _ _⟩
    rw [lookup_keep hname, lookup_keep hname, holder?, holder?, List.find?_append]
    cases hclass : ((ofDescribed ds).members .activities).find? (·.name == d.name) with
    | some c => rfl
    | none =>
      -- a function of the name is kept then, and so no later class has it
      obtain ⟨g, hg, heq⟩ := exists_function_validate hd hname hclass
      have hlater : ((ofDescribed es).members .activities).find? (·.name == d.name) = none := by
        refine List.find?_eq_none.2 fun e he hsame => h e he g hg ?_
        rw [heq, eq_of_beq hsame]
      rw [hlater]
      rfl

end TaskSet

namespace Outcome

variable (m : Model) (modules : List String) {cs ds : List Candidate}

/-- Later candidates of which none is called like a function that is kept leave all tasks and
warnings as they are. -/
theorem run_append
    (h : ∀ d ∈ ds, ∀ g ∈ (run m modules cs).tasks.functions, d.calledName m ≠ g.name) :
    (∃ added : Part → List Described, ∀ p,
      (run m modules (cs ++ ds)).tasks.members p
          = (run m modules cs).tasks.members p ++ added p ∧
        (added p).Sublist (ds.map (·.describe m))) ∧
      (run m modules cs).warnings.Sublist (run m modules (cs ++ ds)).warnings := by
  have hnames : ∀ e ∈ (TaskSet.ofDescribed (ds.map (·.describe m))).members .activities,
      ∀ g ∈ (TaskSet.ofDescribed (cs.map (·.describe m))).validate.1.members .functions,
        e.name ≠ g.name := by
    intro e he g hg
    rw [TaskSet.members_ofDescribed] at he
    obtain ⟨d, hd, rfl⟩ := List.mem_map.1 (List.mem_filter.1 he).1
    obtain ⟨f, hf, rfl⟩ := List.mem_map.1 hg
    rw [Candidate.name_describe]
    exact h d hd f hf
  obtain ⟨rows, hrows⟩ := Classical.axiomOfChoice (TaskSet.judged_append_later hnames)
  constructor
  · refine ⟨fun p => (rows p).filterMap admitted?, fun p => ⟨?_, ?_⟩⟩
    · rw [tasks_run, tasks_run, List.map_append, TaskSet.members_validate, (hrows p).1,
        List.filterMap_append, ← TaskSet.members_validate]
    · refine (filterMap_admitted?_sublist (rows p)).trans ?_
      rw [(hrows p).2, TaskSet.members_ofDescribed]
      exact List.filter_sublist
  · rw [warnings_run, warnings_run, List.filterMap_append, List.map_append, TaskSet.validate_snd,
      TaskSet.validate_snd]
    refine (List.sublist_append_left _ _).append ?_
    simp only [(hrows _).1, List.filterMap_append]
    exact List.Sublist.flatMap_right _ fun p _ => List.sublist_append_left _ _

end Outcome

end TaskWrappers
