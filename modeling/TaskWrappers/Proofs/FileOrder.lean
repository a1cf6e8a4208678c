import Mathlib.Data.List.Perm.Basic
import TaskWrappers.Proofs.Outcome.Ledger
import TaskWrappers.Proofs.Resolution.Alike

/-!
# The order of files

A pass reads files in some order, and what comes later in it may hide what came before. Where no
name is given twice (`Unambiguous`) nothing is hidden: the first of the entries that a lookup could
find is the same in every order (`find?_of_perm`), so all types and constants are
(`Unambiguous.same_build`), and no candidate is refused because another came first
(`TaskSet.judged_of_nodup`). A pass over the files in another order then has the same outcome but
for its order (`Unambiguous.reorder`).
-/

namespace TaskWrappers

section Lists

variable {α : Type} {l l' : List α}

theorem eq_of_perm (hperm : l.Perm l') (h : ∀ a ∈ l, ∀ b ∈ l, a = b) : l = l' := by
  cases l with
  | nil => exact hperm.nil_eq
  | cons a as =>
    have hl : a :: as = List.replicate (a :: as).length a :=
      List.eq_replicate_of_mem fun b hb => h b hb a List.mem_cons_self
    rw [hl] at hperm ⊢
    exact List.replicate_perm.1 hperm

/-- Where all that could be found is the same, the order does not matter. -/
theorem find?_of_perm {p : α → Bool} (hperm : l.Perm l')
    (h : ∀ a ∈ l, ∀ b ∈ l, p a = true → p b = true → a = b) : l.find? p = l'.find? p := by
  rw [← List.head?_filter, ← List.head?_filter]
  refine congrArg List.head? (eq_of_perm (hperm.filter p) fun a ha b hb => ?_)
  obtain ⟨ha, hpa⟩ := List.mem_filter.1 ha
  obtain ⟨hb, hpb⟩ := List.mem_filter.1 hb
  exact h a ha b hb hpa hpb

end Lists

/-- Whether a directive of the file is in force in all files. -/
def SourceFile.hasGlobals (f : SourceFile) : Bool := f.usings.any (·.isGlobal)

/-- Files in which no name is given to two things. What is declared twice is declared alike both
times, a constant with the scope that its value is read in; all global directives are in one file;
and no two candidates of a kind are called by one name. -/
structure Unambiguous (files : List SourceFile) (implicitSpaces : List String) : Prop where
  types : ∀ d ∈ files.flatMap (·.types), ∀ d' ∈ files.flatMap (·.types),
    d.fullName = d'.fullName → d.arity = d'.arity → KnownType.ofDecl d = .ofDecl d'
  constants : ∀ c ∈ files.flatMap fun f => f.types.flatMap (KnownConstant.ofDecl f),
    ∀ c' ∈ files.flatMap fun f => f.types.flatMap (KnownConstant.ofDecl f),
      c.fullName = c'.fullName → c = c'
  globals : ∀ f ∈ files, ∀ f' ∈ files, f.hasGlobals = true → f'.hasGlobals = true → f = f'
  names : ∀ kind, (((Candidate.scan files).filter (·.kind = kind)).map
    (·.calledName (.build files implicitSpaces))).Nodup

/-- Outcomes that differ in their order at most. -/
structure Outcome.Reordered (o o' : Outcome) : Prop where
  orchestrators : o.tasks.orchestrators.Perm o'.tasks.orchestrators
  activities : o.tasks.activities.Perm o'.tasks.activities
  functions : o.tasks.functions.Perm o'.tasks.functions
  mode : o.mode = o'.mode
  warnings : o.warnings.Perm o'.warnings

namespace Model

/-- Global directives come from the files that have some. -/
theorem globalUsings_build (files : List SourceFile) (implicitSpaces : List String) :
    (build files implicitSpaces).globalUsings
      = (files.filter (·.hasGlobals)).flatMap fun f => f.usings.filter (·.isGlobal) := by
  change (files.flatMap fun f => f.usings.filter (·.isGlobal)) = _
  induction files with
  | nil => rfl
  | cons f files ih =>
    rw [List.flatMap_cons, ih]
    by_cases hglobal : f.hasGlobals = true
    · rw [List.filter_cons_of_pos hglobal, List.flatMap_cons]
    · have hnone : f.usings.filter (·.isGlobal) = [] := by
        rw [List.filter_eq_nil_iff]
        intro u hu hglobal'
        exact hglobal (List.any_eq_true.2 ⟨u, hu, hglobal'⟩)
      rw [List.filter_cons_of_neg hglobal, hnone, List.nil_append]

end Model

namespace TaskSet

variable {t t' : TaskSet}

/-- Where names are distinct, a member is refused for its own name or not at all. -/
theorem judged_of_nodup (horchestrators : ((t.members .orchestrators).map (·.name)).Nodup)
    (hcalls : (t.calls.map (·.name)).Nodup) (p : Part) :
    t.judged p = (t.members p).map fun d => (d, invalid? d.name d.declaration) := by
  have hactivities : t.judged .activities
      = (t.members .activities).map fun d => (d, invalid? d.name d.declaration) := by
    rw [calls, List.map_append] at hcalls
    exact judge_of_nodup hcalls.of_append_left fun _ _ => List.lookup_nil
  cases p with
  | orchestrators => exact judge_of_nodup horchestrators fun _ _ => List.lookup_nil
  | activities => exact hactivities
  | functions =>
    have happend := t.judged_append
    rw [judge_of_nodup hcalls fun _ _ => List.lookup_nil, hactivities, calls,
      List.map_append] at happend
    exact List.append_cancel_left happend

end TaskSet

namespace Outcome

variable {m : Model} {cs cs' : List Candidate}

/-- Candidates of different names are described by members of different names. -/
theorem nodup_described (hnames : ∀ kind, ((cs.filter (·.kind = kind)).map (·.calledName m)).Nodup)
    (kind : TaskKind) :
    (((cs.map (·.describe m)).filter (·.kind = kind)).map (·.name)).Nodup := by
  have hmap : ((cs.map (·.describe m)).filter (·.kind = kind)).map (·.name)
      = (cs.filter (·.kind = kind)).map (·.calledName m) := by
    rw [List.filter_map, List.map_map]
    simp only [Function.comp_def, Candidate.kind_describe, Candidate.name_describe]
  rw [hmap]
  exact hnames kind

theorem judged_run (hnames : ∀ kind, ((cs.filter (·.kind = kind)).map (·.calledName m)).Nodup)
    (p : Part) :
    (TaskSet.ofDescribed (cs.map (·.describe m))).judged p
      = ((TaskSet.ofDescribed (cs.map (·.describe m))).members p).map
          fun d => (d, invalid? d.name d.declaration) := by
  have hparts (q : Part) : ((cs.map (·.describe m)).filter (·.kind = q.kind)).filter (·.part = q)
      = (TaskSet.ofDescribed (cs.map (·.describe m))).members q := by
    rw [TaskSet.members_ofDescribed, List.filter_filter]
    refine List.filter_congr fun d _ => ?_
    rw [Bool.eq_iff_iff]
    simp only [Bool.and_eq_true, decide_eq_true_eq, Described.kind]
    exact ⟨fun h => h.1, fun h => ⟨h, decide_eq_true (congrArg Part.kind h)⟩⟩
  refine TaskSet.judged_of_nodup ?_ ?_ p
  · rw [← hparts]
    exact (nodup_described hnames .orchestrator).sublist (List.filter_sublist.map _)
  · -- the calls are the candidates called as activities, with the classes put first
    have hcalls := List.filter_append_perm (fun d : Described => d.part = .activities)
      ((cs.map (·.describe m)).filter (·.kind = .activity))
    have hclasses : ((cs.map (·.describe m)).filter (·.kind = .activity)).filter
        (fun d => d.part = .activities)
          = (TaskSet.ofDescribed (cs.map (·.describe m))).members .activities := hparts .activities
    have hfunctions : ((cs.map (·.describe m)).filter (·.kind = .activity)).filter
        (fun d => !decide (d.part = .activities))
          = (TaskSet.ofDescribed (cs.map (·.describe m))).members .functions := by
      rw [← hparts .functions]
      refine List.filter_congr fun d hd => ?_
      have hkind : d.kind = .activity := by simpa using (List.mem_filter.1 hd).2
      rw [Described.kind] at hkind
      cases hpart : d.part <;> rw [hpart] at hkind <;> first | rfl | cases hkind
    rw [hclasses, hfunctions] at hcalls
    exact ((hcalls.map _).nodup_iff).2 (nodup_described hnames .activity)

/-- Candidates of different names may come in any order. -/
theorem run_of_perm (hperm : cs.Perm cs')
    (hnames : ∀ kind, ((cs.filter (·.kind = kind)).map (·.calledName m)).Nodup)
    (modules : List String) : (run m modules cs).Reordered (run m modules cs') := by
  have hnames' kind : ((cs'.filter (·.kind = kind)).map (·.calledName m)).Nodup :=
    (((hperm.filter _).map _).nodup_iff).1 (hnames kind)
  have hmembers p : ((TaskSet.ofDescribed (cs.map (·.describe m))).members p).Perm
      ((TaskSet.ofDescribed (cs'.map (·.describe m))).members p) := by
    rw [TaskSet.members_ofDescribed, TaskSet.members_ofDescribed]
    exact (hperm.map _).filter _
  have hjudged p : ((TaskSet.ofDescribed (cs.map (·.describe m))).judged p).Perm
      ((TaskSet.ofDescribed (cs'.map (·.describe m))).judged p) := by
    rw [judged_run hnames, judged_run hnames']
    exact (hmembers p).map _
  have hkept p : ((run m modules cs).tasks.members p).Perm
      ((run m modules cs').tasks.members p) := by
    rw [tasks_run, tasks_run, TaskSet.members_validate, TaskSet.members_validate]
    exact (hjudged p).filterMap _
  constructor
  · exact (List.map_perm_map_iff fun a b h => Described.task.inj h).1 (hkept .orchestrators)
  · exact (List.map_perm_map_iff fun a b h => Described.task.inj h).1 (hkept .activities)
  · exact (List.map_perm_map_iff fun a b h => Described.function.inj h).1 (hkept .functions)
  · rfl
  · rw [warnings_run, warnings_run, TaskSet.validate_snd, TaskSet.validate_snd]
    exact (hperm.filterMap _).append
      (List.Perm.flatMap_left _ fun p _ => (hjudged p).filterMap _)

end Outcome

namespace Unambiguous

variable {files files' : List SourceFile} {implicitSpaces : List String}

theorem sameTypes_build (h : Unambiguous files implicitSpaces) (hperm : files.Perm files') :
    Model.SameTypes (.build files implicitSpaces) (.build files' implicitSpaces) where
  type? fullName arity := by
    rw [Model.type?, Model.type?, Model.build, Model.build, List.find?_append, List.find?_append]
    refine congrArg (Option.or · _) (find?_of_perm ?_ ?_)
    · exact (List.reverse_perm _).trans
        ((hperm.flatMap_right _).trans (List.reverse_perm _).symm)
    · intro t ht t' ht' hfound hfound'
      rw [List.mem_reverse, ← List.map_flatMap] at ht ht'
      obtain ⟨d, hd, rfl⟩ := List.mem_map.1 ht
      obtain ⟨d', hd', rfl⟩ := List.mem_map.1 ht'
      simp only [KnownType.ofDecl, Bool.and_eq_true, beq_iff_eq] at hfound hfound'
      exact h.types d hd d' hd' (hfound.1.trans hfound'.1.symm) (hfound.2.trans hfound'.2.symm)
  globalUsings := by
    rw [Model.globalUsings_build, Model.globalUsings_build]
    refine congrArg (List.flatMap _) (eq_of_perm (hperm.filter _) fun f hf f' hf' => ?_)
    obtain ⟨hf, hglobal⟩ := List.mem_filter.1 hf
    obtain ⟨hf', hglobal'⟩ := List.mem_filter.1 hf'
    exact h.globals f hf f' hf' hglobal hglobal'
  implicitSpaces := rfl

theorem same_build (h : Unambiguous files implicitSpaces) (hperm : files.Perm files') :
    Model.Same (.build files implicitSpaces) (.build files' implicitSpaces) := by
  refine (h.sameTypes_build hperm).same (Model.SameTypes.sameConstants_of_eq fun fullName => ?_)
  refine find?_of_perm ?_ ?_
  · exact (List.reverse_perm _).trans ((hperm.flatMap_right _).trans (List.reverse_perm _).symm)
  · intro c hc c' hc' hfound hfound'
    rw [beq_iff_eq] at hfound hfound'
    exact h.constants c (List.mem_reverse.1 hc) c' (List.mem_reverse.1 hc')
      (hfound.trans hfound'.symm)

/-- In whatever order unambiguous files come, every reference and every constant has the same
meaning in every scope, to whatever depth aliases are followed, and a pass over them has the same
outcome but for its order. -/
theorem reorder (h : Unambiguous files implicitSpaces) (hperm : files.Perm files')
    (modules : List String) :
    (∀ s type, (Model.build files implicitSpaces).resolve s type
      = (Model.build files' implicitSpaces).resolve s type) ∧
    (∀ n s type, (Model.build files implicitSpaces).resolveWithin n s type
      = (Model.build files' implicitSpaces).resolveWithin n s type) ∧
    (∀ s expression, (Model.build files implicitSpaces).constantValue s expression
      = (Model.build files' implicitSpaces).constantValue s expression) ∧
    (Outcome.run (.build files implicitSpaces) modules (Candidate.scan files)).Reordered
      (Outcome.run (.build files' implicitSpaces) modules (Candidate.scan files')) := by
  have hsame := h.same_build hperm
  refine ⟨fun s type => hsame.resolve_eq type, fun n s type => hsame.resolveWithin_eq n type,
    fun s expression => hsame.constantValue s expression, ?_⟩
  rw [← hsame.run_eq]
  exact Outcome.run_of_perm (hperm.flatMap_right _) h.names modules

/-- A file with a global alias and a constant. -/
def sharedFile : SourceFile where
  path := "Shared.cs"
  usings := [⟨.aliased "Id", "System.Guid", true⟩]
  types := [⟨"Names", .class, some "App", [], 0, ["static"], [], [], [],
    [⟨"Send", "string", "\"SendMail\""⟩], default⟩]
  damage := none

/-- A file with an orchestrator and an activity that is named by the constant. -/
def mailFile : SourceFile where
  path := "Mail.cs"
  usings := []
  types := [⟨"Nightly", .class, some "App", [], 0, [], [], ["TaskOrchestrator<int, int>"], [], [],
      default⟩,
    ⟨"Send", .class, some "App", [], 0, [], [⟨"DurableTask", [⟨none, "Names.Send"⟩], default⟩],
      ["TaskActivity<Id, string>"], [], [], default⟩]
  damage := none

theorem unambiguous_mail : Unambiguous [mailFile, sharedFile] [] where
  types := by decide
  constants := by
    have hone : ([mailFile, sharedFile].flatMap fun f => f.types.flatMap (KnownConstant.ofDecl f))
        = [⟨"App.Names.Send", "\"SendMail\"", ⟨some "App", ["Names"], sharedFile.usings⟩⟩] := rfl
    rw [hone]
    intro c hc c' hc' _
    rw [List.mem_singleton.1 hc, List.mem_singleton.1 hc']
  globals := by
    have hone : ∀ f ∈ [mailFile, sharedFile], f.hasGlobals = true → f = sharedFile := by
      intro f hf hglobal
      rcases List.mem_cons.1 hf with rfl | hf
      · cases hglobal
      · exact List.mem_singleton.1 hf
    intro f hf f' hf' hglobal hglobal'
    rw [hone f hf hglobal, hone f' hf' hglobal']
  names := by
    intro kind
    cases kind <;> decide +kernel

theorem reorder_mail :
    [mailFile, sharedFile].Perm [sharedFile, mailFile] ∧
      (Model.build [mailFile, sharedFile] []).resolve .global (.named none [] (.plain "Id"))
        = (Model.build [sharedFile, mailFile] []).resolve .global (.named none [] (.plain "Id")) ∧
      (Outcome.run (.build [mailFile, sharedFile] []) []
        (Candidate.scan [mailFile, sharedFile])).Reordered
        (Outcome.run (.build [sharedFile, mailFile] []) []
          (Candidate.scan [sharedFile, mailFile])) ∧
      (Outcome.run (.build [sharedFile, mailFile] []) []
        (Candidate.scan [sharedFile, mailFile])).tasks.activities.map (·.name) = ["SendMail"] := by
  have hperm : [mailFile, sharedFile].Perm [sharedFile, mailFile] := .swap _ _ _
  obtain ⟨htypes, -, -, hrun⟩ := reorder unambiguous_mail hperm []
  exact ⟨hperm, htypes .global _, hrun, by decide +kernel⟩

end Unambiguous

end TaskWrappers
