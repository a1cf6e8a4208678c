import Mathlib.Data.List.Nodup
import Mathlib.Data.List.Pairwise
import TaskWrappers.Proofs.Outcome.Contest
import TaskWrappers.Proofs.Wrapper.Members

/-!
# Members that clash

The members of a class must have names of their own, but for methods, which only need parameters
of other types than those of the same name, and none may be called like the class. All names that
are put together from a task's name tell what they are put together from
(`Member.affixes_of_name_eq`), and the methods of one name differ in the types of their parameters.
What is left are the triggers of a host, which are called like their tasks and may be called like
anything else: the generated class has members that clash exactly if a trigger is called like the
class itself, like the context of activities or like the instance of an orchestrator
(`Plan.legal_build_iff`).
-/

namespace TaskWrappers

/-- The types of a method's parameters when types are read in a given way. -/
def WrapperMethod.types (read : String → String) (m : WrapperMethod) : List String :=
  m.parameters.map fun p => read p.type

namespace WrapperDecl

def name : WrapperDecl → String
  | field _ name _ => name
  | method m => m.name
  | nested name _ => name

/-- Whether two members can stand in one class: under different names, or as methods with
parameters of different types. -/
def Beside (read : String → String) : WrapperDecl → WrapperDecl → Prop
  | method v, method w => v.name = w.name → v.types read ≠ w.types read
  | d, e => d.name ≠ e.name

instance (read : String → String) : DecidableRel (Beside read)
  | method _, method _ => inferInstanceAs (Decidable (_ → _))
  | field .., _ => inferInstanceAs (Decidable (_ ≠ _))
  | nested .., _ => inferInstanceAs (Decidable (_ ≠ _))
  | method _, field .. => inferInstanceAs (Decidable (_ ≠ _))
  | method _, nested .. => inferInstanceAs (Decidable (_ ≠ _))

theorem Beside.symm {read : String → String} {d e : WrapperDecl} (h : Beside read d e) :
    Beside read e d := by
  cases d <;> cases e
  case method.method => exact fun hname htypes => h hname.symm htypes.symm
  all_goals exact Ne.symm h

theorem beside_of_name_ne {read : String → String} {d e : WrapperDecl} (h : d.name ≠ e.name) :
    Beside read d e := by
  cases d <;> cases e
  case method.method => exact fun hname => (h hname).elim
  all_goals exact h

end WrapperDecl

/-- That the members of a plan can be declared in one class. -/
structure Plan.Legal (p : Plan) (read : String → String) : Prop where
  beside : p.members.Pairwise fun x y => WrapperDecl.Beside read x.decl y.decl
  outside : ∀ x ∈ p.members, x.decl.name ≠ p.className

instance (p : Plan) (read : String → String) : Decidable (p.Legal read) :=
  decidable_of_iff
    ((p.members.Pairwise fun x y => WrapperDecl.Beside read x.decl y.decl) ∧
      ∀ x ∈ p.members, x.decl.name ≠ p.className)
    ⟨fun ⟨hbeside, houtside⟩ => ⟨hbeside, houtside⟩, fun h => ⟨h.beside, h.outside⟩⟩

/-- The tasks that have triggers in a host, by name. -/
def TaskSet.triggers (t : TaskSet) : List String :=
  t.orchestrators.map (·.name) ++ t.activities.map (·.name)

namespace Member

/-- What stands before and after a task's name in the names of members. -/
def affixes : List (String × String) :=
  [("singleton", ""), ("ScheduleNew", "InstanceAsync"), ("Call", "Async"), (adapterName, ""),
    ("AddAllGeneratedTasks", "")]

/-- How the name of a member is put together, unless it is the task's name alone. -/
def parts? : Member → Option ((String × String) × String)
  | .instance task _ => some (("singleton", ""), task)
  | orchestratorTrigger .. => none
  | schedule task _ => some (("ScheduleNew", "InstanceAsync"), task)
  | subOrchestration task .. => some (("Call", "Async"), task)
  | activityCall task .. => some (("Call", "Async"), task)
  | activityTrigger .. => none
  | functionCall task .. => some (("Call", "Async"), task)
  | adapter => some ((adapterName, ""), "")
  | registration .. => some (("AddAllGeneratedTasks", ""), "")

theorem parts_spec {x : Member} {affix : String × String} {task : String}
    (h : x.parts? = some (affix, task)) :
    affix ∈ affixes ∧ x.decl.name = affix.1 ++ task ++ affix.2 := by
  cases x <;> cases h
  all_goals exact ⟨by decide, by simp [decl, WrapperDecl.name, scheduleMethod,
    subOrchestrationMethod, callMethod, registrationMethod]⟩

/-- Names put together of different words start differently. -/
theorem affixes_of_name_eq {p q : String × String} (hp : p ∈ affixes) (hq : q ∈ affixes)
    {a b : String} (h : p.1 ++ a ++ p.2 = q.1 ++ b ++ q.2) : p = q ∧ a = b := by
  have hhead {p : String × String} (hp : p ∈ affixes) (a : String) :
      (p.1 ++ a ++ p.2).toList.head? = p.1.toList.head? := by
    have hne : p.1.toList ≠ [] := by revert p; decide
    rw [String.toList_append, String.toList_append, List.append_assoc,
      List.head?_append_of_ne_nil _ hne]
  have hall : ∀ p ∈ affixes, ∀ q ∈ affixes, p.1.toList.head? = q.1.toList.head? → p = q := by
    decide
  have heq : p = q := hall p hp q hq (by rw [← hhead hp a, ← hhead hq b, h])
  subst heq
  exact ⟨rfl, by simpa using h⟩

/-- The name of a trigger, which is its task's. -/
def trigger? : Member → Option String
  | orchestratorTrigger task .. => some task
  | activityTrigger task .. => some task
  | _ => none

theorem name_of_trigger? {x : Member} {n : String} (h : x.trigger? = some n) :
    x.decl.name = n := by
  cases x <;> cases h <;> rfl

/-- The name of a member that no other member may have. -/
def ownName? : Member → Option String
  | .instance task _ => some ("singleton" ++ task)
  | adapter => some adapterName
  | _ => none

/-- That two members are not made for the same: they have different roles or tasks, do not call a
class and a function of one name, and do not both close the class. -/
structure Apart (x y : Member) : Prop where
  role : ∀ r n, x.role? = some (r, n) → y.role? ≠ some (r, n)
  call : ∀ n, x.role? = some (.activityCall, n) → y.role? ≠ some (.functionCall, n)
  called : ∀ n, x.role? = some (.functionCall, n) → y.role? ≠ some (.activityCall, n)
  closing : x.role? = none → y.role? ≠ none

theorem Apart.symm {x y : Member} (h : x.Apart y) : y.Apart x where
  role r n hy hx := h.role r n hx hy
  call n hy hx := h.called n hx hy
  called n hy hx := h.call n hx hy
  closing hy hx := h.closing hx hy

section Beside

variable {read : String → String} (hread : read "FunctionContext" ≠ read "TaskOptions?")

@[simp] theorem types_orchestratorTriggerMethod (task input output : String) :
    (orchestratorTriggerMethod task input output).types read
      = [read "string", read "FunctionContext"] := rfl

@[simp] theorem types_activityTriggerMethod (task type inputDefault output : String) :
    (activityTriggerMethod task type inputDefault output).types read
      = [read inputDefault, read "string", read "FunctionContext"] := rfl

@[simp] theorem types_scheduleMethod (task inputDefault : String) :
    (scheduleMethod task inputDefault).types read
      = [read "DurableTaskClient", read "string?", read inputDefault, read "DateTimeOffset?"] := rfl

@[simp] theorem types_subOrchestrationMethod (task inputDefault output : String) :
    (subOrchestrationMethod task inputDefault output).types read
      = [read "TaskOrchestrationContext", read "string?", read inputDefault,
        read "TaskOptions?"] := rfl

@[simp] theorem types_callMethod (task : String) (input : FunctionInput) (output : String) :
    (callMethod task input output).types read
      = [read "TaskOrchestrationContext", read input.type, read "TaskOptions?"] := rfl

@[simp] theorem types_registrationMethod (orchestrators activities : List String) :
    (registrationMethod orchestrators activities).types read = [read "DurableTaskRegistry"] := rfl

theorem beside_of_types_ne {v w : WrapperMethod} (h : v.types read ≠ w.types read) :
    WrapperDecl.Beside read (.method v) (.method w) := fun _ => h

include hread in
/-- A trigger has parameters of its own, and so stands beside all methods. -/
theorem beside_trigger {x y : Member} (h : x.Apart y) {n : String} (hx : x.trigger? = some n)
    (hy : y.ownName? = none) : WrapperDecl.Beside read x.decl y.decl := by
  cases x <;> cases hx
  case orchestratorTrigger.refl input output =>
    cases y <;> cases hy
    case orchestratorTrigger.refl task _ _ =>
      exact WrapperDecl.beside_of_name_ne fun hname => h.role _ _ rfl (by
        rw [show task = n from hname.symm]; rfl)
    all_goals exact beside_of_types_ne (by simp)
  case activityTrigger.refl type inputDefault output =>
    cases y <;> cases hy
    case activityTrigger.refl task _ _ _ =>
      exact WrapperDecl.beside_of_name_ne fun hname => h.role _ _ rfl (by
        rw [show task = n from hname.symm]; rfl)
    all_goals exact beside_of_types_ne (by simp [hread])

/-- Of two members whose names are put together alike, one calls an orchestrator and the other an
activity. -/
theorem beside_of_parts_eq {x y : Member} (h : x.Apart y) {p : (String × String) × String}
    (hx : x.parts? = some p) (hy : y.parts? = some p) :
    WrapperDecl.Beside read x.decl y.decl := by
  cases x <;> cases hx <;> cases y <;>
    simp only [parts?, adapterName, Option.some.injEq, Prod.mk.injEq, String.reduceEq, and_true,
      and_false, false_and, true_and, reduceCtorEq] at hy
  case subOrchestration.refl.activityCall | subOrchestration.refl.functionCall
      | activityCall.refl.subOrchestration | functionCall.refl.subOrchestration =>
    exact beside_of_types_ne (by simp)
  case activityCall.refl.functionCall => exact (h.call _ rfl (hy ▸ rfl)).elim
  case functionCall.refl.activityCall => exact (h.called _ rfl (hy ▸ rfl)).elim
  case adapter.refl.adapter | registration.refl.registration => exact (h.closing rfl rfl).elim
  all_goals exact (h.role _ _ rfl (hy ▸ rfl)).elim

theorem beside_of_parts {x y : Member} (h : x.Apart y) {p q : (String × String) × String}
    (hx : x.parts? = some p) (hy : y.parts? = some q) :
    WrapperDecl.Beside read x.decl y.decl := by
  by_cases hname : x.decl.name = y.decl.name
  · obtain ⟨hp, hxname⟩ := parts_spec hx
    obtain ⟨hq, hyname⟩ := parts_spec hy
    rw [hxname, hyname] at hname
    obtain ⟨haffix, htask⟩ := affixes_of_name_eq hp hq hname
    exact beside_of_parts_eq h hx (hy.trans (congrArg some (Prod.ext haffix htask).symm))
  · exact WrapperDecl.beside_of_name_ne hname

theorem beside_ownName_iff {x y : Member} {n m : String} (hx : x.trigger? = some n)
    (hy : y.ownName? = some m) : WrapperDecl.Beside read x.decl y.decl ↔ n ≠ m := by
  cases x <;> cases hx <;> cases y <;> cases hy <;> exact Iff.rfl

/-- Whether one member is a trigger that is called like the other, which no member may be. -/
def Clashes (x y : Member) : Prop := ∃ n, x.trigger? = some n ∧ y.ownName? = some n

/-- The name of the class starts with none of the words that names of members are put together
of. -/
theorem name_ne_generatedClass {x : Member} {p : (String × String) × String}
    (h : x.parts? = some p) : x.decl.name ≠ Plan.generatedClass := by
  obtain ⟨hp, hname⟩ := parts_spec h
  have hstart : ∀ q ∈ affixes, ¬ q.1.toList <+: Plan.generatedClass.toList := by decide
  intro heq
  refine hstart p.1 hp ⟨(p.2 ++ p.1.2).toList, ?_⟩
  rw [← heq, hname]
  simp only [String.toList_append, List.append_assoc]

theorem trigger?_or_parts? (x : Member) : (∃ n, x.trigger? = some n) ∨ ∃ p, x.parts? = some p := by
  cases x
  case orchestratorTrigger | activityTrigger => exact .inl ⟨_, rfl⟩
  all_goals exact .inr ⟨_, rfl⟩

theorem not_clashes_of_parts? {x : Member} {p : (String × String) × String}
    (h : x.parts? = some p) (y : Member) : ¬ x.Clashes y := by
  rintro ⟨n, hn, -⟩
  cases x <;> cases h <;> cases hn

theorem not_clashes_of_trigger? {x : Member} {n : String} (h : x.trigger? = some n) (y : Member) :
    ¬ y.Clashes x := by
  rintro ⟨m, -, hm⟩
  cases x <;> cases h <;> cases hm

include hread in
theorem beside_trigger_iff {x y : Member} (h : x.Apart y) {n : String}
    (hx : x.trigger? = some n) :
    WrapperDecl.Beside read x.decl y.decl ↔ ¬ x.Clashes y := by
  cases hy : y.ownName? with
  | none =>
    refine iff_of_true (beside_trigger hread h hx hy) ?_
    rintro ⟨m, -, hm⟩
    rw [hy] at hm
    cases hm
  | some m =>
    rw [beside_ownName_iff hx hy, Clashes, hx, hy]
    simp only [Option.some_inj, exists_eq_left', ne_eq, eq_comm]

include hread in
/-- Members that are apart clash only where a trigger is called like the other of them. -/
theorem beside_iff {x y : Member} (h : x.Apart y) :
    WrapperDecl.Beside read x.decl y.decl ↔ ¬ x.Clashes y ∧ ¬ y.Clashes x := by
  rcases trigger?_or_parts? x with ⟨n, hx⟩ | ⟨p, hx⟩
  · rw [beside_trigger_iff hread h hx]
    exact (and_iff_left (not_clashes_of_trigger? hx y)).symm
  · rw [and_iff_right (not_clashes_of_parts? hx y)]
    rcases trigger?_or_parts? y with ⟨n, hy⟩ | ⟨q, hy⟩
    · rw [← beside_trigger_iff hread h.symm hy]
      exact ⟨WrapperDecl.Beside.symm, WrapperDecl.Beside.symm⟩
    · exact iff_of_true (beside_of_parts h hx hy) (not_clashes_of_parts? hy x)

end Beside

end Member

theorem Plan.mem_of_wrappers {p : Plan} {r : Role} {n : String} {x : Member}
    (h : p.wrappers r n = [x]) : x ∈ p.members :=
  (List.mem_filter.1 (h ▸ List.mem_singleton_self x)).1

namespace Plan.Emits

variable {p : Plan} {t : TaskSet} (h : p.Emits t)
include h

theorem length_wrappers {r : Role} {n : String} (hn : n ∈ r.names t) :
    (p.wrappers r n).length ≤ 1 := by
  have hhost (x : Member) : (inHost p.mode [x]).length ≤ 1 := by
    cases p.mode <;> simp [inHost]
  cases r with
  | «instance» | orchestratorTrigger | schedule | subOrchestration =>
    obtain ⟨o, ho, rfl⟩ := List.mem_map.1 hn
    simp [h.orchestrator o ho, hhost]
  | activityCall | activityTrigger =>
    obtain ⟨a, ha, rfl⟩ := List.mem_map.1 hn
    simp [h.activity a ha, hhost]
  | functionCall =>
    obtain ⟨f, hf, rfl⟩ := List.mem_map.1 hn
    simp [h.function f hf]

theorem eq_of_role? {x y : Member} (hx : x ∈ p.members) (hy : y ∈ p.members) {r : Role}
    {n : String} (hxr : x.role? = some (r, n)) (hyr : y.role? = some (r, n)) : x = y := by
  have hlength := h.length_wrappers (h.named x hx r n hxr)
  have hxw : x ∈ p.wrappers r n := List.mem_filter.2 ⟨hx, by simpa using hxr⟩
  have hyw : y ∈ p.wrappers r n := List.mem_filter.2 ⟨hy, by simpa using hyr⟩
  match hw : p.wrappers r n with
  | [] => rw [hw] at hxw; cases hxw
  | [z] =>
    rw [hw, List.mem_singleton] at hxw hyw
    rw [hxw, hyw]
  | _ :: _ :: _ => rw [hw] at hlength; simp at hlength

theorem count_of_role? {x : Member} {r : Role} {n : String} (hx : x.role? = some (r, n)) :
    p.members.count x ≤ 1 := by
  by_cases hmem : x ∈ p.members
  · have hcount : p.members.count x = (p.wrappers r n).count x :=
      (List.count_filter (by simpa using hx)).symm
    rw [hcount]
    exact Nat.le_trans List.count_le_length (h.length_wrappers (h.named x hmem r n hx))
  · rw [List.count_eq_zero_of_not_mem hmem]
    exact Nat.zero_le 1

theorem nodup_members : p.members.Nodup := by
  rw [List.nodup_iff_count_le_one]
  intro x
  cases x with
  | adapter =>
    rw [h.adapter]
    split <;> omega
  | registration os as =>
    cases hmode : p.mode with
    | hostIntegrated =>
      rw [List.count_eq_zero_of_not_mem (h.unregistered hmode os as)]
      exact Nat.zero_le 1
    | standalone =>
      obtain ⟨before, hmembers, hbefore⟩ := h.registered hmode
      rw [hmembers, List.count_append, List.count_eq_zero_of_not_mem (hbefore os as), Nat.zero_add]
      exact List.count_le_length
  | _ => exact h.count_of_role? rfl

theorem adapter_mem_iff : .adapter ∈ p.members ↔ p.mode = .hostIntegrated ∧ t.activities ≠ [] := by
  rw [← List.count_pos_iff, h.adapter]
  split <;> simp_all

theorem mode_of_registration {os as : List String} (hx : .registration os as ∈ p.members) :
    p.mode = .standalone := by
  cases hmode : p.mode with
  | hostIntegrated => exact (h.unregistered hmode os as hx).elim
  | standalone => rfl

theorem eq_of_registration {os as os' as' : List String} (hx : .registration os as ∈ p.members)
    (hy : .registration os' as' ∈ p.members) :
    Member.registration os as = .registration os' as' := by
  obtain ⟨before, hmembers, hbefore⟩ := h.registered (h.mode_of_registration hx)
  have hlast {os as : List String} (hmem : Member.registration os as ∈ p.members) :
      Member.registration os as = .registration (t.orchestrators.map (·.declaration))
        (t.activities.map (·.declaration)) := by
    rw [hmembers, List.mem_append] at hmem
    exact List.mem_singleton.1 (hmem.resolve_left (hbefore os as))
  rw [hlast hx, hlast hy]

/-- Different members are made for different purposes. -/
theorem apart (hcalls : (t.activities.map (·.name) ++ t.functions.map (·.name)).Nodup)
    {x y : Member} (hx : x ∈ p.members) (hy : y ∈ p.members) (hne : x ≠ y) : x.Apart y where
  role r n hxr hyr := hne (h.eq_of_role? hx hy hxr hyr)
  call n hxr hyr :=
    List.disjoint_of_nodup_append hcalls (h.named x hx _ n hxr) (h.named y hy _ n hyr)
  called n hxr hyr :=
    List.disjoint_of_nodup_append hcalls (h.named y hy _ n hyr) (h.named x hx _ n hxr)
  closing hxr hyr := by
    have hmode (os as : List String) (hadapter : Member.adapter ∈ p.members)
        (hregistration : .registration os as ∈ p.members) : False := by
      have hhost := (h.adapter_mem_iff.1 hadapter).1
      rw [h.mode_of_registration hregistration] at hhost
      cases hhost
    cases x <;> cases hxr <;> cases y <;> cases hyr
    case adapter.refl.adapter.refl => exact hne rfl
    case adapter.refl.registration.refl os as => exact hmode os as hx hy
    case registration.refl.adapter.refl os as => exact hmode os as hy hx
    case registration.refl.registration.refl => exact hne (h.eq_of_registration hx hy)

/-- In a host every task has its trigger. -/
theorem trigger_mem_iff {n : String} :
    (∃ x ∈ p.members, x.trigger? = some n) ↔ p.mode = .hostIntegrated ∧ n ∈ t.triggers := by
  constructor
  · rintro ⟨x, hx, hn⟩
    cases x with
    | orchestratorTrigger =>
      cases hn
      exact ⟨h.hosted _ hx _ _ rfl rfl, List.mem_append_left _ (h.named _ hx _ _ rfl)⟩
    | activityTrigger =>
      cases hn
      exact ⟨h.hosted _ hx _ _ rfl rfl, List.mem_append_right _ (h.named _ hx _ _ rfl)⟩
    | _ => cases hn
  · rintro ⟨hmode, hn⟩
    rcases List.mem_append.1 hn with hn | hn
    · obtain ⟨o, ho, rfl⟩ := List.mem_map.1 hn
      have hw := (h.orchestrator o ho).2.2.2
      rw [hmode] at hw
      exact ⟨_, mem_of_wrappers hw, rfl⟩
    · obtain ⟨a, ha, rfl⟩ := List.mem_map.1 hn
      have hw := (h.activity a ha).2
      rw [hmode] at hw
      exact ⟨_, mem_of_wrappers hw, rfl⟩

theorem ownName_mem_iff {m : String} (hmode : p.mode = .hostIntegrated) :
    (∃ x ∈ p.members, x.ownName? = some m) ↔
      (t.activities ≠ [] ∧ m = Member.adapterName) ∨
        ∃ o ∈ t.orchestrators, m = "singleton" ++ o.name := by
  constructor
  · rintro ⟨x, hx, hm⟩
    cases x with
    | «instance» =>
      cases hm
      obtain ⟨o, ho, hname⟩ := List.mem_map.1 (h.named _ hx _ _ rfl)
      exact .inr ⟨o, ho, by rw [hname]⟩
    | adapter =>
      cases hm
      exact .inl ⟨(h.adapter_mem_iff.1 hx).2, rfl⟩
    | _ => cases hm
  · rintro (⟨hactivities, rfl⟩ | ⟨o, ho, rfl⟩)
    · exact ⟨.adapter, h.adapter_mem_iff.2 ⟨hmode, hactivities⟩, rfl⟩
    · have hw := (h.orchestrator o ho).2.2.1
      rw [hmode] at hw
      exact ⟨_, mem_of_wrappers hw, rfl⟩

theorem pairwise_beside_iff {read : String → String}
    (hread : read "FunctionContext" ≠ read "TaskOptions?")
    (hcalls : (t.activities.map (·.name) ++ t.functions.map (·.name)).Nodup) :
    (p.members.Pairwise fun x y => WrapperDecl.Beside read x.decl y.decl) ↔
      ∀ x ∈ p.members, ∀ y ∈ p.members, ¬ x.Clashes y := by
  constructor
  · intro hbeside x hx y hy hclash
    have hne : x ≠ y := by
      rintro rfl
      obtain ⟨n, hn, -⟩ := id hclash
      exact Member.not_clashes_of_trigger? hn x hclash
    have : Std.Symm fun x y : Member => WrapperDecl.Beside read x.decl y.decl :=
      ⟨fun _ _ => WrapperDecl.Beside.symm⟩
    have hxy := hbeside.forall hx hy hne
    exact ((Member.beside_iff hread (h.apart hcalls hx hy hne)).1 hxy).1 hclash
  · exact fun hclash => h.nodup_members.pairwise_of_forall_ne fun x hx y hy hne =>
      (Member.beside_iff hread (h.apart hcalls hx hy hne)).2 ⟨hclash x hx y hy, hclash y hy x hx⟩

/-- Only a trigger can be called like the class. -/
theorem outside_iff :
    (∀ x ∈ p.members, x.decl.name ≠ generatedClass) ↔
      (p.mode = .hostIntegrated → ∀ n ∈ t.triggers, n ≠ generatedClass) := by
  constructor
  · intro houtside hmode n hn
    obtain ⟨x, hx, hxn⟩ := h.trigger_mem_iff.2 ⟨hmode, hn⟩
    rw [← Member.name_of_trigger? hxn]
    exact houtside x hx
  · intro htriggers x hx
    rcases x.trigger?_or_parts? with ⟨n, hn⟩ | ⟨q, hq⟩
    · obtain ⟨hmode, hmem⟩ := h.trigger_mem_iff.1 ⟨x, hx, hn⟩
      rw [Member.name_of_trigger? hn]
      exact htriggers hmode n hmem
    · exact Member.name_ne_generatedClass hq

end Plan.Emits

namespace Plan

/-- Whether a trigger of the given name is in no other member's way. -/
structure Unopposed (t : TaskSet) (n : String) : Prop where
  generatedClass : n ≠ generatedClass
  adapter : t.activities ≠ [] → n ≠ Member.adapterName
  «instance» : ∀ o ∈ t.orchestrators, n ≠ "singleton" ++ o.name

variable {read : String → String} (hread : read "FunctionContext" ≠ read "TaskOptions?")
include hread

theorem legal_iff {mode : Mode} {t : TaskSet} (h : (build mode t).Emits t)
    (hcalls : (t.activities.map (·.name) ++ t.functions.map (·.name)).Nodup) :
    (build mode t).Legal read ↔ (mode = .hostIntegrated → ∀ n ∈ t.triggers, Unopposed t n) := by
  constructor
  · intro hlegal hmode n hn
    have hclash := (h.pairwise_beside_iff hread hcalls).1 hlegal.beside
    have houtside := h.outside_iff.1 hlegal.outside hmode n hn
    obtain ⟨x, hx, hxn⟩ := h.trigger_mem_iff.2 ⟨hmode, hn⟩
    have hown (m : String) (hm : ∃ y ∈ (build mode t).members, y.ownName? = some m) : n ≠ m := by
      rintro rfl
      obtain ⟨y, hy, hyn⟩ := hm
      exact hclash x hx y hy ⟨n, hxn, hyn⟩
    refine ⟨houtside, fun hactivities => hown _ ?_, fun o ho => hown _ ?_⟩
    · exact (h.ownName_mem_iff hmode).2 (.inl ⟨hactivities, rfl⟩)
    · exact (h.ownName_mem_iff hmode).2 (.inr ⟨o, ho, rfl⟩)
  · intro hfree
    refine ⟨(h.pairwise_beside_iff hread hcalls).2 ?_,
      h.outside_iff.2 fun hmode n hn => (hfree hmode n hn).generatedClass⟩
    rintro x hx y hy ⟨n, hxn, hyn⟩
    obtain ⟨hmode, hn⟩ := h.trigger_mem_iff.1 ⟨x, hx, hxn⟩
    rcases (h.ownName_mem_iff hmode).1 ⟨y, hy, hyn⟩ with ⟨hactivities, heq⟩ | ⟨o, ho, heq⟩
    · exact (hfree hmode n hn).adapter hactivities heq
    · exact (hfree hmode n hn).instance o ho heq

end Plan

/-- A name that a pass has given is called by one activity, be it a class or a function. -/
theorem TaskSet.nodup_callNames_validate (t : TaskSet) :
    (t.validate.1.activities.map (·.name) ++ t.validate.1.functions.map (·.name)).Nodup := by
  have hnames : t.validate.1.calls.map (·.name)
      = t.validate.1.activities.map (·.name) ++ t.validate.1.functions.map (·.name) := by
    simp only [calls, members, List.map_append, List.map_map]
    rfl
  rw [← hnames, calls_validate]
  exact nodup_keep _ _

namespace Plan

/-- The members for the tasks that keep their names can be declared in one class, whatever way the
types of parameters are read in, unless a trigger of a host is called like something else in the
class. -/
theorem legal_build_iff {read : String → String}
    (hread : read "FunctionContext" ≠ read "TaskOptions?") (mode : Mode) (t : TaskSet) :
    (build mode t.validate.1).Legal read ↔
      (mode = .hostIntegrated → ∀ n ∈ t.validate.1.triggers, Unopposed t.validate.1 n) :=
  legal_iff hread (emits_build mode t.named_validate) t.nodup_callNames_validate

/-- An orchestrator and an activity that is called like the orchestrator's wrapper. -/
def overloaded : TaskSet where
  orchestrators := [⟨.orchestrator, "App.Ship", "Ship", .declared, "int", "int", "int", default⟩]
  activities := [⟨.activity, "App.CallShipAsync", "CallShipAsync", .declared, "int", "int", "int",
    default⟩]
  functions := []

/-- The activity's trigger and the orchestrator's wrapper are methods of one name and different
parameters. -/
theorem legal_overloaded : (build .hostIntegrated overloaded.validate.1).Legal id :=
  (legal_build_iff (by decide) .hostIntegrated overloaded).2 fun _ n hn => by
    have hkept : overloaded.validate.1 = overloaded := by decide +kernel
    rw [hkept] at hn ⊢
    have hn : n = "Ship" ∨ n = "CallShipAsync" := by simpa [TaskSet.triggers, overloaded] using hn
    rcases hn with rfl | rfl
    all_goals
      refine ⟨by decide, fun _ => by decide, fun o ho => ?_⟩
      rw [List.mem_singleton.1 ho]
      decide

/-- A file with an activity that is called like the context that activity triggers run in. -/
def contextClassFile : SourceFile where
  path := "Context.cs"
  usings := []
  types := [⟨"GeneratedActivityContext", .class, some "App", [], 0, [], [],
    ["TaskActivity<int, string>"], [], [], default⟩]
  damage := none

/-- The activity is kept without a warning, and its trigger is called like the class of the
context. -/
theorem legal_contextClass_false :
    (Outcome.run (.build [contextClassFile] []) [Mode.hostModule]
        (Candidate.scan [contextClassFile])).warnings = [] ∧
      ¬ (build .hostIntegrated (Outcome.run (.build [contextClassFile] []) [Mode.hostModule]
        (Candidate.scan [contextClassFile])).tasks).Legal id := by
  decide +kernel

end Plan

end TaskWrappers
