import TaskWrappers.Outcome
import TaskWrappers.Proofs.TypeExpr.RoundTrip

/-!
# What a function results in

A function that is declared to return a task of some type results in that type, one that returns a
task without a result or nothing results in no particular type, and any other results in what it
returns (`functionResult_exact`). One layer is taken off at most, and what is left is printed, so
the layout of the declaration is lost and the type is not.

A task is known by its last name alone. What stands in front of that name is never looked at, so a
type of the user's that is called like a task is taken for one (`Candidate.result_describe_iff`),
unless it has type arguments and they are not just one type.
-/

namespace TaskWrappers

namespace TypeExpr

/-- Whether a type is a task, qualified or not, with a result of another type. -/
def IsTaskOf (t inner : TypeExpr) : Prop :=
  ∃ qualifier outer, ∃ name ∈ taskNames,
    t = .named qualifier outer (.generic name (.given inner) [])

/-- Whether a type is a task, qualified or not, without a result. -/
def IsBareTask (t : TypeExpr) : Prop :=
  ∃ qualifier outer, ∃ name ∈ taskNames, t = .named qualifier outer (.plain name)

variable {t inner : TypeExpr}

theorem resultText_of_isTaskOf (h : t.IsTaskOf inner) : t.resultText = inner.print := by
  obtain ⟨qualifier, outer, name, hname, rfl⟩ := h
  exact if_pos hname

theorem resultText_of_isBareTask (h : t.IsBareTask) : t.resultText = untyped := by
  obtain ⟨qualifier, outer, name, hname, rfl⟩ := h
  exact if_pos hname

theorem resultText_eq_print (hvoid : t ≠ .keyword "void") (hbare : ¬ t.IsBareTask)
    (htask : ∀ inner, ¬ t.IsTaskOf inner) : t.resultText = t.print := by
  unfold resultText
  split
  · exact absurd rfl hvoid
  · rename_i qualifier outer name
    exact if_neg fun hname => hbare ⟨qualifier, outer, name, hname, rfl⟩
  · rename_i qualifier outer name inner
    exact if_neg fun hname => htask inner ⟨qualifier, outer, name, hname, rfl⟩
  · rfl

/-- A task is printed longer than its result. -/
theorem print_ne_of_isTaskOf (h : t.IsTaskOf inner) : inner.print ≠ t.print := by
  obtain ⟨qualifier, outer, name, -, rfl⟩ := h
  have hlength : inner.print.length
      < (named qualifier outer (.generic name (.given inner) [])).print.length := by
    simp only [print, Segment.print, TypeArg.print, String.length_append]
    have hopen : "<".length = 1 := rfl
    omega
  intro heq
  exact absurd hlength (by rw [heq]; exact Nat.lt_irrefl _)

/-- The names of tasks have a letter that `object` has not. -/
theorem untyped_ne_of_isBareTask (h : t.IsBareTask) : untyped ≠ t.print := by
  obtain ⟨qualifier, outer, name, hname, rfl⟩ := h
  have hnames : ∀ n ∈ taskNames, 'k' ∈ n.toList := by decide
  intro heq
  have hmem : 'k' ∈ untyped.toList := by
    simp only [heq, print, Segment.print, String.toList_append]
    exact List.mem_append_right _ (hnames name hname)
  exact absurd hmem (by decide)

/-- Nothing else is lost: a type but `void` results in itself exactly if it is no task. -/
theorem resultText_eq_print_iff (hvoid : t ≠ .keyword "void") :
    t.resultText = t.print ↔ ¬ t.IsBareTask ∧ ∀ inner, ¬ t.IsTaskOf inner := by
  refine ⟨fun h => ⟨fun hbare => ?_, fun inner htask => ?_⟩,
    fun ⟨hbare, htask⟩ => resultText_eq_print hvoid hbare htask⟩
  · exact untyped_ne_of_isBareTask hbare (by rw [← resultText_of_isBareTask hbare, h])
  · exact print_ne_of_isTaskOf htask (by rw [← resultText_of_isTaskOf htask, h])

section Named

variable {qualifier : Option String} {outer : List Segment} {last : Segment}
  (hname : last.name ∈ taskNames)

include hname

theorem isBareTask_named_iff : (named qualifier outer last).IsBareTask ↔ last.args = [] := by
  constructor
  · rintro ⟨_, _, name, -, h⟩
    cases h
    rfl
  · intro h
    cases last with
    | plain name => exact ⟨qualifier, outer, name, hname, rfl⟩
    | generic name first rest => cases h

theorem isTaskOf_named_iff :
    (named qualifier outer last).IsTaskOf inner ↔ last.args = [.given inner] := by
  constructor
  · rintro ⟨_, _, name, -, h⟩
    cases h
    rfl
  · intro h
    cases last with
    | plain name => cases h
    | generic name first rest =>
      cases h
      exact ⟨qualifier, outer, name, hname, rfl⟩

end Named

end TypeExpr

open TypeExpr

theorem functionResult_of_read {text : String} {t : TypeExpr} (h : read text = .ok t) :
    functionResult text = t.resultText := by
  rw [functionResult, h]

/-- A task of a well formed type results in this type, whatever it is itself; what is neither a task
nor `void` results in itself; and the layout of a return type says nothing. -/
theorem functionResult_exact :
    (∀ (text : String) (t inner : TypeExpr), read text = .ok t → t.IsTaskOf inner →
      inner.WellFormed → functionResult text = inner.print ∧
        read (functionResult text) = .ok inner) ∧
    (∀ (text : String) (t : TypeExpr), read text = .ok t → t.WellFormed → t ≠ .keyword "void" →
      ¬ t.IsBareTask → (∀ inner, ¬ t.IsTaskOf inner) → read (functionResult text) = .ok t) ∧
    (∀ (text : String) (t : TypeExpr), read text = .ok t → t = .keyword "void" ∨ t.IsBareTask →
      functionResult text = untyped ∧ read (functionResult text) = .ok (.keyword untyped)) ∧
    ∀ (text text' : String) (t : TypeExpr), read text = .ok t → read text' = .ok t →
      functionResult text = functionResult text' := by
  refine ⟨?_, ?_, ?_, ?_⟩
  · intro text t inner hread htask hw
    have hresult : functionResult text = inner.print := by
      rw [functionResult_of_read hread, resultText_of_isTaskOf htask]
    exact ⟨hresult, by rw [hresult, read_print hw]⟩
  · intro text t hread hw hvoid hbare htask
    rw [functionResult_of_read hread, resultText_eq_print hvoid hbare htask, read_print hw]
  · intro text t hread hnone
    have hresult : functionResult text = untyped := by
      rw [functionResult_of_read hread]
      rcases hnone with rfl | hbare
      · rfl
      · exact resultText_of_isBareTask hbare
    have hw : (keyword untyped).WellFormed := by
      rw [WellFormed]
      decide
    exact ⟨hresult, by rw [hresult]; exact read_print hw⟩
  · intro text text' t hread hread'
    rw [functionResult_of_read hread, functionResult_of_read hread']

/-- The type of `Task<(int Id, string?[])>`. -/
def pairTask : TypeExpr :=
  .named none [] (.generic "Task" (.given (.tuple ⟨.keyword "int", some "Id"⟩
    ⟨.array (.nullable (.keyword "string")) 0, none⟩ [])) [])

/-- A task of a task loses one layer, and a type with tasks among its arguments none. -/
theorem functionResult_pairTask :
    (functionResult "global :: System.Threading. Tasks.ValueTask< Task <(int Id,string ? [ ])> >"
        = "Task<(int Id, string?[])>" ∧
      read "Task<(int Id, string?[])>" = .ok pairTask) ∧
    read (functionResult " List<Task < (int Id, string? [])>> ")
      = .ok (.named none [] (.generic "List" (.given pairTask) [])) ∧
    functionResult "Tasks . Task" = "object" ∧
    functionResult "Task<(int Id,string?[])>" = functionResult "Task <(int Id, string ?[])>" := by
  have hw : pairTask.WellFormed := by
    simp only [pairTask, WellFormed, Segment.AllWellFormed, Segment.WellFormed, TypeArg.WellFormed,
      TypeArg.AllWellFormed, TupleElement.WellFormed, TupleElement.AllWellFormed]
    simp only [Option.some.injEq, forall_eq', reduceCtorEq, false_implies, implies_true]
    decide
  have hnested : read
      "global :: System.Threading. Tasks.ValueTask< Task <(int Id,string ? [ ])> >"
      = .ok (.named (some "global") [.plain "System", .plain "Threading", .plain "Tasks"]
        (.generic "ValueTask" (.given pairTask) [])) := by
    cbv
  have hlist : read " List<Task < (int Id, string? [])>> "
      = .ok (.named none [] (.generic "List" (.given pairTask) [])) := by
    cbv
  have hbare : read "Tasks . Task" = .ok (.named none [.plain "Tasks"] (.plain "Task")) := by
    cbv
  have hprint : pairTask.print = "Task<(int Id, string?[])>" := by decide +kernel
  have htask := functionResult_exact.1 _ _ pairTask hnested
    ⟨_, _, "ValueTask", by decide, rfl⟩ hw
  refine ⟨?_, ?_, ?_, ?_⟩
  · rw [hprint] at htask
    exact ⟨htask.1, by rw [← htask.1]; exact htask.2⟩
  · refine functionResult_exact.2.1 _ _ hlist ?_ (by simp) ?_ ?_
    · simp only [WellFormed, Segment.AllWellFormed, Segment.WellFormed, TypeArg.WellFormed,
        TypeArg.AllWellFormed]
      exact ⟨by simp, trivial, ⟨by decide, hw, trivial⟩, by decide⟩
    · rintro ⟨_, _, _, _, h⟩
      cases h
    · rintro inner ⟨_, _, name, hname, h⟩
      cases h
      exact absurd hname (by decide)
  · exact (functionResult_exact.2.2.1 _ _ hbare (.inr ⟨_, _, "Task", by decide, rfl⟩)).1
  · exact functionResult_exact.2.2.2 _ _ pairTask (by cbv) (by cbv)

namespace Candidate

/-- A function that is declared to return what is called like a task results in the type as it is
written exactly if there are type arguments and they are not just one type. -/
theorem result_describe_iff (m : Model) (file : SourceFile) (decl : TypeDecl) {method : Method}
    (marker : Attribute) (trigger : Parameter) {qualifier : Option String} {outer : List Segment}
    {last : Segment} (hread : read method.returnType = .ok (.named qualifier outer last))
    (hname : last.name ∈ taskNames) :
    ∃ f, (function file decl method marker trigger).describe m = .function f ∧
      (last.args = [] → f.result = untyped) ∧
      (∀ inner, last.args = [.given inner] → f.result = inner.print) ∧
      (f.result = (TypeExpr.named qualifier outer last).print ↔
        last.args ≠ [] ∧ ∀ inner, last.args ≠ [.given inner]) := by
  refine ⟨_, rfl, ?_⟩
  simp only [functionResult_of_read hread]
  refine ⟨fun h => ?_, fun inner h => ?_, ?_⟩
  · exact resultText_of_isBareTask ((isBareTask_named_iff hname).2 h)
  · exact resultText_of_isTaskOf ((isTaskOf_named_iff hname).2 h)
  · rw [resultText_eq_print_iff (by simp), isBareTask_named_iff hname]
    simp only [isTaskOf_named_iff hname, ne_eq]

def orderTrigger : Parameter := ⟨"order", "string", [⟨"ActivityTrigger", [], default⟩], []⟩

/-- An activity function that goes by the name it is declared with. -/
def activityMethod (name returnType : String) : Method :=
  ⟨name, returnType, [orderTrigger], [⟨"Function", [], default⟩], ["public", "static"], default⟩

def ownTasksClass : TypeDecl where
  name := "Jobs"
  kind := .class
  space := some "App"
  containers := []
  arity := 0
  modifiers := ["public", "static"]
  attributes := []
  bases := []
  methods := [activityMethod "Run" "Models.Task", activityMethod "Send" "Queue.Task<Order>",
    activityMethod "Batch" "Queue.Task<Order,int>"]
  constants := []
  span := default

/-- A file with activity functions whose return types are the user's own. -/
def ownTasksFile : SourceFile := ⟨"Jobs.cs", [], [ownTasksClass], none⟩

theorem result_describe_batch :
    ∃ f, (function ownTasksFile ownTasksClass (activityMethod "Batch" "Queue.Task<Order,int>")
        ⟨"Function", [], default⟩ orderTrigger).describe (.build [ownTasksFile] []) = .function f ∧
      f.result = "Queue.Task<Order, int>" := by
  have hread : read (activityMethod "Batch" "Queue.Task<Order,int>").returnType
      = .ok (.named none [.plain "Queue"] (.generic "Task"
        (.given (.named none [] (.plain "Order"))) [.given (.keyword "int")])) := by
    cbv
  obtain ⟨f, hf, -, -, hprint⟩ := result_describe_iff (.build [ownTasksFile] []) ownTasksFile
    ownTasksClass ⟨"Function", [], default⟩ orderTrigger hread (by decide)
  refine ⟨f, hf, (hprint.2 (by simp [Segment.args])).trans ?_⟩
  decide +kernel

/-- One loses its type, and another one is taken for its argument. -/
theorem result_run_ownTasks :
    (∀ text ∈ ["Models.Task", "Queue.Task<Order>"], ∃ t, read text = .ok t ∧ t.print = text) ∧
      (Outcome.run (.build [ownTasksFile] []) [] (scan [ownTasksFile])).tasks.functions.map
        (fun f => (f.declaration, f.result)) = [("App.Jobs.Run", "object"),
          ("App.Jobs.Send", "Order"), ("App.Jobs.Batch", "Queue.Task<Order, int>")] := by
  have hmodels : read "Models.Task" = .ok (.named none [.plain "Models"] (.plain "Task")) := by
    cbv
  have hqueue : read "Queue.Task<Order>" = .ok (.named none [.plain "Queue"]
      (.generic "Task" (.given (.named none [] (.plain "Order"))) [])) := by
    cbv
  refine ⟨List.forall_mem_cons.2 ⟨⟨_, hmodels, by decide +kernel⟩,
    List.forall_mem_singleton.2 ⟨_, hqueue, by decide +kernel⟩⟩, ?_⟩
  decide +kernel

end Candidate

end TaskWrappers
