import TaskWrappers.Candidate
import TaskWrappers.Declaration.OfTree
import TaskWrappers.Proofs.TypeExpr.RoundTrip
import TaskWrappers.Proofs.TypeExpr.Tuple

/-!
# Classes that are tasks

A base loses everything from its first parenthesis on. That is where the arguments of a primary
constructor start, so of a type without tuples nothing is lost (`exists_baseName?`). A class with a
task base is a candidate with the base's type arguments exactly if there is no tuple in them
(`Candidate.task_mem_scan_iff`): a tuple is cut off with all that follows it, and no type with a
tuple can be read from the rest.
-/

namespace TaskWrappers

open Text TypeToken

section Base

variable {text base : String}

theorem leftParen_notMem_baseName? (h : baseName? text = some base) : '(' ∉ base.toList := by
  simp only [baseName?] at h
  split at h
  · cases h
  · cases h
    rw [String.toList_ofList]
    intro hmem
    have htrim : trim (text.toList.takeWhile (· != '(')) ⊆ text.toList.takeWhile (· != '(') := by
      intro c hc
      have hc := List.mem_reverse.1 ((List.dropWhile_sublist _).subset (List.mem_reverse.1 hc))
      exact (List.dropWhile_sublist _).subset hc
    have hnot := List.all_eq_true.1 List.all_takeWhile _ (htrim hmem)
    simp at hnot

/-- Arguments of a primary constructor, or none. -/
def IsArguments (arguments : String) : Prop :=
  arguments.toList.head?.all (· == '(') = true

instance (arguments : String) : Decidable (IsArguments arguments) :=
  inferInstanceAs (Decidable (_ = true))

/-- What is left of a base whose type has no parentheses is that type. -/
theorem exists_baseName? {t : TypeExpr} (hread : TypeExpr.read text = .ok t)
    (hparen : '(' ∉ text.toList) {arguments : String} (harguments : IsArguments arguments) :
    ∃ base, baseName? (text ++ arguments) = some base ∧ TypeExpr.read base = .ok t := by
  have hkeep : ∀ c ∈ text.toList, (c != '(') = true := by
    intro c hc
    rw [bne_iff_ne]
    rintro rfl
    exact hparen hc
  have htake : (text ++ arguments).toList.takeWhile (· != '(') = text.toList := by
    rw [String.toList_append, List.takeWhile_append_of_pos hkeep]
    unfold IsArguments at harguments
    cases hargs : arguments.toList with
    | nil => simp
    | cons c cs =>
      rw [hargs] at harguments
      have hc : c = '(' := by simpa using harguments
      simp [hc]
  have hne : trim text.toList ≠ [] := by
    intro hempty
    have hscan := TypeExpr.read_exact hread
    rw [← scan_trim, hempty, scan] at hscan
    have htokens : t.tokens = [] := (Except.ok.inj hscan).symm
    obtain ⟨u, us, hu, -⟩ := TypeExpr.tokens_eq_cons t
    rw [htokens] at hu
    cases hu
  refine ⟨.ofList (trim text.toList), ?_, ?_⟩
  · simp only [baseName?, htake]
    rw [if_neg (by simpa using hne)]
  · rw [← hread]
    refine TypeExpr.read_congr ?_
    rw [String.toList_ofList, scan_trim]

theorem ofBaseName?_eq_some {name : String} {kind : TaskKind} :
    TaskKind.ofBaseName? name = some kind ↔ name = kind.baseName := by
  constructor
  · intro h
    unfold TaskKind.ofBaseName? at h
    have hname := List.find?_some h
    exact (eq_of_beq hname).symm
  · rintro rfl
    cases kind <;> rfl

/-- The bases that make a class a task: an argument list behind the name of a task base. -/
theorem taskBase?_eq_some {kind : TaskKind} {args : List (Option TypeExpr)} :
    taskBase? base = some (kind, args) ↔ ∃ qualifier outer first rest,
      TypeExpr.read base = .ok (.named qualifier outer (.generic kind.baseName first rest)) ∧
        args = (first :: rest).map TypeArg.type? := by
  unfold taskBase?
  constructor
  · intro h
    split at h
    · rename_i qualifier outer name first rest hread
      obtain ⟨k, hk, heq⟩ := Option.map_eq_some_iff.1 h
      cases heq
      rw [ofBaseName?_eq_some] at hk
      exact ⟨qualifier, outer, first, rest, hk ▸ hread, rfl⟩
    · cases h
  · rintro ⟨qualifier, outer, first, rest, hread, rfl⟩
    rw [hread]
    simp only [ofBaseName?_eq_some.2 rfl, Option.map_some]

end Base

namespace Candidate

theorem mem_scan_iff {files : List SourceFile} {c : Candidate} :
    c ∈ scan files ↔ ∃ f ∈ files, ∃ d ∈ f.types, c ∈ d.candidates f := by
  simp only [scan, List.mem_flatMap]

theorem task_mem_candidates_iff {file f : SourceFile} {decl d : TypeDecl} {kind : TaskKind}
    {args : List (Option TypeExpr)} :
    task kind file decl args ∈ d.candidates f ↔ (file = f ∧ decl = d) ∧
      (d.kind.isDerivable = true ∧ d.modifiers.contains "abstract" = false ∧ d.arity = 0) ∧
        d.bases.findSome? taskBase? = some (kind, args) := by
  rw [TypeDecl.candidates, List.mem_append, Option.mem_toList, TypeDecl.taskCandidate?]
  constructor
  · rintro (h | h)
    · split at h
      · cases h
      · rename_i hform
        obtain ⟨⟨k, as⟩, hbase, heq⟩ := Option.map_eq_some_iff.1 h
        cases heq
        simp only [Bool.or_eq_true, Bool.not_eq_true', decide_eq_true_eq, not_or,
          Bool.not_eq_true, Bool.not_eq_false, Nat.not_lt, Nat.le_zero] at hform
        exact ⟨⟨rfl, rfl⟩, ⟨hform.1.1, hform.1.2, hform.2⟩, hbase⟩
    · obtain ⟨method, -, hmethod⟩ := List.mem_filterMap.1 h
      obtain ⟨marker, -, hmethod⟩ := Option.bind_eq_some_iff.1 hmethod
      obtain ⟨trigger, -, hmethod⟩ := Option.bind_eq_some_iff.1 hmethod
      cases hmethod
  · rintro ⟨⟨rfl, rfl⟩, ⟨hkind, habstract, harity⟩, hbase⟩
    left
    rw [hkind, habstract, harity, hbase]
    rfl

variable {files : List SourceFile} {f : SourceFile} {form : Source.TypeForm}

theorem findSome?_bases {before after : List String} {base : String}
    {found : TaskKind × List (Option TypeExpr)}
    (hbefore : ∀ e ∈ before, (baseName? e).bind taskBase? = none)
    (hbase : (baseName? base).bind taskBase? = some found) :
    ((before ++ base :: after).filterMap baseName?).findSome? taskBase? = some found := by
  have hnone : (before.filterMap baseName?).findSome? taskBase? = none := by
    refine List.findSome?_eq_none_iff.2 fun n hn => ?_
    obtain ⟨e, he, hname⟩ := List.mem_filterMap.1 hn
    have := hbefore e he
    rwa [hname, Option.bind_some] at this
  obtain ⟨n, hname, hn⟩ := Option.bind_eq_some_iff.1 hbase
  rw [List.filterMap_append, List.findSome?_append, hnone, Option.none_or,
    List.filterMap_cons_some hname, List.findSome?_cons, hn]

/-- A class or record with a base that makes it a task is a candidate by that base exactly if there
is no tuple in the base's type arguments. -/
theorem task_mem_scan_iff {space : Option String} {containers before after : List String}
    {members : List Source.Item} {kind : TaskKind} {qualifier : Option String}
    {outer : List String} {a b : TypeExpr} {text arguments : String} (hf : f ∈ files)
    (hdecl : form.toDecl f.path space containers members ∈ f.types)
    (hkind : form.kind.isDerivable = true) (habstract : "abstract" ∉ form.modifiers)
    (harity : form.arity = 0) (hbases : form.bases = before ++ (text ++ arguments) :: after)
    (hbefore : ∀ e ∈ before, (baseName? e).bind taskBase? = none)
    (hread : TypeExpr.read text = .ok (.named qualifier (outer.map .plain)
      (.generic kind.baseName (.given a) [.given b])))
    (harguments : IsArguments arguments) :
    task kind f (form.toDecl f.path space containers members) [some a, some b] ∈ scan files ↔
      a.hasTuple = false ∧ b.hasTuple = false := by
  constructor
  · intro h
    obtain ⟨f', -, d, -, hc⟩ := mem_scan_iff.1 h
    obtain ⟨⟨rfl, rfl⟩, -, hbase⟩ := task_mem_candidates_iff.1 hc
    obtain ⟨base, hmem, hbase⟩ := List.exists_of_findSome?_eq_some hbase
    obtain ⟨e, -, he⟩ := List.mem_filterMap.1 hmem
    obtain ⟨_, _, first, rest, hbaseRead, hargs⟩ := taskBase?_eq_some.1 hbase
    -- a base has no parenthesis, so what is read from it has no tuple
    have hnone := mt (TypeExpr.leftParen_mem_iff hbaseRead).2 (leftParen_notMem_baseName? he)
    match first, rest, hargs with
    | .given _, [.given _], rfl =>
      simp only [TypeExpr.hasTuple, Segment.hasTuple, TypeArg.hasTuple, TypeArg.anyTuple,
        Bool.or_false, Bool.or_eq_true, not_or, Bool.not_eq_true] at hnone
      exact hnone.2
  · rintro ⟨ha, hb⟩
    have hparen : '(' ∉ text.toList := by
      rw [TypeExpr.leftParen_mem_iff hread]
      simp [TypeExpr.hasTuple, Segment.anyTuple_plain, Segment.hasTuple, TypeArg.hasTuple,
        TypeArg.anyTuple, ha, hb]
    obtain ⟨base, hname, hbaseRead⟩ := exists_baseName? hread hparen harguments
    have hbase : taskBase? base = some (kind, [some a, some b]) :=
      taskBase?_eq_some.2 ⟨_, _, _, _, hbaseRead, rfl⟩
    refine mem_scan_iff.2 ⟨f, hf, _, hdecl, task_mem_candidates_iff.2 ⟨⟨rfl, rfl⟩, ⟨hkind, ?_,
      harity⟩, ?_⟩⟩
    · simpa [Source.TypeForm.toDecl] using habstract
    · simp only [Source.TypeForm.toDecl, hbases]
      exact findSome?_bases hbefore (by rw [hname, Option.bind_some, hbase])

/-- A class with a base of its own in front of the one that makes it a task. -/
def shipping : Source.TypeForm where
  name := "Ship"
  kind := .class
  arity := 0
  modifiers := ["public"]
  attributes := []
  bases := ["Logged", "Tasks.TaskActivity<Dictionary<string, int?[]>, List<bool>>(log)"]
  extent := ⟨⟨0, 0⟩, ⟨0, 0⟩⟩

def shippingFile : SourceFile :=
  ⟨"Ship.cs", [], [shipping.toDecl "Ship.cs" none [] []], none⟩

theorem task_mem_scan_shipping :
    task .activity shippingFile (shipping.toDecl "Ship.cs" none [] [])
      [some (.named none [] (.generic "Dictionary" (.given (.keyword "string"))
          [.given (.array (.nullable (.keyword "int")) 0)])),
        some (.named none [] (.generic "List" (.given (.keyword "bool")) []))]
      ∈ scan [shippingFile] := by
  have hw : TypeExpr.WellFormed (.named none (["Tasks"].map .plain)
      (.generic TaskKind.activity.baseName
        (.given (.named none [] (.generic "Dictionary" (.given (.keyword "string"))
          [.given (.array (.nullable (.keyword "int")) 0)])))
        [.given (.named none [] (.generic "List" (.given (.keyword "bool")) []))])) := by
    simp only [TypeExpr.WellFormed, Segment.AllWellFormed, Segment.WellFormed, TypeArg.WellFormed,
      TypeArg.AllWellFormed, List.map_cons, List.map_nil]
    decide +kernel
  have hread : TypeExpr.read "Tasks.TaskActivity<Dictionary<string, int?[]>, List<bool>>" = _ :=
    TypeExpr.read_of_print_eq hw (by decide +kernel)
  have hbases : shipping.bases = ["Logged"]
      ++ ("Tasks.TaskActivity<Dictionary<string, int?[]>, List<bool>>" ++ "(log)") :: [] := by
    decide +kernel
  exact (task_mem_scan_iff List.mem_cons_self List.mem_cons_self rfl (by decide) rfl hbases
    (by decide +kernel) hread (by decide)).2 ⟨rfl, rfl⟩

/-- A class of the same kind whose input is a tuple. -/
def pairing : Source.TypeForm where
  name := "Pair"
  kind := .class
  arity := 0
  modifiers := []
  attributes := []
  bases := ["TaskActivity<(int Id, string Name), bool>"]
  extent := ⟨⟨0, 0⟩, ⟨0, 0⟩⟩

def pairingFile : SourceFile :=
  ⟨"Pair.cs", [], [pairing.toDecl "Pair.cs" none [] []], none⟩

theorem scan_pairing :
    TypeExpr.read "TaskActivity<(int Id, string Name), bool>"
        = .ok (.named none [] (.generic "TaskActivity"
            (.given (.tuple ⟨.keyword "int", some "Id"⟩ ⟨.keyword "string", some "Name"⟩ []))
            [.given (.keyword "bool")])) ∧
      scan [pairingFile] = [] := by
  have hw : TypeExpr.WellFormed (.named none [] (.generic "TaskActivity"
      (.given (.tuple ⟨.keyword "int", some "Id"⟩ ⟨.keyword "string", some "Name"⟩ []))
      [.given (.keyword "bool")])) := by
    simp only [TypeExpr.WellFormed, Segment.AllWellFormed, Segment.WellFormed, TypeArg.WellFormed,
      TypeArg.AllWellFormed, TupleElement.WellFormed, TupleElement.AllWellFormed]
    simp only [Option.some.injEq, forall_eq']
    decide +kernel
  have htask : (pairing.toDecl "Pair.cs" none [] []).taskCandidate? pairingFile = none := by
    decide +kernel
  have hmethods : (pairing.toDecl "Pair.cs" none [] []).methods = [] := by
    rw [Source.TypeForm.toDecl, Source.methodsOf]
  refine ⟨TypeExpr.read_of_print_eq hw (by decide +kernel), ?_⟩
  rw [scan, List.flatMap_singleton, pairingFile, List.flatMap_singleton, TypeDecl.candidates,
    hmethods, ← pairingFile, htask]
  rfl

end Candidate

end TaskWrappers
