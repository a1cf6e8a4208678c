import TaskWrappers.Proofs.Outcome.Parts

/-!
# What becomes of every candidate

A pass can be read as a ledger with one row for each candidate, in their order: its description and
the warning that refuses it, if one does (`Outcome.run_accounts`). The rows of a part are its
judgements, and `exists_interleaving` puts them back among the others. The tasks are the rows
without a warning, so they are described by their candidates alone, and each candidate is a task or
refused once. Before that, and whatever becomes of it, a candidate whose name falls back on its
declaration has one warning (`Candidate.warning?_describe`).
-/

namespace TaskWrappers

namespace Warning

/-- Whether the warning is about a name that could not be given to a task. -/
def isRefusal : Warning → Bool
  | invalidName .. | duplicateName .. => true
  | _ => false

def isFallback : Warning → Bool
  | nonConstantName .. => true
  | _ => false

theorem Refuses.isRefusal {kind : TaskKind} {name declaration : String} {w : Warning}
    (h : w.Refuses kind name declaration) : w.isRefusal = true := by
  cases h <;> rfl

theorem Refuses.isFallback {kind : TaskKind} {name declaration : String} {w : Warning}
    (h : w.Refuses kind name declaration) : w.isFallback = false := by
  cases h <;> rfl

end Warning

namespace Candidate

def kind : Candidate → TaskKind
  | task kind .. => kind
  | function .. => .activity

def scope : Candidate → Scope
  | task _ file decl _ => .inside file decl
  | function file decl .. => .inside file decl

/-- The marker whose attributes can name the candidate. -/
def marker : Candidate → Marker
  | task .. => .durableTask
  | function .. => .function

def attributes : Candidate → List Attribute
  | task _ _ decl _ => decl.attributes
  | function _ _ method .. => method.attributes

def declaredName : Candidate → String
  | task _ _ decl _ => decl.name
  | function _ _ method .. => method.name

def declaration : Candidate → String
  | task _ _ decl _ => decl.fullName
  | function _ decl method .. => decl.fullName ++ "." ++ method.name

/-- The argument that decides on the candidate's name, with the place of its attribute. -/
def nameArgument? (c : Candidate) : Option (String × Span) :=
  (c.attributes.filter (c.marker.isMeant ·.name)).findSome? fun a =>
    a.nameArgument?.map (·, a.span)

/-- The name a candidate is called by: what its argument stands for, or else what it is declared
as. -/
def calledName (m : Model) (c : Candidate) : String :=
  match c.nameArgument? with
  | none => c.declaredName
  | some (expression, _) => (m.constantValue c.scope expression).getD c.declaredName

/-- The warning that the candidate's argument stands for no constant. -/
def fallback? (m : Model) (c : Candidate) : Option Warning :=
  match c.nameArgument? with
  | none => none
  | some (expression, span) =>
    if (m.constantValue c.scope expression).isNone then
      some (.nonConstantName c.declaration expression c.declaredName span)
    else none

/-- The name of a candidate and where it comes from. -/
def taskName (m : Model) (c : Candidate) : TaskName :=
  match c.nameArgument? with
  | none => ⟨c.declaredName, .declared⟩
  | some (expression, span) => .ofArgument m c.scope c.declaredName expression span

theorem resolve_eq_taskName (m : Model) (c : Candidate) :
    TaskName.resolve m c.scope c.marker c.attributes c.declaredName = c.taskName m := by
  unfold TaskName.resolve taskName nameArgument?
  induction c.attributes with
  | nil => rfl
  | cons a as ih =>
    by_cases hmeant : c.marker.isMeant a.name
    · simp only [List.findSome?_cons, List.filter_cons, if_pos hmeant]
      cases a.nameArgument? with
      | none => exact ih
      | some expression => rfl
    · simp only [List.findSome?_cons, List.filter_cons, if_neg hmeant]
      exact ih

variable (m : Model) (c : Candidate)

theorem name_describe : (c.describe m).name = c.calledName m := by
  have hname : (c.describe m).name = (c.taskName m).name := by
    rw [← resolve_eq_taskName]
    cases c <;> rfl
  rw [hname]
  unfold taskName calledName
  cases c.nameArgument? with
  | none => rfl
  | some argument =>
    obtain ⟨expression, span⟩ := argument
    dsimp only [TaskName.ofArgument]
    cases m.constantValue c.scope expression <;> rfl

theorem declaration_describe : (c.describe m).declaration = c.declaration := by
  cases c <;> rfl

theorem kind_describe : (c.describe m).kind = c.kind := by
  cases c with
  | task kind file decl args => cases kind <;> rfl
  | function => rfl

theorem warning?_describe : (c.describe m).warning? = c.fallback? m := by
  have hsource : (c.describe m).source = (c.taskName m).source := by
    rw [← resolve_eq_taskName]
    cases c <;> rfl
  unfold Described.warning?
  rw [hsource, declaration_describe, name_describe]
  unfold taskName fallback? calledName
  cases c.nameArgument? with
  | none => rfl
  | some argument =>
    obtain ⟨expression, span⟩ := argument
    dsimp only [TaskName.ofArgument]
    cases m.constantValue c.scope expression <;> rfl

theorem isFallback_of_fallback? {w : Warning} (h : c.fallback? m = some w) :
    w.isFallback = true ∧ w.isRefusal = false := by
  unfold fallback? at h
  split at h
  · cases h
  · split at h <;> cases h
    exact ⟨rfl, rfl⟩

end Candidate

section Rows

variable {α β κ : Type} [DecidableEq κ] (key : α → κ)

/-- Where the members of every key have rows of their own, the whole list has rows that are those
of each key. -/
theorem exists_interleaving : ∀ (as : List α) (rows : κ → List (α × β)),
    (∀ k, (rows k).map (·.1) = as.filter (key · = k)) →
      ∃ ledger : List (α × β),
        ledger.map (·.1) = as ∧ ∀ k, ledger.filter (key ·.1 = k) = rows k
  | [], rows, h => ⟨[], rfl, fun k => (List.map_eq_nil_iff.1 (h k)).symm⟩
  | a :: as, rows, h => by
    have hhead := h (key a)
    rw [List.filter_cons_of_pos (by simp)] at hhead
    obtain ⟨⟨b, x⟩, rest, hrows, rfl, hrest⟩ := List.map_eq_cons_iff.1 hhead
    -- the row taken off is that of the first member; the others' rows stay as they are
    obtain ⟨ledger, hledger, hkeys⟩ :=
      exists_interleaving as (fun k => if k = key b then rest else rows k) fun k => by
        by_cases hk : k = key b
        · rw [if_pos hk, hrest, hk]
        · rw [if_neg hk, h k, List.filter_cons_of_neg (by simpa using Ne.symm hk)]
    refine ⟨(b, x) :: ledger, by rw [List.map_cons, hledger], fun k => ?_⟩
    by_cases hk : k = key b
    · rw [List.filter_cons_of_pos (by simp [hk]), hkeys, if_pos hk, hk, hrows]
    · rw [List.filter_cons_of_neg (by simpa using Ne.symm hk), hkeys, if_neg hk]

theorem length_filterMap_admitted? (rows : List (α × Option Warning)) :
    (rows.filterMap admitted?).length + (rows.filterMap (·.2)).length = rows.length := by
  induction rows with
  | nil => rfl
  | cons row rows ih =>
    obtain ⟨a, refusal⟩ := row
    cases refusal with
    | none =>
      simp only [List.filterMap_cons, admitted?, Option.isNone_none, if_true, List.length_cons]
      omega
    | some w =>
      simp only [List.filterMap_cons, admitted?, Option.isNone_some, Bool.false_eq_true, if_false,
        List.length_cons]
      omega

end Rows

namespace TaskSet

variable (t : TaskSet)

theorem size_ofDescribed (ds : List Described) : (ofDescribed ds).size = ds.length := by
  induction ds with
  | nil => rfl
  | cons d ds ih =>
    rw [List.length_cons, ← ih]
    cases d with
    | function f =>
      simp only [size, ofDescribed, List.filterMap_cons, List.length_cons]
      omega
    | task t =>
      cases hkind : t.kind
      all_goals
        simp [size, ofDescribed, hkind]
        omega

theorem size_eq : t.size
    = (t.members .orchestrators).length + (t.members .activities).length
      + (t.members .functions).length := by
  simp only [size, members, List.length_map]

/-- Each member is kept or warned about. -/
theorem size_validate : t.validate.1.size + t.validate.2.length = t.size := by
  have hpart (p : Part) : (t.validate.1.members p).length
      + ((t.judged p).filterMap (·.2)).length = (t.members p).length := by
    rw [members_validate, length_filterMap_admitted?, ← map_fst_judged, List.length_map]
  have horchestrators := hpart .orchestrators
  have hactivities := hpart .activities
  have hfunctions := hpart .functions
  rw [validate_snd, size_eq, size_eq]
  simp only [Part.all, List.flatMap_cons, List.flatMap_nil, List.append_nil, List.length_append]
  omega

theorem isRefusal_of_mem_validate {w : Warning} (h : w ∈ t.validate.2) :
    w.isRefusal = true ∧ w.isFallback = false := by
  rw [validate_snd] at h
  obtain ⟨p, -, h⟩ := List.mem_flatMap.1 h
  obtain ⟨⟨d, refusal⟩, hrow, rfl⟩ := List.mem_filterMap.1 h
  exact ⟨(refuses_of_mem_judged t hrow).isRefusal, (refuses_of_mem_judged t hrow).isFallback⟩

end TaskSet

namespace Outcome

variable (m : Model) (modules : List String) (cs : List Candidate)

theorem tasks_run :
    (run m modules cs).tasks = (TaskSet.ofDescribed (cs.map (·.describe m))).validate.1 := rfl

theorem warnings_run :
    (run m modules cs).warnings = cs.filterMap (·.fallback? m)
      ++ (TaskSet.ofDescribed (cs.map (·.describe m))).validate.2 := by
  have hfallbacks : (cs.map (·.describe m)).filterMap (·.warning?)
      = cs.filterMap (·.fallback? m) := by
    rw [List.filterMap_map]
    exact congrArg (cs.filterMap ·) (funext (Candidate.warning?_describe m))
  rw [← hfallbacks]
  rfl

/-- A name that cannot be used is refused to every candidate that has it. -/
theorem invalid_run {c : Candidate} (hc : c ∈ cs) (hname : isIdentifier (c.calledName m) = false) :
    .invalidName (c.calledName m) c.declaration ∈ (run m modules cs).warnings ∧
      ∀ p, ∀ d ∈ (run m modules cs).tasks.members p, d.name ≠ c.calledName m := by
  obtain ⟨t, ht⟩ : ∃ t, t = TaskSet.ofDescribed (cs.map (·.describe m)) := ⟨_, rfl⟩
  constructor
  · have hmember : c.describe m ∈ t.members (c.describe m).part := by
      rw [ht, TaskSet.members_ofDescribed]
      exact List.mem_filter.2 ⟨List.mem_map_of_mem hc, by simp⟩
    rw [← TaskSet.map_fst_judged] at hmember
    obtain ⟨row, hrow, heq⟩ := List.mem_map.1 hmember
    have hrefused := t.invalid_of_mem_judged hrow (by rw [heq, c.name_describe, hname])
    rw [heq, c.name_describe, c.declaration_describe] at hrefused
    rw [warnings_run, ← ht, TaskSet.validate_snd]
    refine List.mem_append_right _ (List.mem_flatMap.2 ⟨(c.describe m).part, ?_, ?_⟩)
    · cases (c.describe m).part <;> decide
    · exact List.mem_filterMap.2 ⟨row, hrow, hrefused⟩
  · intro p d hd hsame
    rw [tasks_run, ← ht, TaskSet.members_validate] at hd
    obtain ⟨row, hrow, hadmitted⟩ := List.mem_filterMap.1 hd
    obtain ⟨d', refusal⟩ := row
    cases refusal with
    | some w => cases hadmitted
    | none =>
      cases hadmitted
      cases t.invalid_of_mem_judged hrow (by rw [hsame, hname])

theorem exists_ledger : ∃ ledger : List (Described × Option Warning),
    ledger.map (·.1) = cs.map (·.describe m) ∧
      (∀ d w, (d, some w) ∈ ledger → w.Refuses d.kind d.name d.declaration) ∧
      (run m modules cs).tasks = .ofDescribed (ledger.filterMap admitted?) ∧
      (run m modules cs).warnings = cs.filterMap (·.fallback? m)
        ++ Part.all.flatMap fun p => (ledger.filter (·.1.part = p)).filterMap (·.2) := by
  obtain ⟨t, ht⟩ : ∃ t, t = TaskSet.ofDescribed (cs.map (·.describe m)) := ⟨_, rfl⟩
  obtain ⟨ledger, hledger, hrows⟩ :=
    exists_interleaving Described.part (cs.map (·.describe m)) t.judged fun p => by
      rw [TaskSet.map_fst_judged, ht, TaskSet.members_ofDescribed]
  refine ⟨ledger, hledger, fun d w h => ?_, TaskSet.eq_of_members fun p => ?_, ?_⟩
  · refine t.refuses_of_mem_judged (p := d.part) ?_
    rw [← hrows]
    exact List.mem_filter.2 ⟨h, by simp⟩
  · rw [tasks_run, ← ht, TaskSet.members_validate, TaskSet.members_ofDescribed, ← hrows,
      List.filter_filterMap, List.filterMap_filter]
    refine congrArg (ledger.filterMap ·) (funext fun row => ?_)
    obtain ⟨d, refusal⟩ := row
    cases refusal with
    | none => rfl
    | some w => exact ite_self none
  · rw [warnings_run, ← ht, TaskSet.validate_snd]
    simp only [hrows]

theorem length_eq_size_run :
    cs.length = (run m modules cs).tasks.size
      + (run m modules cs).warnings.countP (·.isRefusal) := by
  have hfallbacks : (cs.filterMap (·.fallback? m)).countP (·.isRefusal) = 0 := by
    refine List.countP_eq_zero.2 fun w hw => ?_
    obtain ⟨c, -, hc⟩ := List.mem_filterMap.1 hw
    rw [(c.isFallback_of_fallback? m hc).2]
    exact Bool.false_ne_true
  have hrefusals := List.countP_eq_length.2 fun w hw =>
    ((TaskSet.ofDescribed (cs.map (·.describe m))).isRefusal_of_mem_validate (w := w) hw).1
  rw [warnings_run, List.countP_append, hfallbacks, hrefusals, Nat.zero_add, tasks_run,
    TaskSet.size_validate, TaskSet.size_ofDescribed, List.length_map]

theorem filter_isFallback_run :
    (run m modules cs).warnings.filter (·.isFallback) = cs.filterMap (·.fallback? m) := by
  have hfallbacks : (cs.filterMap (·.fallback? m)).filter (·.isFallback)
      = cs.filterMap (·.fallback? m) := by
    refine List.filter_eq_self.2 fun w hw => ?_
    obtain ⟨c, -, hc⟩ := List.mem_filterMap.1 hw
    exact (c.isFallback_of_fallback? m hc).1
  have hrefusals : (TaskSet.ofDescribed (cs.map (·.describe m))).validate.2.filter (·.isFallback)
      = [] := by
    refine List.filter_eq_nil_iff.2 fun w hw => ?_
    rw [(TaskSet.isRefusal_of_mem_validate _ hw).2]
    exact Bool.false_ne_true
  rw [warnings_run, List.filter_append, hfallbacks, hrefusals, List.append_nil]

theorem artifact_run_eq_none_iff :
    (run m modules cs).artifact = none ↔ (run m modules cs).tasks.isEmpty = true := by
  change Artifact.generate (run m modules cs).mode (run m modules cs).tasks = none ↔ _
  unfold Artifact.generate
  split
  · exact ⟨fun _ => ‹_›, fun _ => rfl⟩
  · exact ⟨nofun, fun h => absurd h ‹_›⟩

/-- No candidate is lost or counted twice. Its row in the ledger says what became of it: the tasks
are the rows without a warning and the refusals those of the others, part by part. This is about
passes that end; where an alias leads back to itself (`Model.resolveAlias`) there is no outcome to
speak of. -/
theorem run_accounts :
    (∃ ledger : List (Described × Option Warning),
      ledger.map (·.1) = cs.map (·.describe m) ∧
        (∀ d w, (d, some w) ∈ ledger → w.Refuses d.kind d.name d.declaration) ∧
        (run m modules cs).tasks = .ofDescribed (ledger.filterMap admitted?) ∧
        (run m modules cs).warnings = cs.filterMap (·.fallback? m)
          ++ Part.all.flatMap fun p => (ledger.filter (·.1.part = p)).filterMap (·.2)) ∧
      cs.length = (run m modules cs).tasks.size
        + (run m modules cs).warnings.countP (·.isRefusal) ∧
      (run m modules cs).warnings.filter (·.isFallback) = cs.filterMap (·.fallback? m) ∧
      (∀ c : Candidate, (c.describe m).kind = c.kind ∧ (c.describe m).name = c.calledName m ∧
        (c.describe m).declaration = c.declaration) ∧
      ((run m modules cs).artifact = none ↔ (run m modules cs).tasks.isEmpty = true) :=
  ⟨exists_ledger m modules cs, length_eq_size_run m modules cs,
    filter_isFallback_run m modules cs,
    fun c => ⟨c.kind_describe m, c.name_describe m, c.declaration_describe m⟩,
    artifact_run_eq_none_iff m modules cs⟩

end Outcome

end TaskWrappers
