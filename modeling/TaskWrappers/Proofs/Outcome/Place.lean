import Mathlib.Data.List.Forall2
import TaskWrappers.Proofs.Outcome.Contest
import TaskWrappers.Proofs.Outcome.Origin

/-!
# Outcomes apart from places

Where a candidate stands shows in the spans of its description and its warnings and nowhere else.
Candidates that say the same are described alike (`Candidate.describe_of_form`), so a pass over
classes that say the same in order and over functions that do, whichever way the two are mixed, has
the same outcome (`Outcome.run_of_forms`). No class that is declared once is two tasks
(`Outcome.nodup_declarations`).
-/

namespace TaskWrappers

def NameSource.unplaced : NameSource → NameSource
  | fallback expression _ => fallback expression default
  | source => source

def Task.unplaced (t : Task) : Task := { t with source := t.source.unplaced, span := default }

def FunctionTask.unplaced (f : FunctionTask) : FunctionTask :=
  { f with source := f.source.unplaced, span := default }

def Warning.unplaced : Warning → Warning
  | nonConstantName declaration expression fallback _ =>
    nonConstantName declaration expression fallback default
  | syntaxDamage _ => syntaxDamage default
  | w => w

def TaskSet.unplaced (t : TaskSet) : TaskSet :=
  ⟨t.orchestrators.map .unplaced, t.activities.map .unplaced, t.functions.map .unplaced⟩

/-- Outcomes that differ at most in the places of what they are about and in the order of
warnings. -/
structure Outcome.SameButPlaces (o o' : Outcome) : Prop where
  tasks : o.tasks.unplaced = o'.tasks.unplaced
  mode : o.mode = o'.mode
  warnings : (o.warnings.map (·.unplaced)).Perm (o'.warnings.map (·.unplaced))
  artifact : o.artifact = o'.artifact

namespace Described

def unplaced : Described → Described
  | task t => task t.unplaced
  | function f => function f.unplaced

theorem part_unplaced (d : Described) : d.unplaced.part = d.part := by
  cases d <;> rfl

theorem warning?_unplaced (d : Described) : d.unplaced.warning? = d.warning?.map .unplaced := by
  obtain ⟨t⟩ | ⟨f⟩ := d
  · cases hsource : t.source <;>
      simp [warning?, source, unplaced, Task.unplaced, hsource, NameSource.unplaced,
        declaration, name, Warning.unplaced]
  · cases hsource : f.source <;>
      simp [warning?, source, unplaced, FunctionTask.unplaced, hsource, NameSource.unplaced,
        declaration, name, Warning.unplaced]

end Described

theorem Described.unplaced_eq :
    (unplaced : Described → Described) = mapOrigin NameSource.unplaced fun _ => default := by
  funext d
  cases d <;> rfl

namespace Candidate

/-- The arguments of each attribute that can name the candidate. -/
def markers (c : Candidate) : List (List Argument) :=
  (c.attributes.filter (c.marker.isMeant ·.name)).map (·.arguments)

/-- What a candidate says besides its name. -/
inductive Content where
  | task (kind : TaskKind) (args : List (Option TypeExpr))
  | function (result triggerName triggerType : String)

/-- What a candidate says, wherever it stands. -/
structure Form where
  scope : Scope
  declaration : String
  declaredName : String
  markers : List (List Argument)
  content : Content

def content : Candidate → Content
  | task kind _ _ args => .task kind args
  | function _ _ method _ trigger => .function method.returnType trigger.name trigger.type

def form (c : Candidate) : Form :=
  ⟨c.scope, c.declaration, c.declaredName, c.markers, c.content⟩

variable {m : Model} {c c' : Candidate}

/-- The argument for a name is found in what the markers say. -/
theorem fst_nameArgument? (c : Candidate) : c.nameArgument?.map Prod.fst
    = c.markers.findSome? fun args => Attribute.nameArgument? ⟨"", args, default⟩ := by
  rw [nameArgument?, markers, List.findSome?_map]
  induction c.attributes.filter (c.marker.isMeant ·.name) with
  | nil => rfl
  | cons a as ih =>
    have hargument : Attribute.nameArgument? ⟨"", a.arguments, default⟩ = a.nameArgument? := rfl
    rw [List.findSome?_cons, List.findSome?_cons, Function.comp_apply, hargument]
    cases a.nameArgument? with
    | none => exact ih
    | some expression => rfl

theorem taskName_of_form (h : c.form = c'.form) :
    (c.taskName m).name = (c'.taskName m).name ∧
      (c.taskName m).source.unplaced = (c'.taskName m).source.unplaced := by
  have hscope := congrArg Form.scope h
  have hdeclared := congrArg Form.declaredName h
  have hmarkers := congrArg Form.markers h
  have hargument : c.nameArgument?.map Prod.fst = c'.nameArgument?.map Prod.fst := by
    rw [fst_nameArgument?, fst_nameArgument?]
    exact congrArg (List.findSome? _) hmarkers
  dsimp only [form] at hscope hdeclared
  unfold taskName
  rcases hc : c.nameArgument? with _ | ⟨expression, span⟩ <;>
    rcases hc' : c'.nameArgument? with _ | ⟨expression', span'⟩ <;> rw [hc, hc'] at hargument
  · exact ⟨hdeclared, rfl⟩
  · cases hargument
  · cases hargument
  · cases hargument
    simp only [TaskName.ofArgument, hscope, hdeclared]
    cases m.constantValue c'.scope expression with
    | none => exact ⟨rfl, rfl⟩
    | some name => exact ⟨rfl, rfl⟩

/-- What a name, a declaration and a place are described as with what is said besides. -/
def Content.describe (m : Model) (s : Scope) (name : TaskName) (declaration : String)
    (span : Span) : Content → Described
  | .task kind args =>
    let payload := Payload.ofArguments m s args
    .task ⟨kind, declaration, name.name, name.source, payload.input, payload.inputDefault,
      payload.output, span⟩
  | .function result triggerName trigger =>
    .function ⟨name.name, name.source, functionResult result, ⟨triggerName, triggerType trigger⟩,
      declaration, span⟩

theorem Content.mapOrigin_describe {f : NameSource → NameSource} {g : Span → Span}
    (content : Content) (m : Model) (s : Scope) (name : TaskName) (declaration : String)
    (span : Span) :
    (content.describe m s name declaration span).mapOrigin f g
      = content.describe m s ⟨name.name, f name.source⟩ declaration (g span) := by
  cases content <;> rfl

theorem describe_eq_content (m : Model) (c : Candidate) : ∃ span,
    c.describe m = c.content.describe m c.scope (c.taskName m) c.declaration span := by
  rw [← resolve_eq_taskName]
  cases c with
  | task kind file decl args => exact ⟨decl.span, rfl⟩
  | function file decl method marker trigger => exact ⟨method.span, rfl⟩

/-- Candidates that say the same are described alike. -/
theorem describe_of_form (h : c.form = c'.form) (m : Model) :
    (c.describe m).unplaced = (c'.describe m).unplaced := by
  obtain ⟨hname, hsource⟩ := taskName_of_form (m := m) h
  obtain ⟨hscope, hdeclaration, -, -, hcontent⟩ := (Form.mk.injEq ..).mp h
  obtain ⟨span, hc⟩ := c.describe_eq_content m
  obtain ⟨span', hc'⟩ := c'.describe_eq_content m
  rw [Described.unplaced_eq, hc, hc', Content.mapOrigin_describe, Content.mapOrigin_describe,
    hcontent, hscope, hdeclaration, hname, hsource]

end Candidate

namespace Outcome

variable {m : Model} {cs cs' : List Candidate}

/-- A candidate's description apart from its place. -/
def shown (m : Model) (c : Candidate) : Described := (c.describe m).unplaced

theorem map_unplaced_describe (m : Model) (cs : List Candidate) :
    (cs.map (·.describe m)).map .unplaced = cs.map (shown m) :=
  List.map_map

theorem part_describe (m : Model) (c : Candidate) :
    (c.describe m).part = .functions ↔ c.isClass = false := by
  cases c with
  | task kind file decl args => cases kind <;> exact ⟨nofun, nofun⟩
  | function => exact ⟨fun _ => rfl, fun _ => rfl⟩

theorem part_shown (m : Model) (c : Candidate) :
    (shown m c).part = .functions ↔ c.isClass = false := by
  rw [shown, Described.part_unplaced, part_describe]

theorem map_shown (h : cs.map (·.form) = cs'.map (·.form)) :
    cs.map (shown m) = cs'.map (shown m) := by
  rw [← List.forall₂_eq_eq_eq, List.forall₂_map_left_iff, List.forall₂_map_right_iff] at h ⊢
  exact h.imp fun c c' hc => Candidate.describe_of_form hc m

theorem fallbacks_unplaced (m : Model) (cs : List Candidate) :
    (cs.filterMap (·.fallback? m)).map (·.unplaced)
      = (cs.map (shown m)).filterMap (·.warning?) := by
  rw [List.map_filterMap, List.filterMap_map]
  refine congrArg (List.filterMap · cs) (funext fun c => ?_)
  rw [Function.comp_apply, shown, Described.warning?_unplaced, Candidate.warning?_describe]

section Mixed

variable (hclasses : (cs.filter (·.isClass)).map (·.form) = (cs'.filter (·.isClass)).map (·.form))
  (hfunctions : (cs.filter (!·.isClass)).map (·.form) = (cs'.filter (!·.isClass)).map (·.form))

include hclasses hfunctions

theorem perm_map_shown : (cs.map (shown m)).Perm (cs'.map (shown m)) := by
  have hsplit (cs : List Candidate) :
      ((cs.filter (·.isClass)).map (shown m) ++ (cs.filter (!·.isClass)).map (shown m)).Perm
        (cs.map (shown m)) := by
    rw [← List.map_append]
    exact (List.filter_append_perm _ cs).map _
  have happend := (hsplit cs).symm
  rw [map_shown hclasses, map_shown hfunctions] at happend
  exact happend.trans (hsplit cs')

theorem ofDescribed_shown :
    TaskSet.ofDescribed (cs.map (shown m)) = TaskSet.ofDescribed (cs'.map (shown m)) := by
  -- a part has classes only or functions only
  have hpart (p : Part) (q : Candidate → Bool) (hq : ∀ c, (shown m c).part = p → q c = true)
      (hmap : (cs.filter q).map (shown m) = (cs'.filter q).map (shown m)) :
      (cs.map (shown m)).filter (·.part = p) = (cs'.map (shown m)).filter (·.part = p) := by
    have hcut (cs : List Candidate) : (cs.map (shown m)).filter (·.part = p)
        = ((cs.filter q).map (shown m)).filter (·.part = p) := by
      rw [List.filter_map, List.filter_map, List.filter_filter]
      refine congrArg _ (List.filter_congr fun c _ => ?_)
      by_cases hc : (shown m c).part = p
      · simp [hc, hq c hc]
      · simp [hc]
    rw [hcut cs, hcut cs', hmap]
  have hclass (p : Part) (hp : p ≠ .functions) (c : Candidate) (hc : (shown m c).part = p) :
      c.isClass = true := by
    rw [← Bool.not_eq_false, ← part_shown m c, hc]
    exact hp
  refine TaskSet.eq_of_members fun p => ?_
  rw [TaskSet.members_ofDescribed, TaskSet.members_ofDescribed]
  cases p with
  | orchestrators => exact hpart _ _ (hclass _ nofun) (map_shown hclasses)
  | activities => exact hpart _ _ (hclass _ nofun) (map_shown hclasses)
  | functions =>
    refine hpart _ _ (fun c hc => ?_) (map_shown hfunctions)
    rw [(part_shown m c).1 hc]
    rfl

/-- Only the order of classes and that of functions count, and of the places none. -/
theorem run_of_forms (modules : List String) :
    (run m modules cs).SameButPlaces (run m modules cs') := by
  have hset := ofDescribed_shown (m := m) hclasses hfunctions
  rw [← map_unplaced_describe, ← map_unplaced_describe, Described.unplaced_eq,
    TaskSet.ofDescribed_mapOrigin, TaskSet.ofDescribed_mapOrigin] at hset
  obtain ⟨htasks, hwarnings, hartifact⟩ := run_of_mapOrigin hset modules
  refine ⟨htasks, rfl, ?_, hartifact⟩
  rw [warnings_run, warnings_run, List.map_append, List.map_append, hwarnings,
    fallbacks_unplaced, fallbacks_unplaced]
  exact ((perm_map_shown hclasses hfunctions).filterMap _).append_right _

end Mixed

/-- Classes that are declared once are tasks once. -/
theorem nodup_declarations (h : ((cs.filter (·.isClass)).map (·.declaration)).Nodup)
    (modules : List String) :
    (((run m modules cs).tasks.orchestrators ++ (run m modules cs).tasks.activities).map
      (·.declaration)).Nodup := by
  obtain ⟨ds, hds⟩ : ∃ ds, ds = (cs.map (·.describe m)).filter (·.part ≠ .functions) := ⟨_, rfl⟩
  have hnodup : (ds.map (·.declaration)).Nodup := by
    rw [hds, List.filter_map, List.map_map]
    simp only [Function.comp_def, Candidate.declaration_describe, ne_eq, part_describe,
      Bool.not_eq_false, Bool.decide_eq_true]
    exact h
  have hsublist (p : Part) (hp : p ≠ .functions) :
      ((run m modules cs).tasks.members p).Sublist (ds.filter (·.part = p)) := by
    have hpart : ds.filter (·.part = p)
        = (TaskSet.ofDescribed (cs.map (·.describe m))).members p := by
      rw [hds, TaskSet.members_ofDescribed, List.filter_filter]
      refine List.filter_congr fun d _ => ?_
      by_cases hd : d.part = p
      · simp [hd, hp]
      · simp [hd]
    rw [hpart]
    exact TaskSet.members_validate_sublist _ p
  have hactivities : ds.filter (·.part = .activities)
      = ds.filter fun d => !decide (d.part = .orchestrators) := by
    refine List.filter_congr fun d hd => ?_
    rw [hds] at hd
    have hclass := (List.mem_filter.1 hd).2
    cases hpart : d.part <;> rw [hpart] at hclass <;> first | rfl | cases hclass
  have hperm := List.filter_append_perm (fun d : Described => d.part = .orchestrators) ds
  rw [← hactivities] at hperm
  have htasks : ((run m modules cs).tasks.orchestrators
      ++ (run m modules cs).tasks.activities).map (·.declaration)
        = ((run m modules cs).tasks.members .orchestrators
          ++ (run m modules cs).tasks.members .activities).map (·.declaration) := by
    simp only [TaskSet.members, List.map_append, List.map_map]
    rfl
  rw [htasks]
  refine ((hperm.map _).nodup_iff.2 hnodup).sublist (List.Sublist.map _ ?_)
  exact (hsublist .orchestrators (by decide)).append (hsublist .activities (by decide))

end Outcome

end TaskWrappers
