import TaskWrappers.Proofs.Placed
import TaskWrappers.Proofs.Verbatim.Text

/-!
# References written verbatim

References stand in the bases of types, in the values of constants and in the arguments of
attributes. Files that differ at most in which names of their references are written verbatim, and
in places (`SourceFile.SameWords`), have the same types and candidates and constants of the same
values, so passes over them have the same outcome (`Outcome.run_of_sameWords`). All that shows of an
`@` is the expression that a warning quotes.
-/

namespace TaskWrappers

open Text

section Lists

variable {α β γ δ : Type} {R : α → β → Prop} {S : γ → δ → Prop} {as : List α} {bs : List β}

theorem rel_findSome? {f : α → Option γ} {g : β → Option δ}
    (hfg : ∀ a b, R a b → Option.Rel S (f a) (g b)) (h : List.Forall₂ R as bs) :
    Option.Rel S (as.findSome? f) (bs.findSome? g) := by
  induction h with
  | nil => exact .none
  | cons hab _ ih =>
    rename_i a b as bs _
    rw [List.findSome?_cons, List.findSome?_cons]
    have hhead := hfg a b hab
    generalize f a = found at hhead
    generalize g b = found' at hhead
    cases hhead with
    | none => exact ih
    | some hcd => exact .some hcd

theorem rel_find? {p : α → Bool} {q : β → Bool} (hpq : ∀ a b, R a b → p a = q b)
    (h : List.Forall₂ R as bs) : Option.Rel R (as.find? p) (bs.find? q) := by
  rw [List.find?_eq_findSome?_guard, List.find?_eq_findSome?_guard]
  refine rel_findSome? (fun a b hab => ?_) h
  rw [Option.guard, Option.guard, hpq a b hab]
  split
  · exact .some hab
  · exact .none

theorem bind_eq_of_rel {ε : Type} {x : Option γ} {y : Option δ} {f : γ → Option ε}
    {g : δ → Option ε} (h : Option.Rel S x y) (hfg : ∀ c d, S c d → f c = g d) :
    x.bind f = y.bind g := by
  cases h with
  | none => rfl
  | some hcd => exact hfg _ _ hcd

theorem map_eq_of_forall₂ {f : α → γ} {g : β → γ} (hfg : ∀ a b, R a b → f a = g b)
    (h : List.Forall₂ R as bs) : as.map f = bs.map g := by
  have hmap : List.Forall₂ Eq (as.map f) (bs.map g) := List.rel_map (fun a b hab => hfg a b hab) h
  rwa [List.forall₂_eq_eq_eq] at hmap

end Lists

structure Argument.SameWords (x y : Argument) : Prop where
  name : x.name = y.name
  expression : SameText x.expression y.expression

structure Attribute.SameWords (a b : Attribute) : Prop where
  name : a.name = b.name
  arguments : List.Forall₂ Argument.SameWords a.arguments b.arguments

structure Parameter.SameWords (p q : Parameter) : Prop where
  name : p.name = q.name
  type : p.type = q.type
  attributes : List.Forall₂ Attribute.SameWords p.attributes q.attributes

structure Method.SameWords (m n : Method) : Prop where
  name : m.name = n.name
  returnType : m.returnType = n.returnType
  parameters : List.Forall₂ Parameter.SameWords m.parameters n.parameters
  attributes : List.Forall₂ Attribute.SameWords m.attributes n.attributes

structure Constant.SameWords (c d : Constant) : Prop where
  name : c.name = d.name
  value : SameText c.value d.value

structure TypeDecl.SameWords (d e : TypeDecl) : Prop where
  name : d.name = e.name
  kind : d.kind = e.kind
  space : d.space = e.space
  containers : d.containers = e.containers
  arity : d.arity = e.arity
  modifiers : d.modifiers = e.modifiers
  attributes : List.Forall₂ Attribute.SameWords d.attributes e.attributes
  bases : List.Forall₂ SameText d.bases e.bases
  methods : List.Forall₂ Method.SameWords d.methods e.methods
  constants : List.Forall₂ Constant.SameWords d.constants e.constants

/-- Files whose declarations differ at most in places and in which names of their references are
written verbatim. -/
structure SourceFile.SameWords (f g : SourceFile) : Prop where
  usings : f.usings = g.usings
  types : List.Forall₂ TypeDecl.SameWords f.types g.types

structure Candidate.SameWords (c d : Candidate) : Prop where
  scope : c.scope = d.scope
  declaration : c.declaration = d.declaration
  declaredName : c.declaredName = d.declaredName
  marker : c.marker = d.marker
  content : c.content = d.content
  attributes : List.Forall₂ Attribute.SameWords c.attributes d.attributes

structure KnownConstant.SameWords (c d : KnownConstant) : Prop where
  fullName : c.fullName = d.fullName
  scope : c.scope = d.scope
  value : SameText c.value d.value

structure Model.SameWords (m m' : Model) : Prop extends SameTypes m m' where
  constant? : ∀ fullName,
    Option.Rel KnownConstant.SameWords (m.constant? fullName) (m'.constant? fullName)

namespace Model.SameWords

variable {m m' : Model} (h : m.SameWords m')

include h

theorem valueWithin_eq : ∀ (n : Nat) {s : Scope} {e e' : String}, SameText e e' →
    ConstantExpr.valueWithin m n s e = ConstantExpr.valueWithin m' n s e'
  | 0, _, _, _, _ => rfl
  | n + 1, s, e, e', htext => by
    have hlookup (path : String) :
        ((m.candidates s path).findSome? m.constant?).bind
            (fun c => ConstantExpr.valueWithin m n c.scope c.value)
          = ((m'.candidates s path).findSome? m'.constant?).bind
            fun c => ConstantExpr.valueWithin m' n c.scope c.value := by
      rw [← h.candidates_eq]
      have hfound : Option.Rel KnownConstant.SameWords
          ((m.candidates s path).findSome? m.constant?)
          ((m.candidates s path).findSome? m'.constant?) := by
        have hself : List.Forall₂ Eq (m.candidates s path) (m.candidates s path) :=
          List.forall₂_refl _
        refine rel_findSome? (fun a b hab => ?_) hself
        rw [← hab]
        exact h.constant? a
      refine bind_eq_of_rel hfound fun c d hcd => ?_
      rw [hcd.scope]
      exact valueWithin_eq n hcd.value
    rw [ConstantExpr.valueWithin, ConstantExpr.valueWithin]
    refine (ConstantExpr.value?_eq_of_sameText htext _).trans ?_
    exact congrArg (ConstantExpr.value? · e') (funext hlookup)

theorem constantValue_eq {s : Scope} {e e' : String} (htext : SameText e e') :
    m.constantValue s e = m'.constantValue s e' :=
  h.valueWithin_eq _ htext

end Model.SameWords

theorem Attribute.SameWords.nameArgument? {a b : Attribute} (h : a.SameWords b) :
    Option.Rel SameText a.nameArgument? b.nameArgument? := by
  have hfirst : Option.Rel Argument.SameWords a.firstPositional b.firstPositional :=
    rel_find? (fun x y hxy => by rw [hxy.name]) h.arguments
  have hnamed := rel_find? (p := (·.name == some "name")) (q := (·.name == some "name"))
    (fun x y hxy => by rw [hxy.name]) h.arguments
  rw [Attribute.nameArgument?, Attribute.nameArgument?]
  generalize a.firstPositional = x at hfirst
  generalize b.firstPositional = y at hfirst
  cases hfirst with
  | some hxy => exact .some hxy.expression
  | none =>
    generalize a.arguments.find? (·.name == some "name") = x at hnamed
    generalize b.arguments.find? (·.name == some "name") = y at hnamed
    cases hnamed with
    | some hxy => exact .some hxy.expression
    | none => exact .none

theorem Candidate.SameWords.nameArgument? {c d : Candidate} (h : c.SameWords d) :
    Option.Rel (fun x y => SameText x.1 y.1) c.nameArgument? d.nameArgument? := by
  rw [Candidate.nameArgument?, Candidate.nameArgument?, h.marker]
  have hmeant := List.rel_filter (p := (d.marker.isMeant ·.name)) (q := (d.marker.isMeant ·.name))
    (fun a b hab => iff_of_eq (congrArg (d.marker.isMeant · = true) hab.name)) h.attributes
  refine rel_findSome? (fun a b hab => ?_) hmeant
  have hargument := hab.nameArgument?
  generalize a.nameArgument? = x at hargument
  generalize b.nameArgument? = y at hargument
  cases hargument with
  | none => exact .none
  | some hxy => exact .some hxy

/-- Without the place, and without all `@` in the expression that is quoted. -/
def NameSource.unmarked : NameSource → NameSource
  | fallback expression _ => fallback (.ofList (withoutAts expression.toList)) default
  | source => source

def Warning.unmarked : Warning → Warning
  | nonConstantName declaration expression fallback _ =>
    nonConstantName declaration (.ofList (withoutAts expression.toList)) fallback default
  | w => w

def TaskSet.unmarked (t : TaskSet) : TaskSet := t.mapOrigin NameSource.unmarked fun _ => default

/-- Outcomes that differ at most in places and in the `@` of the expressions they quote. -/
structure Outcome.SameWords (o o' : Outcome) : Prop where
  tasks : o.tasks.unmarked = o'.tasks.unmarked
  mode : o.mode = o'.mode
  warnings : o.warnings.map (·.unmarked) = o'.warnings.map (·.unmarked)
  artifact : o.artifact = o'.artifact

namespace Candidate

variable {m m' : Model} {c d : Candidate}

theorem taskName_unmarked (hm : m.SameWords m') (h : c.SameWords d) :
    (c.taskName m).name = (d.taskName m').name ∧
      (c.taskName m).source.unmarked = (d.taskName m').source.unmarked := by
  have hargument := h.nameArgument?
  rw [taskName, taskName]
  generalize c.nameArgument? = x at hargument
  generalize d.nameArgument? = y at hargument
  cases hargument with
  | none => exact ⟨h.declaredName, rfl⟩
  | some htext =>
    rename_i x y
    have hvalue := hm.constantValue_eq (s := d.scope) htext
    simp only [TaskName.ofArgument, h.scope, hvalue]
    cases m'.constantValue d.scope y.1 with
    | some name => exact ⟨rfl, rfl⟩
    | none =>
      refine ⟨h.declaredName, ?_⟩
      simp only [NameSource.unmarked, SameWords.withoutAts_eq htext]

theorem fallback?_unmarked (hm : m.SameWords m') (h : c.SameWords d) :
    (c.fallback? m).map (·.unmarked) = (d.fallback? m').map (·.unmarked) := by
  have hargument := h.nameArgument?
  rw [fallback?, fallback?]
  generalize c.nameArgument? = x at hargument
  generalize d.nameArgument? = y at hargument
  cases hargument with
  | none => rfl
  | some htext =>
    rename_i x y
    have hvalue := hm.constantValue_eq (s := d.scope) htext
    simp only [h.scope, hvalue]
    split
    · simp only [Option.map_some, Warning.unmarked, SameWords.withoutAts_eq htext, h.declaration,
        h.declaredName]
    · rfl

theorem describe_unmarked (hm : m.SameWords m') (h : c.SameWords d) :
    (c.describe m).mapOrigin NameSource.unmarked (fun _ => default)
      = (d.describe m').mapOrigin NameSource.unmarked fun _ => default := by
  obtain ⟨hname, hsource⟩ := taskName_unmarked hm h
  obtain ⟨span, hc⟩ := c.describe_eq_content m
  obtain ⟨span', hd⟩ := d.describe_eq_content m'
  rw [hc, hd, Content.mapOrigin_describe, Content.mapOrigin_describe, h.content, h.scope,
    h.declaration, hname, hsource]
  cases d.content with
  | task kind args => simp only [Content.describe, hm.ofArguments_eq]
  | function => rfl

end Candidate

/-- Passes over candidates whose references differ in `@` alone. -/
theorem Outcome.run_unmarked {m m' : Model} (hm : m.SameWords m') {cs ds : List Candidate}
    (h : List.Forall₂ Candidate.SameWords cs ds) (modules : List String) :
    (run m modules cs).SameWords (run m' modules ds) := by
  have hdescribed := map_eq_of_forall₂ (fun c d hcd => Candidate.describe_unmarked hm hcd) h
  have hset : (TaskSet.ofDescribed (cs.map (·.describe m))).unmarked
      = (TaskSet.ofDescribed (ds.map (·.describe m'))).unmarked := by
    rw [TaskSet.unmarked, TaskSet.unmarked, ← TaskSet.ofDescribed_mapOrigin,
      ← TaskSet.ofDescribed_mapOrigin, List.map_map, List.map_map]
    exact congrArg _ hdescribed
  obtain ⟨htasks, hrefusals, hartifact⟩ := run_of_mapOrigin hset modules
  refine ⟨htasks, rfl, ?_, hartifact⟩
  have hfallbacks : (cs.filterMap (·.fallback? m)).map (·.unmarked)
      = (ds.filterMap (·.fallback? m')).map (·.unmarked) := by
    rw [List.map_filterMap, List.map_filterMap, ← List.forall₂_eq_eq_eq]
    refine List.rel_filterMap (R := Candidate.SameWords) (fun c d hcd => ?_) h
    rw [Candidate.fallback?_unmarked hm hcd]
    cases (d.fallback? m').map (·.unmarked) with
    | none => exact .none
    | some w => exact .some rfl
  rw [warnings_run, warnings_run, List.map_append, List.map_append, hfallbacks, hrefusals]

section Files

variable {f g : SourceFile} {d e : TypeDecl}

theorem TypeDecl.SameWords.fullName (h : d.SameWords e) : d.fullName = e.fullName := by
  rw [TypeDecl.fullName, TypeDecl.fullName, h.space, h.containers, h.name]

theorem TypeDecl.SameWords.inside (h : d.SameWords e) (hfile : f.usings = g.usings) :
    Scope.inside f d = Scope.inside g e := by
  rw [Scope.inside, Scope.inside, h.space, h.containers, h.name, hfile]

theorem TypeDecl.SameWords.task? (h : d.SameWords e) : d.task? = e.task? := by
  have hbases : d.bases.map taskBase? = e.bases.map taskBase? := by
    refine map_eq_of_forall₂ (fun s t hst => ?_) h.bases
    rw [taskBase?, taskBase?, TypeExpr.read_eq_of_sameText hst]
  have hfirst : d.bases.findSome? taskBase? = e.bases.findSome? taskBase? := by
    have heq := congrArg (List.findSome? id) hbases
    rwa [List.findSome?_map, List.findSome?_map] at heq
  rw [TypeDecl.task?, TypeDecl.task?, h.kind, h.modifiers, h.arity, hfirst]

theorem isMeant_any {as bs : List Attribute} (h : List.Forall₂ Attribute.SameWords as bs)
    (marker : Marker) : as.any (marker.isMeant ·.name) = bs.any (marker.isMeant ·.name) := by
  have hnames := map_eq_of_forall₂ (fun a b hab => congrArg marker.isMeant hab.name) h
  have heq := congrArg (List.any · id) hnames
  rwa [List.any_map, List.any_map] at heq

theorem Method.SameWords.function? {m n : Method} (h : m.SameWords n) :
    Option.Rel (fun t u => t.2.name = u.2.name ∧ t.2.type = u.2.type) m.function? n.function? := by
  have hmarker := rel_find? (p := (Marker.function.isMeant ·.name))
    (fun a b hab => congrArg Marker.function.isMeant hab.name) h.attributes
  have htrigger := rel_find? (p := (·.attributes.any (Marker.activityTrigger.isMeant ·.name)))
    (fun p q hpq => isMeant_any hpq.attributes .activityTrigger) h.parameters
  rw [Method.function?, Method.function?]
  generalize m.attributes.find? _ = x at hmarker
  generalize n.attributes.find? _ = y at hmarker
  generalize m.parameters.find? _ = u at htrigger
  generalize n.parameters.find? _ = v at htrigger
  cases hmarker with
  | none => exact .none
  | some =>
    cases htrigger with
    | none => exact .none
    | some hpq => exact .some ⟨hpq.name, hpq.type⟩

theorem TypeDecl.SameWords.candidates (h : d.SameWords e) (hfile : f.usings = g.usings) :
    List.Forall₂ Candidate.SameWords (d.candidates f) (e.candidates g) := by
  have hscope := h.inside hfile
  refine List.rel_append ?_ (List.rel_filterMap (fun m n hmn => ?_) h.methods)
  · rw [TypeDecl.taskCandidate?_eq, TypeDecl.taskCandidate?_eq, h.task?]
    cases e.task? with
    | none => exact .nil
    | some t =>
      exact .cons ⟨hscope, h.fullName, h.name, rfl, rfl, h.attributes⟩ .nil
  · rw [TypeDecl.functionCandidate?_eq, TypeDecl.functionCandidate?_eq]
    have hfunction := hmn.function?
    generalize m.function? = x at hfunction
    generalize n.function? = y at hfunction
    cases hfunction with
    | none => exact .none
    | some htrigger =>
      refine .some ⟨hscope, ?_, hmn.name, rfl, ?_, hmn.attributes⟩
      · rw [Candidate.declaration, Candidate.declaration, h.fullName, hmn.name]
      · rw [Candidate.content, Candidate.content, hmn.returnType, htrigger.1, htrigger.2]

theorem KnownConstant.ofDecl_sameWords (h : d.SameWords e) (hfile : f.usings = g.usings) :
    List.Forall₂ KnownConstant.SameWords (ofDecl f d) (ofDecl g e) := by
  refine List.rel_map (fun c c' hc => ⟨?_, h.inside hfile, hc.value⟩) h.constants
  rw [h.fullName, hc.name]

variable {files files' : List SourceFile} (h : List.Forall₂ SourceFile.SameWords files files')

include h

theorem Candidate.scan_sameWords :
    List.Forall₂ Candidate.SameWords (scan files) (scan files') :=
  List.rel_flatMap h fun _ _ hfg =>
    List.rel_flatMap hfg.types fun _ _ hde => hde.candidates hfg.usings

theorem flatMap_eq_of_sameWords {α : Type} {k : SourceFile → List α}
    (hk : ∀ f g, SourceFile.SameWords f g → k f = k g) : files.flatMap k = files'.flatMap k := by
  rw [List.flatMap_def, List.flatMap_def, map_eq_of_forall₂ hk h]

theorem Model.build_sameWords (implicitSpaces : List String) :
    (build files implicitSpaces).SameWords (build files' implicitSpaces) where
  type? fullName arity := by
    have htypes : (files.flatMap fun f => f.types.map KnownType.ofDecl)
        = files'.flatMap fun f => f.types.map .ofDecl := by
      refine flatMap_eq_of_sameWords h fun f g hfg => ?_
      refine map_eq_of_forall₂ (fun d e hde => ?_) hfg.types
      rw [KnownType.ofDecl, KnownType.ofDecl, hde.fullName, hde.arity, hde.space, hde.kind]
    rw [type?, type?, build, build, htypes]
  globalUsings := flatMap_eq_of_sameWords h fun f g hfg => by rw [hfg.usings]
  implicitSpaces := rfl
  constant? fullName := by
    refine rel_find? (fun c c' hc => by rw [hc.fullName]) (List.rel_reverse ?_)
    exact List.rel_flatMap h fun f g hfg =>
      List.rel_flatMap hfg.types fun d e hde => KnownConstant.ofDecl_sameWords hde hfg.usings

/-- In a reference a name may be written verbatim or not. -/
theorem Outcome.run_of_sameWords (implicitSpaces modules : List String) :
    (run (.build files implicitSpaces) modules (Candidate.scan files)).SameWords
      (run (.build files' implicitSpaces) modules (Candidate.scan files')) :=
  run_unmarked (Model.build_sameWords h implicitSpaces) (Candidate.scan_sameWords h) modules

end Files

end TaskWrappers
