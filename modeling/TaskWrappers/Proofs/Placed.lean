import TaskWrappers.Proofs.Outcome.Place
import TaskWrappers.Proofs.Resolution.Alike

/-!
# Declarations and the directives over them

All that a pass takes from a file are its declarations, each under the directives of the file: the
types it knows and the constants, the tasks and the activity functions that it describes are those
of the declarations in their order (`Placed.tasks_ofFiles` and the like). Where a declaration stands
does not matter to any of them (`Placed.tasks_unplaced`), so a pass over the same declarations in
the same order has the same outcome (`Outcome.run_of_placed`).
-/

namespace TaskWrappers

/-- The kind and the type arguments of the task that a declaration is, if it is one. -/
def TypeDecl.task? (d : TypeDecl) : Option (TaskKind × List (Option TypeExpr)) :=
  if !d.kind.isDerivable || d.modifiers.contains "abstract" || 0 < d.arity then none
  else d.bases.findSome? taskBase?

/-- The marker and the trigger of the activity function that a method is, if it is one. -/
def Method.function? (m : Method) : Option (Attribute × Parameter) := do
  let marker ← m.attributes.find? (Marker.function.isMeant ·.name)
  let trigger ← m.parameters.find? (·.attributes.any (Marker.activityTrigger.isMeant ·.name))
  return (marker, trigger)

theorem TypeDecl.taskCandidate?_eq (f : SourceFile) (d : TypeDecl) :
    d.taskCandidate? f = d.task?.map fun t => .task t.1 f d t.2 := by
  unfold taskCandidate? task?
  split <;> rfl

theorem TypeDecl.functionCandidate?_eq (f : SourceFile) (d : TypeDecl) (m : Method) :
    d.functionCandidate? f m = m.function?.map fun t => .function f d m t.1 t.2 := by
  unfold functionCandidate? Method.function?
  cases m.attributes.find? (Marker.function.isMeant ·.name) with
  | none => rfl
  | some marker =>
    cases m.parameters.find? (·.attributes.any (Marker.activityTrigger.isMeant ·.name)) <;> rfl

/-- A declaration with the directives of its file. -/
structure Placed where
  usings : List Using
  decl : TypeDecl

namespace Placed

/-- All declarations of some files. -/
def ofFiles (files : List SourceFile) : List Placed :=
  files.flatMap fun f => f.types.map fun d => ⟨f.usings, d⟩

/-- A file that the declaration could stand in. -/
def file (p : Placed) : SourceFile := ⟨"", p.usings, [], none⟩

/-- The task that a declaration is, if it is one. -/
def tasks (p : Placed) : List Candidate.Form :=
  p.decl.task?.toList.map fun t => (Candidate.task t.1 p.file p.decl t.2).form

/-- The activity functions among a declaration's methods. -/
def functions (p : Placed) : List Candidate.Form :=
  p.decl.methods.filterMap fun m =>
    m.function?.map fun t => (Candidate.function p.file p.decl m t.1 t.2).form

def constants (p : Placed) : List KnownConstant := KnownConstant.ofDecl p.file p.decl

def known (p : Placed) : KnownType := .ofDecl p.decl

variable (files : List SourceFile)

theorem flatMap_ofFiles {α : Type} (g : Placed → List α) :
    (ofFiles files).flatMap g
      = files.flatMap fun f => f.types.flatMap fun d => g ⟨f.usings, d⟩ := by
  rw [ofFiles, List.flatMap_assoc]
  simp only [List.flatMap_map]

theorem map_known_ofFiles :
    (ofFiles files).map known = files.flatMap fun f => f.types.map .ofDecl := by
  rw [ofFiles, List.map_flatMap]
  simp only [List.map_map]
  rfl

theorem constants_ofFiles :
    (ofFiles files).flatMap constants
      = files.flatMap fun f => f.types.flatMap (KnownConstant.ofDecl f) := by
  rw [flatMap_ofFiles]
  rfl

/-- Of its file a candidate says the directives only. -/
theorem forms_candidates (f : SourceFile) (d : TypeDecl) :
    ((d.candidates f).filter (·.isClass)).map (·.form) = tasks ⟨f.usings, d⟩ ∧
      ((d.candidates f).filter (!·.isClass)).map (·.form) = functions ⟨f.usings, d⟩ := by
  have hclass : ∀ c ∈ (d.taskCandidate? f).toList, c.isClass = true := by
    intro c hc
    rw [TypeDecl.taskCandidate?_eq, Option.mem_toList] at hc
    obtain ⟨t, -, rfl⟩ := Option.map_eq_some_iff.1 hc
    rfl
  have hfunction : ∀ c ∈ d.methods.filterMap (d.functionCandidate? f), c.isClass = false := by
    intro c hc
    obtain ⟨m, -, hc⟩ := List.mem_filterMap.1 hc
    rw [TypeDecl.functionCandidate?_eq] at hc
    obtain ⟨t, -, rfl⟩ := Option.map_eq_some_iff.1 hc
    rfl
  rw [TypeDecl.candidates, List.filter_append, List.filter_append]
  constructor
  · rw [List.filter_eq_self.2 hclass, List.filter_eq_nil_iff.2 fun c hc => by simp [hfunction c hc],
      List.append_nil, TypeDecl.taskCandidate?_eq, tasks]
    cases d.task? <;> rfl
  · rw [List.filter_eq_nil_iff.2 fun c hc => by simp [hclass c hc],
      List.filter_eq_self.2 fun c hc => by simp [hfunction c hc], List.nil_append,
      List.map_filterMap, functions]
    refine List.filterMap_congr fun m _ => ?_
    rw [TypeDecl.functionCandidate?_eq, Option.map_map]
    rfl

theorem tasks_ofFiles :
    (ofFiles files).flatMap tasks
      = ((Candidate.scan files).filter (·.isClass)).map (·.form) := by
  rw [flatMap_ofFiles, Candidate.scan, List.filter_flatMap, List.map_flatMap]
  simp only [List.filter_flatMap, List.map_flatMap, forms_candidates]

theorem functions_ofFiles :
    (ofFiles files).flatMap functions
      = ((Candidate.scan files).filter (!·.isClass)).map (·.form) := by
  rw [flatMap_ofFiles, Candidate.scan, List.filter_flatMap, List.map_flatMap]
  simp only [List.filter_flatMap, List.map_flatMap, forms_candidates]

end Placed

namespace Model

variable (files : List SourceFile) (implicitSpaces : List String)

theorem types_build : (build files implicitSpaces).types
    = ((Placed.ofFiles files).map Placed.known).reverse
      ++ Catalog.frameworkTypes.map .ofFramework := by
  rw [Placed.map_known_ofFiles, build]

theorem constants_build : (build files implicitSpaces).constants
    = ((Placed.ofFiles files).flatMap Placed.constants).reverse := by
  rw [Placed.constants_ofFiles, build]

variable {files} {files' : List SourceFile}

theorem sameTypes_of_known
    (hknown : (Placed.ofFiles files).map Placed.known = (Placed.ofFiles files').map Placed.known)
    (hglobals : (build files implicitSpaces).globalUsings
      = (build files' implicitSpaces).globalUsings) :
    SameTypes (build files implicitSpaces) (build files' implicitSpaces) where
  type? fullName arity := by rw [type?, type?, types_build, types_build, hknown]
  globalUsings := hglobals
  implicitSpaces := rfl

end Model

def Attribute.unplaced (a : Attribute) : Attribute := { a with span := default }

theorem Attribute.arguments_unplaced (m : Marker) (attributes : List Attribute) :
    ((attributes.map Attribute.unplaced).filter (m.isMeant ·.name)).map (·.arguments)
      = (attributes.filter (m.isMeant ·.name)).map (·.arguments) := by
  rw [List.filter_map, List.map_map]
  rfl

def Parameter.unplaced (p : Parameter) : Parameter :=
  { p with attributes := p.attributes.map .unplaced }

def Method.unplaced (m : Method) : Method :=
  { m with
    parameters := m.parameters.map .unplaced, attributes := m.attributes.map .unplaced
    span := default }

def TypeDecl.unplaced (d : TypeDecl) : TypeDecl :=
  { d with
    attributes := d.attributes.map .unplaced, methods := d.methods.map .unplaced, span := default }

theorem Method.function?_unplaced (m : Method) :
    m.unplaced.function? = m.function?.map fun t => (t.1.unplaced, t.2.unplaced) := by
  have hmarker : m.unplaced.attributes.find? (Marker.function.isMeant ·.name)
      = (m.attributes.find? (Marker.function.isMeant ·.name)).map .unplaced := by
    rw [unplaced, List.find?_map]
    rfl
  have htrigger : m.unplaced.parameters.find?
      (·.attributes.any (Marker.activityTrigger.isMeant ·.name))
        = (m.parameters.find? (·.attributes.any (Marker.activityTrigger.isMeant ·.name))).map
          .unplaced := by
    rw [unplaced, List.find?_map]
    refine congrArg (Option.map _ <| List.find? · _) (funext fun p => ?_)
    rw [Function.comp_apply, Parameter.unplaced, List.any_map]
    rfl
  rw [function?, function?, hmarker, htrigger]
  cases m.attributes.find? (Marker.function.isMeant ·.name) with
  | none => rfl
  | some marker =>
    cases m.parameters.find? (·.attributes.any (Marker.activityTrigger.isMeant ·.name)) <;> rfl

namespace Placed

def unplaced (p : Placed) : Placed := ⟨p.usings, p.decl.unplaced⟩

variable (p : Placed)

theorem known_unplaced : p.unplaced.known = p.known := rfl

theorem constants_unplaced : p.unplaced.constants = p.constants := rfl

theorem tasks_unplaced : p.unplaced.tasks = p.tasks := by
  refine List.map_congr_left fun t _ => ?_
  rw [Candidate.form, Candidate.form, Candidate.Form.mk.injEq]
  exact ⟨rfl, rfl, rfl, Attribute.arguments_unplaced _ _, rfl⟩

theorem functions_unplaced : p.unplaced.functions = p.functions := by
  rw [functions, functions, unplaced, TypeDecl.unplaced, List.filterMap_map]
  refine List.filterMap_congr fun m _ => ?_
  rw [Function.comp_apply, Method.function?_unplaced, Option.map_map]
  refine congrArg (Option.map · _) (funext fun t => ?_)
  rw [Function.comp_apply, Candidate.form, Candidate.form, Candidate.Form.mk.injEq]
  exact ⟨rfl, rfl, rfl, Attribute.arguments_unplaced _ _, rfl⟩

end Placed

section SamePlaced

variable {files files' : List SourceFile} {implicitSpaces : List String}
  (h : (Placed.ofFiles files).map Placed.unplaced = (Placed.ofFiles files').map Placed.unplaced)

include h

theorem flatMap_of_placed {α : Type} {g : Placed → List α} (hg : ∀ p, g p.unplaced = g p) :
    (Placed.ofFiles files).flatMap g = (Placed.ofFiles files').flatMap g := by
  have heq := congrArg (List.flatMap g) h
  simpa only [List.flatMap_map, hg] using heq

theorem known_of_placed :
    (Placed.ofFiles files).map Placed.known = (Placed.ofFiles files').map Placed.known := by
  have heq := congrArg (List.map Placed.known) h
  simpa only [List.map_map, Function.comp_def, Placed.known_unplaced] using heq

/-- A pass over the same declarations, wherever they stand, has the same outcome. -/
theorem Outcome.run_of_placed
    (hglobals : (Model.build files implicitSpaces).globalUsings
      = (Model.build files' implicitSpaces).globalUsings) (modules : List String) :
    (run (.build files implicitSpaces) modules (Candidate.scan files)).SameButPlaces
      (run (.build files' implicitSpaces) modules (Candidate.scan files')) := by
  have hsame := (Model.sameTypes_of_known _ (known_of_placed h) hglobals).same
    (Model.SameTypes.sameConstants_of_eq fun fullName => by
      rw [Model.constant?, Model.constant?, Model.constants_build, Model.constants_build,
        flatMap_of_placed h Placed.constants_unplaced])
  have hclasses := flatMap_of_placed h Placed.tasks_unplaced
  have hfunctions := flatMap_of_placed h Placed.functions_unplaced
  rw [Placed.tasks_ofFiles, Placed.tasks_ofFiles] at hclasses
  rw [Placed.functions_ofFiles, Placed.functions_ofFiles] at hfunctions
  rw [← hsame.run_eq]
  exact run_of_forms hclasses hfunctions modules

end SamePlaced

end TaskWrappers
