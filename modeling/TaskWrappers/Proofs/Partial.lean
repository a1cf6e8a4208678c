import TaskWrappers.Proofs.Placed
import TaskWrappers.Proofs.Resolution.Alike

/-!
# Partial declarations

A pass takes every declaration for itself and joins none of them. A type that is declared in parts
is known under its name all the same, each constant is found in whichever part declares it, and
where one part is the task that the whole would be and no other part is a task, a pass has the same
outcome as over the whole (`Split.run_of_split`). A part that repeats the base list is a task of its
own (`Split.run_of_strewn`).
-/

namespace TaskWrappers

/-- The third list holds the first two, each in its order. -/
inductive Interleaved {α : Type} : List α → List α → List α → Prop where
  | nil : Interleaved [] [] []
  | left {a : α} {l l' l'' : List α} (h : Interleaved l l' l'') : Interleaved (a :: l) l' (a :: l'')
  | right {a : α} {l l' l'' : List α} (h : Interleaved l l' l'') :
    Interleaved l (a :: l') (a :: l'')

namespace Interleaved

variable {α β : Type} {l l' l'' k k' k'' : List α}

theorem nil_right : ∀ l : List α, Interleaved l [] l
  | [] => .nil
  | _ :: l => .left (nil_right l)

theorem append (h : Interleaved l l' l'') (hk : Interleaved k k' k'') :
    Interleaved (l ++ k) (l' ++ k') (l'' ++ k'') := by
  induction h with
  | nil => exact hk
  | left _ ih => exact .left ih
  | right _ ih => exact .right ih

theorem reverse (h : Interleaved l l' l'') : Interleaved l.reverse l'.reverse l''.reverse := by
  induction h with
  | nil => exact .nil
  | @left a l l' l'' _ ih =>
    have hlast := ih.append (.left (a := a) .nil)
    rwa [List.append_nil, ← List.reverse_cons, ← List.reverse_cons] at hlast
  | @right a l l' l'' _ ih =>
    have hlast := ih.append (.right (a := a) .nil)
    rwa [List.append_nil, ← List.reverse_cons, ← List.reverse_cons] at hlast

theorem map (f : α → β) (h : Interleaved l l' l'') :
    Interleaved (l.map f) (l'.map f) (l''.map f) := by
  induction h with
  | nil => exact .nil
  | left _ ih => exact .left ih
  | right _ ih => exact .right ih

theorem flatMap_eq {f : α → List β} (h : Interleaved l l' l'') (hnone : ∀ a ∈ l', f a = []) :
    l''.flatMap f = l.flatMap f := by
  induction h with
  | nil => rfl
  | left _ ih => rw [List.flatMap_cons, List.flatMap_cons, ih hnone]
  | right _ ih =>
    rw [List.flatMap_cons, hnone _ List.mem_cons_self, List.nil_append,
      ih fun a ha => hnone a (List.mem_cons_of_mem _ ha)]

/-- What the second list adds does not change what is found if it is only that again. -/
theorem find?_eq {p : α → Bool} (h : Interleaved l l' l'')
    (hfound : ∀ a ∈ l', p a = true → l.find? p = some a) : l''.find? p = l.find? p := by
  induction h with
  | nil => rfl
  | @left a l l' l'' _ ih =>
    by_cases ha : p a = true
    · rw [List.find?_cons_of_pos ha, List.find?_cons_of_pos ha]
    · rw [List.find?_cons_of_neg ha] at hfound ⊢
      rw [List.find?_cons_of_neg ha, ih hfound]
  | @right a l l' l'' _ ih =>
    by_cases ha : p a = true
    · rw [List.find?_cons_of_pos ha, hfound a List.mem_cons_self ha]
    · rw [List.find?_cons_of_neg ha, ih fun b hb => hfound b (List.mem_cons_of_mem a hb)]

end Interleaved

/-- What a part of a type shares with the whole type. -/
structure TypeDecl.IsPartOf (part whole : TypeDecl) : Prop where
  name : part.name = whole.name
  kind : part.kind = whole.kind
  space : part.space = whole.space
  containers : part.containers = whole.containers
  arity : part.arity = whole.arity

/-- The arguments of the attributes that can name a task. -/
def TypeDecl.markers (d : TypeDecl) : List (List Argument) :=
  (d.attributes.filter (Marker.durableTask.isMeant ·.name)).map (·.arguments)

/-- A type declared in parts. Its main part stands for the whole declaration and the others are
strewn among all declarations, in any files. The main part is the task that the whole is, with the
same markers and directives, and no other part is a task; each constant and each activity function
is on some part, constants of one name and activity functions in the order they had. -/
structure Split (implicitSpaces : List String) (files files' : List SourceFile)
    (before after further : List Placed) (whole main : Placed) : Prop where
  declared : Placed.ofFiles files = before ++ whole :: after
  parted : Interleaved (before ++ main :: after) further (Placed.ofFiles files')
  globals : (Model.build files implicitSpaces).globalUsings
    = (Model.build files' implicitSpaces).globalUsings
  parts : ∀ p ∈ main :: further, p.decl.IsPartOf whole.decl
  usings : main.usings = whole.usings
  task : main.decl.task? = whole.decl.task?
  markers : main.decl.markers = whole.decl.markers
  others : ∀ p ∈ further, p.decl.task? = none
  known : (Model.build files implicitSpaces).type? whole.decl.fullName whole.decl.arity
    = some whole.known
  constants : ∀ fullName,
    ((Placed.ofFiles files).flatMap Placed.constants).filter (·.fullName == fullName)
      = ((Placed.ofFiles files').flatMap Placed.constants).filter (·.fullName == fullName)
  functions : (Placed.ofFiles files).flatMap Placed.functions
    = (Placed.ofFiles files').flatMap Placed.functions

namespace TypeDecl.IsPartOf

variable {p q : Placed}

theorem fullName_eq {part whole : TypeDecl} (h : part.IsPartOf whole) :
    part.fullName = whole.fullName := by
  rw [fullName, fullName, h.space, h.containers, h.name]

theorem known_eq (h : p.decl.IsPartOf q.decl) : p.known = q.known := by
  rw [Placed.known, Placed.known, KnownType.ofDecl, KnownType.ofDecl, h.fullName_eq, h.arity,
    h.space, h.kind]

theorem tasks_eq (h : p.decl.IsPartOf q.decl) (husings : p.usings = q.usings)
    (htask : p.decl.task? = q.decl.task?) (hmarkers : p.decl.markers = q.decl.markers) :
    p.tasks = q.tasks := by
  have hscope : Scope.inside p.file p.decl = Scope.inside q.file q.decl := by
    simp only [Scope.inside, Placed.file, h.space, h.containers, h.name, husings]
  rw [Placed.tasks, Placed.tasks, htask]
  refine List.map_congr_left fun t _ => ?_
  rw [Candidate.form, Candidate.form, Candidate.Form.mk.injEq]
  exact ⟨hscope, h.fullName_eq, h.name, hmarkers, rfl⟩

end TypeDecl.IsPartOf

namespace Split

variable {implicitSpaces : List String} {files files' : List SourceFile}
  {before after further : List Placed} {whole main : Placed}
  (h : Split implicitSpaces files files' before after further whole main)

include h

theorem sameTypes_build :
    Model.SameTypes (.build files implicitSpaces) (.build files' implicitSpaces) where
  type? fullName arity := by
    have hmain : (before ++ main :: after).map Placed.known
        = (Placed.ofFiles files).map Placed.known := by
      rw [h.declared, List.map_append, List.map_append, List.map_cons, List.map_cons,
        (h.parts main List.mem_cons_self).known_eq]
    have htypes := (h.parted.map Placed.known).reverse.append
      (.nil_right (Catalog.frameworkTypes.map KnownType.ofFramework))
    rw [hmain, List.append_nil, ← Model.types_build _ implicitSpaces,
      ← Model.types_build _ implicitSpaces] at htypes
    refine (htypes.find?_eq fun t ht hfound => ?_).symm
    rw [List.mem_reverse] at ht
    obtain ⟨p, hp, rfl⟩ := List.mem_map.1 ht
    have hknown := (h.parts p (List.mem_cons_of_mem main hp)).known_eq
    rw [hknown] at hfound ⊢
    -- the name that is looked up is that of the whole
    obtain ⟨hname, harity⟩ := (Bool.and_eq_true _ _).mp hfound
    rw [← beq_iff_eq.1 hname, ← beq_iff_eq.1 harity]
    exact h.known
  globalUsings := h.globals
  implicitSpaces := rfl

theorem same_build : Model.Same (.build files implicitSpaces) (.build files' implicitSpaces) := by
  refine h.sameTypes_build.same (Model.SameTypes.sameConstants_of_eq fun fullName => ?_)
  rw [Model.constant?, Model.constant?, Model.constants_build, Model.constants_build,
    ← List.head?_filter, ← List.head?_filter, List.filter_reverse, List.filter_reverse,
    h.constants]

theorem tasks_eq :
    (Placed.ofFiles files).flatMap Placed.tasks = (Placed.ofFiles files').flatMap Placed.tasks := by
  have hmain := (h.parts main List.mem_cons_self).tasks_eq h.usings h.task h.markers
  have hothers : ∀ p ∈ further, p.tasks = [] := by
    intro p hp
    rw [Placed.tasks, h.others p hp]
    rfl
  rw [h.parted.flatMap_eq hothers, h.declared, List.flatMap_append, List.flatMap_append,
    List.flatMap_cons, List.flatMap_cons, hmain]

/-- Declaring a type in parts changes no outcome but for the places in it and the order of warnings,
and no task class is there twice unless it was declared twice before. -/
theorem run_of_split (modules : List String) :
    (Outcome.run (.build files implicitSpaces) modules (Candidate.scan files)).SameButPlaces
      (Outcome.run (.build files' implicitSpaces) modules (Candidate.scan files')) ∧
    ((((Candidate.scan files).filter (·.isClass)).map (·.declaration)).Nodup →
      ((((Outcome.run (.build files' implicitSpaces) modules
        (Candidate.scan files')).tasks.orchestrators
        ++ (Outcome.run (.build files' implicitSpaces) modules
          (Candidate.scan files')).tasks.activities).map (·.declaration)).Nodup)) := by
  have hclasses := h.tasks_eq
  have hfunctions := h.functions
  rw [Placed.tasks_ofFiles, Placed.tasks_ofFiles] at hclasses
  rw [Placed.functions_ofFiles, Placed.functions_ofFiles] at hfunctions
  constructor
  · rw [← h.same_build.run_eq]
    exact Outcome.run_of_forms hclasses hfunctions modules
  · intro hnodup
    have hdeclarations := congrArg (List.map Candidate.Form.declaration) hclasses
    rw [List.map_map, List.map_map] at hdeclarations
    refine Outcome.nodup_declarations ?_ modules
    have heq : ((Candidate.scan files').filter (·.isClass)).map (·.declaration)
        = ((Candidate.scan files).filter (·.isClass)).map (·.declaration) := hdeclarations.symm
    rw [heq]
    exact hnodup

omit h

def shipUsings : List Using := [⟨.space, "System", false⟩]

/-- An activity that is named by a constant of its own. -/
def ship : TypeDecl :=
  ⟨"Ship", .class, some "App", [], 0, ["public", "partial"],
    [⟨"DurableTask", [⟨none, "Kind"⟩], default⟩], ["TaskActivity<int, string>", "IDisposable"], [],
    [⟨"Kind", "string", "\"Send\""⟩], default⟩

/-- The part of it that is the task. -/
def shipMain : TypeDecl := { ship with bases := ["TaskActivity<int, string>"], constants := [] }

/-- The rest of it. -/
def shipRest : TypeDecl := { ship with attributes := [], bases := ["IDisposable"] }

/-- A part that is a task as well. -/
def shipAgain : TypeDecl := { shipRest with bases := ["TaskActivity<int, string>"] }

/-- The activity with its constant named through an alias. -/
def shipAliased : TypeDecl :=
  { ship with attributes := [⟨"DurableTask", [⟨none, "Own.Kind"⟩], default⟩] }

def nightly : TypeDecl :=
  ⟨"Nightly", .class, some "App", [], 0, [], [], ["TaskOrchestrator<int, int>"], [], [], default⟩

def fileOf (path : String) (types : List TypeDecl) : SourceFile := ⟨path, shipUsings, types, none⟩

theorem split_ship : Split [] [fileOf "Ship.cs" [ship, nightly]]
    [fileOf "Rest.cs" [shipRest], fileOf "Ship.cs" [shipMain, nightly]]
    [] [⟨shipUsings, nightly⟩] [⟨shipUsings, shipRest⟩] ⟨shipUsings, ship⟩
    ⟨shipUsings, shipMain⟩ := by
  have hnone : taskBase? "IDisposable" = none := Option.isNone_iff_eq_none.1 (by decide +kernel)
  constructor
  case declared => rfl
  case parted => exact .right (.left (.left .nil))
  case globals => rfl
  case parts =>
    intro p hp
    rcases List.mem_cons.1 hp with rfl | hp
    · exact ⟨rfl, rfl, rfl, rfl, rfl⟩
    · rw [List.mem_singleton.1 hp]
      exact ⟨rfl, rfl, rfl, rfl, rfl⟩
  case usings => rfl
  case task => simp [TypeDecl.task?, shipMain, ship, List.findSome?_cons, hnone]
  case markers => rfl
  case others =>
    intro p hp
    rw [List.mem_singleton.1 hp]
    simp [TypeDecl.task?, shipRest, ship, hnone]
  case known => decide
  case constants => exact fun _ => rfl
  case functions => rfl

/-- A pass without implicit namespaces and references. -/
def outcomeOf (files : List SourceFile) : Outcome :=
  .run (.build files []) [] (Candidate.scan files)

theorem run_of_split_ship :
    (outcomeOf [fileOf "Ship.cs" [ship, nightly]]).SameButPlaces
      (outcomeOf [fileOf "Rest.cs" [shipRest], fileOf "Ship.cs" [shipMain, nightly]]) ∧
    (outcomeOf [fileOf "Rest.cs" [shipRest],
        fileOf "Ship.cs" [shipMain, nightly]]).tasks.activities.map
      (fun t => (t.name, t.declaration)) = [("Send", "App.Ship")] ∧
    (((outcomeOf [fileOf "Rest.cs" [shipRest],
        fileOf "Ship.cs" [shipMain, nightly]]).tasks.orchestrators
      ++ (outcomeOf [fileOf "Rest.cs" [shipRest],
        fileOf "Ship.cs" [shipMain, nightly]]).tasks.activities).map (·.declaration)).Nodup := by
  obtain ⟨hrun, hnodup⟩ := run_of_split split_ship []
  exact ⟨hrun, by decide +kernel, hnodup (by decide +kernel)⟩

/-- The names of a pass's activities, each with the class it is of. -/
def activitiesOf (files : List SourceFile) : List (String × String) :=
  (outcomeOf files).tasks.activities.map fun t => (t.name, t.declaration)

/-- A part that repeats the base list is a task under the name of the class, and the class is
registered twice. A marker and a modifier say nothing about other parts than their own, and a part
is read under the directives of its own file. -/
theorem run_of_strewn :
    (activitiesOf [fileOf "Ship.cs" [ship]] = [("Send", "App.Ship")] ∧
      activitiesOf [fileOf "Ship.cs" [shipMain], fileOf "Again.cs" [shipAgain]]
        = [("Send", "App.Ship"), ("Ship", "App.Ship")] ∧
      Plan.closing .standalone
          (outcomeOf [fileOf "Ship.cs" [shipMain], fileOf "Again.cs" [shipAgain]]).tasks
        = [.registration [] ["App.Ship", "App.Ship"]]) ∧
    activitiesOf [fileOf "Ship.cs" [{ shipMain with attributes := [] }],
        fileOf "Rest.cs" [{ shipRest with attributes := ship.attributes }]]
      = [("Ship", "App.Ship")] ∧
    (activitiesOf [fileOf "Ship.cs" [{ ship with modifiers := ["abstract", "partial"] }]] = [] ∧
      activitiesOf [fileOf "Ship.cs" [shipMain],
          fileOf "Rest.cs" [{ shipRest with modifiers := ["abstract", "partial"] }]]
        = [("Send", "App.Ship")]) ∧
    activitiesOf [⟨"Ship.cs", [⟨.aliased "Own", "App.Ship", false⟩], [shipAliased], none⟩]
      = [("Send", "App.Ship")] ∧
    activitiesOf [⟨"Ship.cs", [], [{ shipAliased with constants := [] }], none⟩,
        ⟨"Rest.cs", [⟨.aliased "Own", "App.Ship", false⟩], [shipRest], none⟩]
      = [("Ship", "App.Ship")] := by
  decide +kernel

end Split

end TaskWrappers
