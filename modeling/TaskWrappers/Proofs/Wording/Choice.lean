import Mathlib.Data.List.Basic
import TaskWrappers.Proofs.Resolution.Lookup

/-!
# Directives in several wordings

Some of the directives of a pass are chosen, and these are written as they are, with `global::` in
front of their targets, or not at all. What a dotted name may stand for comes in the same order in
every wording, a candidate of a chosen directive with `global::` in front or left out like the
directive itself (`ChosenModel.candidates_worded`), and so does what a word alone is an alias for
(`aliasTarget?_all`).
-/

namespace TaskWrappers

open Text

/-- How the chosen ones among some directives are written: as they are, with `global::` in front of
their targets, or not at all. -/
inductive Wording where
  | plain
  | qualified
  | omitted

/-- A full name with `global::` in front. -/
def globalName (name : String) : String := "global::" ++ name

/-- A directive with `global::` in front of its target. -/
def Using.globally (u : Using) : Using := { u with target := globalName u.target }

theorem Using.isGlobal_globally (u : Using) : u.globally.isGlobal = u.isGlobal := rfl

theorem Using.isAlias_globally (u : Using) (name : String) :
    u.globally.isAlias name = u.isAlias name := rfl

/-- The name that a directive gives to something. -/
def Using.alias? (u : Using) : Option String :=
  match u.kind with
  | .aliased name => some name
  | _ => none

theorem Using.isAlias_iff {u : Using} {name : String} :
    u.isAlias name = true ↔ u.alias? = some name := by
  unfold isAlias alias?
  cases u.kind <;> simp

namespace Wording

variable {α β : Type} (how : Wording) {qualify : α → α} {qualify' : β → β}

/-- What is written for something with whether it is chosen. -/
def word (qualify : α → α) : α × Bool → Option α
  | (a, false) => some a
  | (a, true) =>
    match how with
    | plain => some a
    | qualified => some (qualify a)
    | omitted => none

/-- All that is written, in order. -/
def all (qualify : α → α) (as : List (α × Bool)) : List α := as.filterMap (how.word qualify)

theorem all_append (as bs : List (α × Bool)) :
    how.all qualify (as ++ bs) = how.all qualify as ++ how.all qualify bs :=
  List.filterMap_append

/-- What is not chosen is written as it is. -/
theorem all_unchosen {as : List (α × Bool)} (h : ∀ a ∈ as, a.2 = false) :
    how.all qualify as = as.map (·.1) := by
  rw [all, ← List.filterMap_eq_map]
  refine List.filterMap_congr fun a ha => ?_
  obtain ⟨a, chosen⟩ := a
  cases h _ ha
  rfl

/-- What is made of each thing that is written can be made before it is. -/
theorem filterMap_all {g : α → Option β} (hg : ∀ a, g (qualify a) = (g a).map qualify')
    (as : List (α × Bool)) :
    (how.all qualify as).filterMap g
      = how.all qualify' (as.filterMap fun a => (g a.1).map (·, a.2)) := by
  rw [all, all, List.filterMap_filterMap, List.filterMap_filterMap]
  refine List.filterMap_congr fun a _ => ?_
  obtain ⟨a, chosen⟩ := a
  cases chosen with
  | false =>
    show g a = _
    cases g a <;> rfl
  | true =>
    cases how with
    | plain =>
      show g a = _
      cases g a <;> rfl
    | qualified =>
      show g (qualify a) = _
      rw [hg]
      cases g a <;> rfl
    | omitted =>
      show none = _
      cases g a <;> rfl

theorem map_all {g : α → β} (hg : ∀ a, g (qualify a) = qualify' (g a)) (as : List (α × Bool)) :
    (how.all qualify as).map g = how.all qualify' (as.map fun a => (g a.1, a.2)) := by
  rw [← List.filterMap_eq_map, ← List.filterMap_eq_map]
  exact how.filterMap_all (g := some ∘ g) (fun a => congrArg some (hg a)) as

theorem filter_all {p : α → Bool} (hp : ∀ a, p (qualify a) = p a) (as : List (α × Bool)) :
    (how.all qualify as).filter p = how.all qualify (as.filter fun a => p a.1) := by
  have hguard (a : α) : Option.guard p (qualify a) = (Option.guard p a).map qualify := by
    cases hpa : p a <;> simp [Option.guard, hp, hpa]
  rw [← List.filterMap_eq_filter, ← List.filterMap_eq_filter, how.filterMap_all hguard]
  refine congrArg _ (List.filterMap_congr fun a _ => ?_)
  cases hpa : p a.1 <;> simp [Option.guard, hpa]

/-- What is found first depends on what is found for the chosen ones. -/
theorem findSome?_congr {how' : Wording} {f : α → Option β} {as : List (α × Bool)}
    (h : ∀ a, (a, true) ∈ as →
      (how.word qualify (a, true)).bind f = (how'.word qualify (a, true)).bind f) :
    (how.all qualify as).findSome? f = (how'.all qualify as).findSome? f := by
  rw [all, all, ← List.head?_filterMap, ← List.head?_filterMap, List.filterMap_filterMap,
    List.filterMap_filterMap]
  refine congrArg List.head? (List.filterMap_congr fun a ha => ?_)
  obtain ⟨a, chosen⟩ := a
  cases chosen with
  | false => rfl
  | true => exact h a ha

theorem mem_omitted {a : α} {as : List (α × Bool)} (h : a ∈ omitted.all qualify as) :
    (a, false) ∈ as := by
  obtain ⟨⟨b, chosen⟩, hb, hword⟩ := List.mem_filterMap.1 h
  cases chosen with
  | false =>
    cases hword
    exact hb
  | true => cases hword

theorem omitted_subset_plain (as : List (α × Bool)) :
    omitted.all qualify as ⊆ plain.all qualify as :=
  fun _ ha => List.mem_filterMap.2 ⟨_, mem_omitted ha, rfl⟩

end Wording

theorem Using.aliasTarget?_cons_of_pos {u : Using} {name : String} (h : u.isAlias name = true)
    (us : List Using) : aliasTarget? (u :: us) name = some u.target := by
  simp [aliasTarget?, h]

theorem Using.aliasTarget?_cons_of_neg {u : Using} {name : String} (h : ¬u.isAlias name = true)
    (us : List Using) : aliasTarget? (u :: us) name = aliasTarget? us name := by
  simp [aliasTarget?, h]

theorem Using.aliasTarget?_eq_none {us : List Using} {name : String}
    (h : ∀ u ∈ us, u.alias? ≠ some name) : aliasTarget? us name = none := by
  rw [aliasTarget?, Option.map_eq_none_iff, List.find?_eq_none]
  exact fun u hu halias => h u hu (isAlias_iff.1 halias)

/-- Among directives with no two aliases of a name, one that opens with `global::` may as well not
be there if what opens so stands for nothing. -/
theorem aliasTarget?_qualified {β : Type} {f : String → Option β}
    (hf : ∀ target, f (globalName target) = none) (name : String) :
    ∀ {us : List (Using × Bool)}, (us.filterMap (·.1.alias?)).Nodup →
      (Using.aliasTarget? (Wording.qualified.all Using.globally us) name).bind f
        = (Using.aliasTarget? (Wording.omitted.all Using.globally us) name).bind f
  | [], _ => rfl
  | (u, chosen) :: us, honce => by
    have htail : (us.filterMap (·.1.alias?)).Nodup :=
      honce.sublist ((List.sublist_cons_self _ us).filterMap _)
    have ih := aliasTarget?_qualified hf name htail
    by_cases hu : u.isAlias name = true
    · cases chosen with
      | false =>
        show (Using.aliasTarget? (u :: _) name).bind f = (Using.aliasTarget? (u :: _) name).bind f
        rw [Using.aliasTarget?_cons_of_pos hu, Using.aliasTarget?_cons_of_pos hu]
      | true =>
        -- the name has no other alias, for which leaving this one out would make room
        have hother : name ∉ us.filterMap (·.1.alias?) := by
          rw [List.filterMap_cons, Using.isAlias_iff.1 hu] at honce
          exact (List.nodup_cons.1 honce).1
        have hnone : Using.aliasTarget? (Wording.omitted.all Using.globally us) name = none :=
          Using.aliasTarget?_eq_none fun v hv halias =>
            hother (List.mem_filterMap.2 ⟨_, Wording.mem_omitted hv, halias⟩)
        show (Using.aliasTarget? (u.globally :: _) name).bind f
          = (Using.aliasTarget? (Wording.omitted.all Using.globally us) name).bind f
        rw [Using.aliasTarget?_cons_of_pos ((u.isAlias_globally name).trans hu), hnone]
        exact hf u.target
    · cases chosen with
      | false =>
        show (Using.aliasTarget? (u :: _) name).bind f = (Using.aliasTarget? (u :: _) name).bind f
        rwa [Using.aliasTarget?_cons_of_neg hu, Using.aliasTarget?_cons_of_neg hu]
      | true =>
        show (Using.aliasTarget? (u.globally :: _) name).bind f = _
        rwa [Using.aliasTarget?_cons_of_neg (u.isAlias_globally name ▸ hu)]

/-- The alias of a name that comes first does so however it is written. -/
theorem aliasTarget?_all (how : Wording) (hhow : how ≠ .omitted) (name : String)
    (us : List (Using × Bool)) :
    Using.aliasTarget? (how.all Using.globally us) name
      = ((us.find? (·.1.isAlias name)).bind (how.word Using.globally)).map (·.target) := by
  have hword (u : Using × Bool) :
      Option.any (·.isAlias name) (how.word Using.globally u) = u.1.isAlias name := by
    obtain ⟨u, chosen⟩ := u
    cases chosen with
    | false => rfl
    | true =>
      cases how with
      | plain => rfl
      | qualified => exact u.isAlias_globally name
      | omitted => exact absurd rfl hhow
  rw [Using.aliasTarget?, Wording.all, List.find?_filterMap, funext hword]

theorem aliasTarget?_eq_none_iff (how : Wording) (hhow : how ≠ .omitted) {name : String}
    {us : List (Using × Bool)} :
    Using.aliasTarget? (how.all Using.globally us) name = none
      ↔ us.find? (·.1.isAlias name) = none := by
  rw [aliasTarget?_all how hhow]
  cases us.find? (·.1.isAlias name) with
  | none => exact iff_of_true rfl rfl
  | some u =>
    obtain ⟨u, chosen⟩ := u
    cases chosen with
    | false => exact iff_of_false nofun nofun
    | true =>
      cases how with
      | plain | qualified => exact iff_of_false nofun nofun
      | omitted => exact absurd rfl hhow

/-- A scope whose file's directives are chosen or not. -/
structure ChosenScope where
  space : Option String
  chain : List String
  usings : List (Using × Bool)

def ChosenScope.worded (s : ChosenScope) (how : Wording) : Scope :=
  ⟨s.space, s.chain, how.all Using.globally s.usings⟩

namespace ChosenScope

/-- No namespace and no directives. -/
def global : ChosenScope := ⟨none, [], []⟩

end ChosenScope

structure ChosenConstant where
  fullName : String
  value : String
  scope : ChosenScope

def ChosenConstant.worded (c : ChosenConstant) (how : Wording) : KnownConstant :=
  ⟨c.fullName, c.value, c.scope.worded how⟩

/-- The declarations of a pass, of whose directives some are chosen. -/
structure ChosenModel where
  types : List KnownType
  constants : List ChosenConstant
  globalUsings : List (Using × Bool)
  implicitSpaces : List String

def ChosenModel.worded (m : ChosenModel) (how : Wording) : Model where
  types := m.types
  constants := m.constants.map (·.worded how)
  globalUsings := how.all Using.globally m.globalUsings
  implicitSpaces := m.implicitSpaces

/-- A source file, of whose directives some are chosen. -/
structure ChosenFile where
  path : String
  usings : List (Using × Bool)
  types : List TypeDecl
  damage : Option Span

namespace ChosenFile

def worded (f : ChosenFile) (how : Wording) : SourceFile :=
  ⟨f.path, how.all Using.globally f.usings, f.types, f.damage⟩

def inside (f : ChosenFile) (d : TypeDecl) : ChosenScope :=
  ⟨d.space, d.containers ++ [d.name], f.usings⟩

/-- The declarations of files in a wording of their directives. -/
def model (files : List ChosenFile) (implicitSpaces : List String) (how : Wording) : Model :=
  .build (files.map (·.worded how)) implicitSpaces

end ChosenFile

def ChosenConstant.ofDecl (f : ChosenFile) (d : TypeDecl) : List ChosenConstant :=
  d.constants.map fun c => ⟨d.fullName ++ "." ++ c.name, c.value, f.inside d⟩

theorem ChosenConstant.map_worded_ofDecl (f : ChosenFile) (d : TypeDecl) (how : Wording) :
    (ofDecl f d).map (·.worded how) = KnownConstant.ofDecl (f.worded how) d := by
  rw [ofDecl, List.map_map]
  rfl

namespace ChosenModel

def build (files : List ChosenFile) (implicitSpaces : List String) : ChosenModel where
  types :=
    (files.flatMap fun f => f.types.map .ofDecl).reverse
      ++ Catalog.frameworkTypes.map .ofFramework
  constants := (files.flatMap fun f => f.types.flatMap (ChosenConstant.ofDecl f)).reverse
  globalUsings := files.flatMap fun f => f.usings.filter (·.1.isGlobal)
  implicitSpaces := implicitSpaces

/-- The choice among the directives of files goes along with their declarations. -/
theorem worded_build (files : List ChosenFile) (implicitSpaces : List String) (how : Wording) :
    (build files implicitSpaces).worded how = ChosenFile.model files implicitSpaces how := by
  have hglobal (f : ChosenFile) : how.all Using.globally (f.usings.filter (·.1.isGlobal))
      = (f.worded how).usings.filter (·.isGlobal) :=
    (how.filter_all Using.isGlobal_globally f.usings).symm
  simp only [worded, build, ChosenFile.model, Model.build, List.flatMap_map, List.map_reverse,
    List.map_flatMap, ChosenConstant.map_worded_ofDecl, ← hglobal, Wording.all,
    List.filterMap_flatMap]
  rfl

variable (m : ChosenModel) (s : ChosenScope)

/-- What a dotted name may stand for, with whether a chosen directive offers it. -/
def candidates (name : String) : List (String × Bool) :=
  let usings := s.usings ++ m.globalUsings
  let cut := cut? (· == '.') name.toList
  ((Scope.mk s.space s.chain []).near name).map (·, false)
    ++ usings.filterMap (fun u => (Model.imported? name cut.isNone u.1).map (·, u.2))
    ++ match cut with
      | none => (m.implicitSpaces.map (· ++ "." ++ name)).map (·, false)
      | some (first, rest) =>
        (usings.filter (·.1.isAlias (.ofList first))).map fun u =>
          (u.1.target ++ "." ++ .ofList rest, u.2)

theorem usingsIn_worded (how : Wording) :
    (m.worded how).usingsIn (s.worded how)
      = how.all Using.globally (s.usings ++ m.globalUsings) :=
  (how.all_append s.usings m.globalUsings).symm

/-- What a word is an alias for, in a wording that has all directives. -/
theorem aliasTarget?_worded (how : Wording) (hhow : how ≠ .omitted) (name : String) :
    (m.worded how).aliasTarget? (s.worded how) name
      = (((s.usings ++ m.globalUsings).find? (·.1.isAlias name)).bind
          (how.word Using.globally)).map (·.target) := by
  rw [Model.aliasTarget?_eq, usingsIn_worded, aliasTarget?_all how hhow]

theorem candidates_worded (how : Wording) (name : String) :
    (m.worded how).candidates (s.worded how) name
      = how.all globalName (m.candidates s name) := by
  have hnear : how.all globalName (((Scope.mk s.space s.chain []).near name).map (·, false))
      = (s.worded how).near name := by
    rw [how.all_unchosen (List.forall_mem_map.2 fun _ _ => rfl), List.map_map]
    exact List.map_id _
  have himported (isSimple : Bool) (u : Using) : Model.imported? name isSimple u.globally
      = (Model.imported? name isSimple u).map globalName := by
    unfold Model.imported? Using.globally globalName
    cases u.kind with
    | space => cases isSimple <;> simp [String.append_assoc]
    | static => simp [String.append_assoc]
    | aliased _ => rfl
  rw [Model.candidates, candidates, how.all_append, how.all_append, hnear, usingsIn_worded]
  simp only [how.filterMap_all (himported _)]
  refine congrArg _ ?_
  cases cut? (· == '.') name.toList with
  | none =>
    dsimp only
    rw [how.all_unchosen (List.forall_mem_map.2 fun _ _ => rfl), List.map_map]
    exact (List.map_id _).symm
  | some cut =>
    dsimp only
    rw [how.filter_all (Using.isAlias_globally · (.ofList cut.1))]
    exact how.map_all (fun _ => by simp [Using.globally, globalName, String.append_assoc]) _

variable {m : ChosenModel} {s : ChosenScope}

def type? (m : ChosenModel) (fullName : String) (arity : Nat) : Option KnownType :=
  m.types.find? fun t => t.fullName == fullName && t.arity == arity

def constant? (m : ChosenModel) (fullName : String) : Option ChosenConstant :=
  m.constants.find? (·.fullName == fullName)

theorem type?_worded (how : Wording) (fullName : String) (arity : Nat) :
    (m.worded how).type? fullName arity = m.type? fullName arity := rfl

theorem constant?_worded (how : Wording) (fullName : String) :
    (m.worded how).constant? fullName = (m.constant? fullName).map (·.worded how) := by
  rw [Model.constant?, worded, List.find?_map]
  rfl

end ChosenModel

end TaskWrappers
