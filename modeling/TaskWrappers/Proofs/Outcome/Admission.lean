import Mathlib.Data.List.Forall2
import Mathlib.Data.List.Infix
import TaskWrappers.Proofs.Outcome.Contest

/-!
# Which tasks are admitted

In each of the two name spaces a task is admitted exactly if its name can be used and no task before
it has the same name. Each of the others is refused by one warning, in their order: that its name
cannot be used, or that the one that was admitted under the name keeps it (`Admits`). Admitted tasks
have names of their own, so that a second validation has nothing to refuse
(`TaskSet.validate_exact`).
-/

namespace TaskWrappers

section Ranked

variable {α : Type}

/-- Each member of a list with all those before it. -/
def ranked (as : List α) : List (List α × α) := as.inits.zip as

theorem ranked_cons (a : α) (as : List α) :
    ranked (a :: as) = ([], a) :: (ranked as).map (Prod.map (a :: ·) id) := by
  rw [ranked, ranked, List.inits_cons, List.zip_cons_cons, List.zip_map_left]

theorem filterMap_admitted? : ∀ rows : List (α × Option Warning),
    rows.filterMap admitted? = (rows.filter (·.2.isNone)).map (·.1)
  | [] => rfl
  | (a, none) :: rows => congrArg (a :: ·) (filterMap_admitted? rows)
  | (_, some _) :: rows => filterMap_admitted? rows

/-- What a list is read as when a part of it is read as nothing. -/
theorem forall₂_filterMap {β : Type} {R : α → β → Prop} {f : α → Option β} : ∀ {as : List α},
    (∀ a ∈ as, ∀ b, f a = some b → R a b) →
      List.Forall₂ R (as.filter fun a => !(f a).isNone) (as.filterMap f)
  | [], _ => .nil
  | a :: as, h => by
    have ih := forall₂_filterMap fun b hb => h b (List.mem_cons_of_mem a hb)
    cases ha : f a with
    | none => rwa [List.filter_cons_of_neg (by simp [ha]), List.filterMap_cons_none ha]
    | some b =>
      rw [List.filter_cons_of_pos (by simp [ha]), List.filterMap_cons_some ha]
      exact .cons (h a List.mem_cons_self b ha) ih

end Ranked

section Admits

variable {α : Type} (kind : TaskKind) (name declaration : α → String)

/-- Whether a member can have its name: it can be used and is not that of one before. -/
def IsFirst (r : List α × α) : Prop :=
  isIdentifier (name r.2) = true ∧ ∀ a ∈ r.1, name a ≠ name r.2

instance (r : List α × α) : Decidable (IsFirst name r) := inferInstanceAs (Decidable (_ ∧ _))

/-- The warning for a member that cannot have its name, where the given ones are admitted. -/
def Due (kept : List α) (a : α) (w : Warning) : Prop :=
  if isIdentifier (name a) then
    ∃ b ∈ kept, name b = name a ∧
      w = .duplicateName kind (name a) (declaration b) (declaration a)
  else w = .invalidName (name a) (declaration a)

/-- What is admitted of a list that is a name space of its own, and the warnings for the rest. -/
structure Admits (as kept : List α) (warnings : List Warning) : Prop where
  kept_eq : kept = ((ranked as).filter (IsFirst name ·)).map (·.2)
  warned : List.Forall₂ (Due kind name declaration kept)
    (((ranked as).filter (¬ IsFirst name ·)).map (·.2)) warnings
  distinct : (kept.map name).Nodup

/-- The warning that a member gets where some names are taken. -/
def refusal? (taken : Taken) (r : List α × α) : Option Warning :=
  if isIdentifier (name r.2) then
    (holder? name declaration taken r.1 (name r.2)).map
      (.duplicateName kind (name r.2) · (declaration r.2))
  else some (.invalidName (name r.2) (declaration r.2))

variable {kind name declaration}

/-- Names are judged by what comes before, however it was judged itself. -/
theorem judge_eq_ranked : ∀ (taken : Taken) (as : List α),
    judge kind name declaration taken as
      = (ranked as).map fun r => (r.2, refusal? kind name declaration taken r)
  | _, [] => rfl
  | taken, a :: as => by
    have htail {taken' : Taken} (h : ∀ r : List α × α, isIdentifier (name r.2) = true →
        holder? name declaration taken' r.1 (name r.2)
          = holder? name declaration taken (a :: r.1) (name r.2)) :
        judge kind name declaration taken' as = ((ranked as).map (Prod.map (a :: ·) id)).map
          fun r => (r.2, refusal? kind name declaration taken r) := by
      rw [judge_eq_ranked taken' as, List.map_map]
      refine List.map_congr_left fun r _ => Prod.ext rfl ?_
      simp only [Function.comp_apply, refusal?, Prod.map_fst, Prod.map_snd, id]
      split
      · rw [h r ‹_›]
      · rfl
    have hhead : refusal? kind name declaration taken ([], a)
        = if isIdentifier (name a) then
            (taken.lookup (name a)).map (.duplicateName kind (name a) · (declaration a))
          else some (.invalidName (name a) (declaration a)) := by
      rw [refusal?, holder?, List.find?_nil, Option.map_none, Option.or_none]
    rw [ranked_cons, List.map_cons, hhead]
    rcases take_cases kind taken (name a) (declaration a) with
      ⟨hname, htake⟩ | ⟨hname, first, hlookup, htake⟩ | ⟨hname, hlookup, htake⟩
    · rw [judge_cons_of_error htake, hname, htail fun r hr =>
        (holder?_cons_of_ne (ne_of_isIdentifier hr hname)).symm]
      rfl
    · rw [judge_cons_of_error htake, hname, hlookup, htail fun r _ => ?_]
      · rfl
      · by_cases hne : name a = name r.2
        · rw [← hne, holder?_of_lookup hlookup, holder?_of_lookup hlookup]
        · rw [holder?_cons_of_ne hne]
    · rw [judge_cons_of_ok htake, hname, hlookup, htail fun r _ => holder?_take hlookup]
      rfl

theorem refusal?_isNone {r : List α × α} :
    (refusal? kind name declaration [] r).isNone = decide (IsFirst name r) := by
  rw [refusal?, holder?, List.lookup_nil, Option.none_or, Bool.eq_iff_iff, decide_eq_true_iff]
  unfold IsFirst
  cases hname : isIdentifier (name r.2) <;> simp

theorem kept_eq (as : List α) :
    (keep kind name declaration [] as).1 = ((ranked as).filter (IsFirst name ·)).map (·.2) := by
  rw [keep_fst, judge_eq_ranked, filterMap_admitted?, List.filter_map, List.map_map]
  exact congrArg (List.map _) (List.filter_congr fun r _ => refusal?_isNone)

theorem mem_of_mem_ranked {r : List α × α} {as : List α} (h : r ∈ ranked as) : r.1 <+: as :=
  (List.mem_inits _ _).1 (List.of_mem_zip h).1

/-- A name that is refused to a member is kept by one that is admitted. -/
theorem due_of_refusal? {r : List α × α} {as : List α} (hr : r ∈ ranked as) {w : Warning}
    (h : refusal? kind name declaration [] r = some w) :
    Due kind name declaration (keep kind name declaration [] as).1 r.2 w := by
  rw [refusal?, holder?, List.lookup_nil, Option.none_or] at h
  rw [Due]
  split at h
  · rename_i hname
    rw [Option.map_map, Option.map_eq_some_iff] at h
    obtain ⟨b, hfind, hw⟩ := h
    rw [if_pos hname]
    obtain ⟨rest, hrest⟩ := mem_of_mem_ranked hr
    -- the first of that name is the first among all, and that one is admitted
    have hkept : (keep kind name declaration [] as).1.filter (name · == name r.2)
        = (as.filter (name · == name r.2)).take 1 := filter_keep hname [] as
    have hfirst : (as.filter (name · == name r.2)).head? = some b := by
      rw [List.head?_filter, ← hrest, List.find?_append, hfind, Option.some_or]
    obtain ⟨others, hothers⟩ := List.head?_eq_some_iff.1 hfirst
    rw [hothers] at hkept
    have hb : b ∈ (keep kind name declaration [] as).1.filter (name · == name r.2) := by
      rw [hkept]
      exact List.mem_singleton.2 rfl
    obtain ⟨hmem, hbname⟩ := List.mem_filter.1 hb
    exact ⟨b, hmem, eq_of_beq hbname, hw.symm⟩
  · rename_i hname
    rw [if_neg hname]
    exact (Option.some_inj.1 h).symm

theorem admits_keep (as : List α) :
    Admits kind name declaration as (keep kind name declaration [] as).1
      (keep kind name declaration [] as).2.2 where
  kept_eq := kept_eq as
  warned := by
    have hlost : (ranked as).filter (¬ IsFirst name ·)
        = (ranked as).filter fun r => !(refusal? kind name declaration [] r).isNone :=
      List.filter_congr fun r _ => by rw [refusal?_isNone, decide_not]
    rw [keep_warnings, judge_eq_ranked, List.filterMap_map, List.forall₂_map_left_iff, hlost]
    exact forall₂_filterMap fun r hr w h => due_of_refusal? hr h
  distinct := nodup_keep _ _

end Admits

section Again

variable {α : Type} {kind : TaskKind} {name declaration : α → String}

/-- What was admitted is refused nothing when it is judged again. -/
theorem judge_kept {as : List α} {row : α × Option Warning}
    (h : row ∈ judge kind name declaration [] (keep kind name declaration [] as).1) :
    row.2 = none := by
  rw [judge_of_nodup (nodup_keep _ _) fun _ _ => List.lookup_nil] at h
  obtain ⟨a, ha, rfl⟩ := List.mem_map.1 h
  exact if_pos (isIdentifier_of_mem_keep ha)

end Again

namespace TaskSet

variable (t : TaskSet)

theorem judged_validate (p : Part) : ∀ row ∈ t.validate.1.judged p, row.2 = none := by
  have hcalls : ∀ row ∈ t.validate.1.judged .activities ++ t.validate.1.judged .functions,
      row.2 = none := by
    intro row hrow
    rw [judged_append, calls_validate] at hrow
    exact judge_kept hrow
  intro row hrow
  cases p with
  | orchestrators =>
    rw [judged, members_validate, judged, ← keep_fst] at hrow
    exact judge_kept hrow
  | activities => exact hcalls row (List.mem_append_left _ hrow)
  | functions => exact hcalls row (List.mem_append_right _ hrow)

/-- Where no name is refused, all is as it was. -/
theorem validate_of_judged {t : TaskSet} (h : ∀ p, ∀ row ∈ t.judged p, row.2 = none) :
    t.validate = (t, []) := by
  refine Prod.ext (eq_of_members fun p => ?_) ?_
  · rw [members_validate, filterMap_admitted?, List.filter_eq_self.2 fun row hrow => ?_,
      map_fst_judged]
    rw [h p row hrow]
    rfl
  · rw [validate_snd, List.flatMap_eq_nil_iff]
    exact fun p _ => List.filterMap_eq_nil_iff.2 (h p)

theorem validate_snd_eq : t.validate.2
    = (keep .orchestrator Task.name Task.declaration [] t.orchestrators).2.2
      ++ (keep .activity Described.name Described.declaration [] t.calls).2.2 := by
  rw [validate_snd]
  simp only [Part.all, List.flatMap_cons, List.flatMap_nil, List.append_nil]
  rw [← List.filterMap_append, judged_append, ← keep_warnings, judged, ← keep_warnings, members,
    keep_map]
  rfl

/-- Validation admits of the orchestrators, and of the activity classes and functions together,
those that are the first with a name that can be used, warns of each of the others in turn, and
leaves what it admitted as it is when it is repeated. -/
theorem validate_exact :
    (∃ ofOrchestrators ofCalls, t.validate.2 = ofOrchestrators ++ ofCalls ∧
      Admits .orchestrator Task.name Task.declaration t.orchestrators t.validate.1.orchestrators
        ofOrchestrators ∧
      Admits .activity Described.name Described.declaration t.calls t.validate.1.calls ofCalls) ∧
    t.validate.1.validate = (t.validate.1, []) := by
  refine ⟨⟨_, _, validate_snd_eq t, admits_keep _, ?_⟩, validate_of_judged (judged_validate t)⟩
  rw [calls_validate]
  exact admits_keep _

end TaskSet

end TaskWrappers
