import TaskWrappers.Naming
import TaskWrappers.Proofs.Text.Name

/-!
# Who gets a name

Names are given out along a list. Judging each member there, with the names taken before it, loses
none of them (`map_fst_judge`): those that are kept and the warnings are read off the judgements
(`keep_fst`, `keep_warnings`). A name that can be used goes to the first member that has it unless
it was taken before (`filter_keep`), and every warning about another one names that first
(`holder?_of_duplicate`). So the names that are kept are distinct (`nodup_keep`).
-/

namespace TaskWrappers

open Text (isName)

theorem isName_of_isIdentifier {n : String} (h : isIdentifier n = true) : isName n = true := by
  unfold isIdentifier at h
  unfold isName
  cases hn : n.toList with
  | nil =>
    rw [hn] at h
    cases h
  | cons c cs =>
    rw [hn, Bool.and_eq_true] at h
    exact h.1

/-- Whether a warning refuses a name to a declaration of the kind. -/
inductive Warning.Refuses (kind : TaskKind) (name declaration : String) : Warning → Prop where
  | invalid : Refuses kind name declaration (.invalidName name declaration)
  | duplicate (kept : String) :
    Refuses kind name declaration (.duplicateName kind name kept declaration)

theorem take_cases (kind : TaskKind) (taken : Taken) (name declaration : String) :
    (isIdentifier name = false ∧
        take kind taken name declaration = .error (.invalidName name declaration)) ∨
      (isIdentifier name = true ∧ ∃ kept, taken.lookup name = some kept ∧
        take kind taken name declaration = .error (.duplicateName kind name kept declaration)) ∨
      (isIdentifier name = true ∧ taken.lookup name = none ∧
        take kind taken name declaration = .ok ((name, declaration) :: taken)) := by
  unfold take
  rcases Bool.eq_false_or_eq_true (isIdentifier name) with hname | hname
  · rw [if_pos hname]
    cases hlookup : taken.lookup name with
    | none => exact .inr (.inr ⟨hname, rfl, rfl⟩)
    | some kept => exact .inr (.inl ⟨hname, kept, rfl, rfl⟩)
  · rw [if_neg (by rw [hname]; exact Bool.false_ne_true)]
    exact .inl ⟨hname, rfl⟩

section Keep

variable {α : Type} (kind : TaskKind) (name declaration : α → String)

/-- Each member of a list with the warning that refuses it its name, if one does. -/
def judge : Taken → List α → List (α × Option Warning)
  | _, [] => []
  | taken, a :: as =>
    match take kind taken (name a) (declaration a) with
    | .ok taken => (a, none) :: judge taken as
    | .error warning => (a, some warning) :: judge taken as

/-- The member of a judgement that does not refuse it. -/
def admitted? (e : α × Option Warning) : Option α :=
  if e.2.isNone then some e.1 else none

variable {kind name declaration} {taken : Taken} {a : α} {as : List α} {n : String}

theorem keep_cons_of_ok {taken' : Taken}
    (h : take kind taken (name a) (declaration a) = .ok taken') :
    keep kind name declaration taken (a :: as) =
      (a :: (keep kind name declaration taken' as).1,
        (keep kind name declaration taken' as).2) := by
  rw [keep, h]

theorem keep_cons_of_error {w : Warning}
    (h : take kind taken (name a) (declaration a) = .error w) :
    keep kind name declaration taken (a :: as) =
      ((keep kind name declaration taken as).1, (keep kind name declaration taken as).2.1,
        w :: (keep kind name declaration taken as).2.2) := by
  rw [keep, h]

theorem judge_cons_of_ok {taken' : Taken}
    (h : take kind taken (name a) (declaration a) = .ok taken') :
    judge kind name declaration taken (a :: as)
      = (a, none) :: judge kind name declaration taken' as := by
  rw [judge, h]

theorem judge_cons_of_error {w : Warning}
    (h : take kind taken (name a) (declaration a) = .error w) :
    judge kind name declaration taken (a :: as)
      = (a, some w) :: judge kind name declaration taken as := by
  rw [judge, h]

theorem map_fst_judge : ∀ (taken : Taken) (as : List α),
    (judge kind name declaration taken as).map (·.1) = as
  | _, [] => rfl
  | taken, a :: as => by
    cases h : take kind taken (name a) (declaration a) with
    | ok taken' => rw [judge_cons_of_ok h, List.map_cons, map_fst_judge]
    | error w => rw [judge_cons_of_error h, List.map_cons, map_fst_judge]

theorem keep_fst : ∀ (taken : Taken) (as : List α),
    (keep kind name declaration taken as).1
      = (judge kind name declaration taken as).filterMap admitted?
  | _, [] => rfl
  | taken, a :: as => by
    cases h : take kind taken (name a) (declaration a) with
    | ok taken' =>
      rw [keep_cons_of_ok h, judge_cons_of_ok h]
      exact congrArg (a :: ·) (keep_fst taken' as)
    | error w =>
      rw [keep_cons_of_error h, judge_cons_of_error h]
      exact keep_fst taken as

theorem keep_warnings : ∀ (taken : Taken) (as : List α),
    (keep kind name declaration taken as).2.2
      = (judge kind name declaration taken as).filterMap (·.2)
  | _, [] => rfl
  | taken, a :: as => by
    cases h : take kind taken (name a) (declaration a) with
    | ok taken' =>
      rw [keep_cons_of_ok h, judge_cons_of_ok h]
      exact keep_warnings taken' as
    | error w =>
      rw [keep_cons_of_error h, judge_cons_of_error h]
      exact congrArg (w :: ·) (keep_warnings taken as)

theorem refuses_of_mem_judge : ∀ {taken : Taken} {as : List α} {a : α} {w : Warning},
    (a, some w) ∈ judge kind name declaration taken as → w.Refuses kind (name a) (declaration a)
  | taken, b :: as, a, w, h => by
    rcases take_cases kind taken (name b) (declaration b) with
      ⟨-, htake⟩ | ⟨-, kept, -, htake⟩ | ⟨-, -, htake⟩
    · rw [judge_cons_of_error htake] at h
      rcases List.mem_cons.1 h with heq | h
      · cases heq
        exact .invalid
      · exact refuses_of_mem_judge h
    · rw [judge_cons_of_error htake] at h
      rcases List.mem_cons.1 h with heq | h
      · cases heq
        exact .duplicate kept
      · exact refuses_of_mem_judge h
    · rw [judge_cons_of_ok htake] at h
      rcases List.mem_cons.1 h with heq | h
      · cases heq
      · exact refuses_of_mem_judge h

theorem invalid_of_mem_judge : ∀ {taken : Taken} {as : List α} {row : α × Option Warning},
    row ∈ judge kind name declaration taken as → isIdentifier (name row.1) = false →
      row.2 = some (.invalidName (name row.1) (declaration row.1))
  | taken, b :: as, row, h, hname => by
    rcases take_cases kind taken (name b) (declaration b) with
      ⟨_, htake⟩ | ⟨hb, _, _, htake⟩ | ⟨hb, _, htake⟩
    · rw [judge_cons_of_error htake] at h
      rcases List.mem_cons.1 h with rfl | h
      · rfl
      · exact invalid_of_mem_judge h hname
    · rw [judge_cons_of_error htake] at h
      rcases List.mem_cons.1 h with rfl | h
      · rw [hb] at hname
        cases hname
      · exact invalid_of_mem_judge h hname
    · rw [judge_cons_of_ok htake] at h
      rcases List.mem_cons.1 h with rfl | h
      · rw [hb] at hname
        cases hname
      · exact invalid_of_mem_judge h hname

theorem judge_append : ∀ (taken : Taken) (as bs : List α),
    judge kind name declaration taken (as ++ bs) =
      judge kind name declaration taken as
        ++ judge kind name declaration (keep kind name declaration taken as).2.1 bs
  | _, [], _ => rfl
  | taken, a :: as, bs => by
    rw [List.cons_append]
    cases h : take kind taken (name a) (declaration a) with
    | ok taken' =>
      rw [judge_cons_of_ok h, judge_cons_of_ok h, keep_cons_of_ok h, judge_append, List.cons_append]
    | error w =>
      rw [judge_cons_of_error h, judge_cons_of_error h, keep_cons_of_error h, judge_append,
        List.cons_append]

/-- A name that cannot be used is refused whoever else has it. -/
def invalid? (name declaration : String) : Option Warning :=
  if isIdentifier name then none else some (.invalidName name declaration)

/-- Where no two members have one name, each is judged by its own name alone. -/
theorem judge_of_nodup : ∀ {taken : Taken} {as : List α}, (as.map name).Nodup →
    (∀ a ∈ as, taken.lookup (name a) = none) →
      judge kind name declaration taken as = as.map fun a => (a, invalid? (name a) (declaration a))
  | _, [], _, _ => rfl
  | taken, a :: as, hnodup, hfree => by
    obtain ⟨hnew, hnodup⟩ := List.nodup_cons.1 hnodup
    have hrest := judge_of_nodup hnodup fun b hb => hfree b (List.mem_cons_of_mem a hb)
    rw [List.map_cons, invalid?]
    rcases take_cases kind taken (name a) (declaration a) with
      ⟨hname, htake⟩ | ⟨-, first, hlookup, -⟩ | ⟨hname, -, htake⟩
    · rw [judge_cons_of_error htake, hrest, hname]
      rfl
    · rw [hfree a List.mem_cons_self] at hlookup
      cases hlookup
    · rw [judge_cons_of_ok htake, hname, if_pos rfl, judge_of_nodup hnodup fun b hb => ?_]
      have hne : name b ≠ name a := fun heq => hnew (List.mem_map.2 ⟨b, hb, heq⟩)
      rw [List.lookup_cons, beq_eq_false_iff_ne.2 hne]
      exact hfree b (List.mem_cons_of_mem a hb)

theorem keep_map {β : Type} (f : β → α) : ∀ (taken : Taken) (bs : List β),
    keep kind name declaration taken (bs.map f)
      = ((keep kind (name ∘ f) (declaration ∘ f) taken bs).1.map f,
        (keep kind (name ∘ f) (declaration ∘ f) taken bs).2)
  | _, [] => rfl
  | taken, b :: bs => by
    rw [List.map_cons]
    cases h : take kind taken (name (f b)) (declaration (f b)) with
    | ok taken' =>
      have hb : take kind taken ((name ∘ f) b) ((declaration ∘ f) b) = .ok taken' := h
      rw [keep_cons_of_ok h, keep_cons_of_ok hb, keep_map]
      rfl
    | error w =>
      have hb : take kind taken ((name ∘ f) b) ((declaration ∘ f) b) = .error w := h
      rw [keep_cons_of_error h, keep_cons_of_error hb, keep_map]

variable (name declaration)

/-- The declaration that holds a name after a list: the one that had taken it before, or else the
first in the list. -/
def holder? (taken : Taken) (as : List α) (n : String) : Option String :=
  (taken.lookup n).or ((as.find? (name · == n)).map declaration)

variable {name declaration}

theorem holder?_of_lookup {kept : String} (h : taken.lookup n = some kept) :
    holder? name declaration taken as n = some kept := by
  rw [holder?, h, Option.some_or]

theorem holder?_cons_of_ne (h : name a ≠ n) :
    holder? name declaration taken (a :: as) n = holder? name declaration taken as n := by
  rw [holder?, holder?, List.find?_cons_of_neg (by simpa using h)]

/-- A member that takes its name leaves every name with the holder it would have had. -/
theorem holder?_take (h : taken.lookup (name a) = none) :
    holder? name declaration ((name a, declaration a) :: taken) as n
      = holder? name declaration taken (a :: as) n := by
  by_cases heq : name a = n
  · subst heq
    rw [holder?_of_lookup List.lookup_cons_self, holder?, h, Option.none_or,
      List.find?_cons_of_pos (by simp)]
    rfl
  · rw [holder?_cons_of_ne heq, holder?, holder?, List.lookup_cons,
      beq_eq_false_iff_ne.2 (Ne.symm heq)]

theorem ne_of_isIdentifier (hn : isIdentifier n = true) (ha : isIdentifier (name a) = false) :
    name a ≠ n := by
  rintro rfl
  rw [ha] at hn
  cases hn

/-- A warning about a name that is taken names the holder. -/
theorem holder?_of_duplicate {k : TaskKind} {kept skipped : String} :
    ∀ {taken : Taken} {as : List α},
      .duplicateName k n kept skipped ∈ (keep kind name declaration taken as).2.2 →
        k = kind ∧ isIdentifier n = true ∧ holder? name declaration taken as n = some kept
  | _, [], h => by cases h
  | taken, a :: as, h => by
    rcases take_cases kind taken (name a) (declaration a) with
      ⟨hname, htake⟩ | ⟨hname, first, hlookup, htake⟩ | ⟨hname, hlookup, htake⟩
    · rw [keep_cons_of_error htake] at h
      rcases List.mem_cons.1 h with heq | h
      · cases heq
      · obtain ⟨hk, hn, hkept⟩ := holder?_of_duplicate h
        exact ⟨hk, hn, (holder?_cons_of_ne (ne_of_isIdentifier hn hname)).trans hkept⟩
    · rw [keep_cons_of_error htake] at h
      rcases List.mem_cons.1 h with heq | h
      · cases heq
        exact ⟨rfl, hname, holder?_of_lookup hlookup⟩
      · obtain ⟨hk, hn, hkept⟩ := holder?_of_duplicate h
        refine ⟨hk, hn, ?_⟩
        by_cases hne : name a = n
        · subst hne
          rw [holder?_of_lookup hlookup] at hkept ⊢
          exact hkept
        · exact (holder?_cons_of_ne hne).trans hkept
    · rw [keep_cons_of_ok htake] at h
      obtain ⟨hk, hn, hkept⟩ := holder?_of_duplicate h
      exact ⟨hk, hn, (holder?_take hlookup).symm.trans hkept⟩

/-- A name that can be used goes to the first that has it, if it was not taken before. -/
theorem filter_keep (hn : isIdentifier n = true) : ∀ (taken : Taken) (as : List α),
    (keep kind name declaration taken as).1.filter (name · == n)
      = if (taken.lookup n).isNone then (as.filter (name · == n)).take 1 else []
  | taken, [] => by simp [keep]
  | taken, a :: as => by
    have ih := filter_keep hn taken as
    rcases take_cases kind taken (name a) (declaration a) with
      ⟨hname, htake⟩ | ⟨hname, first, hlookup, htake⟩ | ⟨hname, hlookup, htake⟩
    · rw [keep_cons_of_error htake, ih,
        List.filter_cons_of_neg (by simpa using ne_of_isIdentifier hn hname)]
    · rw [keep_cons_of_error htake, ih]
      by_cases hne : name a = n
      · subst hne
        rw [hlookup]
        rfl
      · rw [List.filter_cons_of_neg (by simpa using hne)]
    · have ih := filter_keep hn ((name a, declaration a) :: taken) as
      rw [keep_cons_of_ok htake]
      by_cases hne : name a = n
      · subst hne
        rw [List.lookup_cons_self] at ih
        rw [List.filter_cons_of_pos (by simp), List.filter_cons_of_pos (by simp), ih, hlookup]
        rfl
      · rw [List.lookup_cons, beq_eq_false_iff_ne.2 (Ne.symm hne)] at ih
        rw [List.filter_cons_of_neg (by simpa using hne),
          List.filter_cons_of_neg (by simpa using hne), ih]

theorem isIdentifier_of_mem_keep : ∀ {taken : Taken} {as : List α} {a : α},
    a ∈ (keep kind name declaration taken as).1 → isIdentifier (name a) = true
  | taken, b :: as, a, h => by
    rcases take_cases kind taken (name b) (declaration b) with
      ⟨hname, htake⟩ | ⟨hname, first, hlookup, htake⟩ | ⟨hname, hlookup, htake⟩
    · rw [keep_cons_of_error htake] at h
      exact isIdentifier_of_mem_keep h
    · rw [keep_cons_of_error htake] at h
      exact isIdentifier_of_mem_keep h
    · rw [keep_cons_of_ok htake] at h
      rcases List.mem_cons.1 h with rfl | h
      · exact hname
      · exact isIdentifier_of_mem_keep h

theorem lookup_of_mem_keep (h : a ∈ (keep kind name declaration taken as).1) :
    taken.lookup (name a) = none := by
  have hmem : a ∈ (keep kind name declaration taken as).1.filter (name · == name a) :=
    List.mem_filter.2 ⟨h, by simp⟩
  rw [filter_keep (isIdentifier_of_mem_keep h)] at hmem
  split at hmem
  · rwa [Option.isNone_iff_eq_none] at *
  · cases hmem

theorem nodup_keep : ∀ (taken : Taken) (as : List α),
    ((keep kind name declaration taken as).1.map name).Nodup
  | _, [] => List.nodup_nil
  | taken, a :: as => by
    cases h : take kind taken (name a) (declaration a) with
    | error w =>
      rw [keep_cons_of_error h]
      exact nodup_keep taken as
    | ok taken' =>
      rw [keep_cons_of_ok h]
      refine List.nodup_cons.2 ⟨fun hmem => ?_, nodup_keep taken' as⟩
      obtain ⟨b, hb, hname⟩ := List.mem_map.1 hmem
      have hfree := lookup_of_mem_keep hb
      rcases take_cases kind taken (name a) (declaration a) with
        ⟨-, htake⟩ | ⟨-, _, -, htake⟩ | ⟨-, -, htake⟩
      all_goals rw [h] at htake; cases htake
      rw [hname, List.lookup_cons_self] at hfree
      cases hfree

end Keep

end TaskWrappers
