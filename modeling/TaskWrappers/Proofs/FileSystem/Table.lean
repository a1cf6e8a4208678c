import Mathlib.Data.List.Nodup
import Mathlib.Data.List.Perm.Subperm
import Mathlib.Data.String.Basic
import TaskWrappers.Proofs.FileSystem.Change
import TaskWrappers.Proofs.Path.Below

/-!
# Tables of entries

A table lists what stands at each place once, under names that a directory can hold. So a directory
lists each name in it once, in order (`mem_names`, `pairwise_names`), and no place lies deeper than
the table is long (`length_le_entries`). In which order the rows stand makes no difference
(`IsTable.at?_of_perm`).
-/

namespace TaskWrappers.FileSystem

/-- A name that a directory can hold. -/
def IsEntryName (name : String) : Prop :=
  Path.IsName name ∧ '\x00' ∉ name.toList ∧ name.utf8ByteSize ≤ maxNameBytes

instance (name : String) : Decidable (IsEntryName name) := inferInstanceAs (Decidable (_ ∧ _))

/-- A table with one row for each place, under names that directories can hold. -/
structure IsTable (fs : FileSystem) : Prop where
  nodup : (fs.entries.map Prod.fst).Nodup
  names : ∀ x ∈ fs.entries, ∀ name ∈ x.1, IsEntryName name

variable {fs fs' : FileSystem} {place q : Place} {name : String} {entry : Entry}

theorem child?_eq_some {q : Place} : child? place q = some name ↔ q = place ++ [name] := by
  unfold child?
  rcases List.eq_nil_or_concat' q with rfl | ⟨outer, last, rfl⟩
  · simp
  · rw [List.getLast?_concat, List.dropLast_concat]
    dsimp only
    constructor
    · intro h
      split at h
      · cases h
        subst_vars
        rfl
      · cases h
    · intro h
      obtain ⟨rfl, hname⟩ := List.append_inj' h rfl
      cases hname
      exact if_pos rfl

theorem at?_ne_none_iff (hne : q ≠ []) : fs.at? q ≠ none ↔ q ∈ fs.entries.map Prod.fst := by
  rw [at?_of_ne_nil hne, ne_eq, List.lookup_eq_none_iff, List.mem_map]
  constructor
  · intro h
    by_contra hnone
    refine h fun x hx => bne_iff_ne.2 ?_
    rintro rfl
    exact hnone ⟨x, hx, rfl⟩
  · rintro ⟨x, hx, rfl⟩ h
    exact absurd rfl (bne_iff_ne.1 (h x hx))

/-- A directory lists the names under which something stands in it. -/
theorem mem_names : name ∈ fs.names place ↔ fs.at? (place ++ [name]) ≠ none := by
  rw [at?_ne_none_iff (by simp), names, List.mem_mergeSort, List.mem_filterMap, List.mem_map]
  constructor
  · rintro ⟨x, hx, hchild⟩
    exact ⟨x, hx, child?_eq_some.1 hchild⟩
  · rintro ⟨x, hx, heq⟩
    exact ⟨x, hx, child?_eq_some.2 heq⟩

namespace IsTable

variable (h : fs.IsTable)
include h

/-- A directory lists its names in order, each once. -/
theorem pairwise_names (place : Place) : (fs.names place).Pairwise (· < ·) := by
  have hsorted : (fs.names place).Pairwise (· ≤ ·) := by
    have hsort : (fs.names place).Pairwise fun a b => decide (a ≤ b) = true :=
      List.pairwise_mergeSort
        (fun a b c hab hbc => by simpa using (of_decide_eq_true hab).trans (of_decide_eq_true hbc))
        (fun a b => by simpa using le_total a b) (fs.entries.filterMap fun x => child? place x.1)
    exact hsort.imp of_decide_eq_true
  have hnodup : (fs.names place).Nodup := by
    have hchildren : ((fs.entries.map Prod.fst).filterMap (child? place)).Nodup := by
      refine h.nodup.filterMap fun a b name ha hb => ?_
      rw [child?_eq_some.1 ha, child?_eq_some.1 hb]
    rw [List.filterMap_map] at hchildren
    exact (List.mergeSort_perm _ _).nodup_iff.2 hchildren
  exact (hsorted.and hnodup).imp fun ⟨hle, hne⟩ => lt_of_le_of_ne hle hne

theorem isEntryName (hplace : fs.at? place ≠ none) (hname : name ∈ place) : IsEntryName name := by
  have hne : place ≠ [] := List.ne_nil_of_mem hname
  obtain ⟨x, hx, rfl⟩ := List.mem_map.1 ((at?_ne_none_iff hne).1 hplace)
  exact h.names x hx name hname

theorem of_perm (hperm : fs'.entries.Perm fs.entries) : fs'.IsTable where
  nodup := (hperm.map Prod.fst).nodup_iff.2 h.nodup
  names x hx := h.names x (hperm.mem_iff.1 hx)

/-- A place with a row of its own holds what that row says. -/
theorem at?_eq_some_iff (hne : q ≠ []) : fs.at? q = some entry ↔ (q, entry) ∈ fs.entries := by
  refine ⟨mem_entries hne, fun hmem => ?_⟩
  have hat : fs.at? q ≠ none := (at?_ne_none_iff hne).2 (List.mem_map_of_mem hmem)
  obtain ⟨found, hfound⟩ := Option.ne_none_iff_exists'.1 hat
  have heq := List.inj_on_of_nodup_map h.nodup hmem (mem_entries hne hfound) rfl
  cases heq
  exact hfound

theorem at?_of_perm (hperm : fs'.entries.Perm fs.entries) (q : Place) : fs'.at? q = fs.at? q := by
  by_cases hne : q = []
  · subst hne
    rfl
  · refine Option.ext fun entry => ?_
    rw [(h.of_perm hperm).at?_eq_some_iff hne, h.at?_eq_some_iff hne, hperm.mem_iff]

theorem put (hplace : ∀ name ∈ place, IsEntryName name) : (fs.put place entry).IsTable where
  nodup := by
    have hfilter : (fs.entries.filter (·.1 != place)).map Prod.fst
        = (fs.entries.map Prod.fst).filter (· != place) := by
      rw [List.filter_map]
      rfl
    rw [FileSystem.put, List.map_append, hfilter, List.map_singleton, ← List.concat_eq_append]
    exact (h.nodup.filter _).concat (by simp)
  names x hx := by
    rcases List.mem_append.1 hx with hx | hx
    · exact h.names x (List.mem_filter.1 hx).1
    · rw [List.mem_singleton.1 hx]
      exact hplace

theorem clear (place : Place) : (fs.clear place).IsTable where
  nodup := h.nodup.sublist (List.filter_sublist.map _)
  names x hx := h.names x (List.mem_filter.1 hx).1

end IsTable

/-- Every place above one where something stands has a row of its own. -/
theorem IsTree.length_le_entries (h : fs.IsTree) (hplace : fs.at? place ≠ none) :
    place.length ≤ fs.entries.length := by
  have hnodup : ((List.range place.length).map fun n => place.take (n + 1)).Nodup := by
    refine List.nodup_range.map_on fun m hm n hn heq => ?_
    have hlength := congrArg List.length heq
    rw [List.mem_range] at hm hn
    simp only [List.length_take] at hlength
    omega
  have hsubset : ((List.range place.length).map fun n => place.take (n + 1))
      ⊆ fs.entries.map Prod.fst := by
    intro q hq
    obtain ⟨n, hn, rfl⟩ := List.mem_map.1 hq
    rw [List.mem_range] at hn
    refine (at?_ne_none_iff ?_).1 ?_
    · exact List.ne_nil_of_length_pos (by rw [List.length_take]; omega)
    · by_cases hself : place.take (n + 1) = place
      · rwa [hself]
      · rw [h.above hself hplace (List.take_prefix _ _)]
        nofun
  have hlength := (hnodup.subperm hsubset).length_le
  simpa using hlength

end TaskWrappers.FileSystem
