import Mathlib.Data.List.Sort
import TaskWrappers.Proofs.FileSystem.Below
import TaskWrappers.SourceTree

/-!
# What a walk finds

In a tree without links a walk finds what it lists by the names on the way (`walk_eq`): everything
that is no directory, within its depth and below directories none of which is left out
(`mem_listed`), in the order of the names (`pairwise_listed`).
-/

namespace TaskWrappers.SourceTree

open FileSystem

variable {fs : FileSystem} {skip : List Path} {dir : Path} {place : Place} {name : String}
  {names : List String} {depth : Nat}

/-- The ways down that open with a name, given whether it names a directory, whether that is left
out, and the ways further down. -/
def waysBy (name : String) (isDirectory isLeftOut : Bool) (further : List (List String)) :
    List (List String) :=
  if isDirectory then if isLeftOut then [] else further.map (name :: ·) else [[name]]

theorem exists_of_mem_waysBy {isDirectory isLeftOut : Bool} {further : List (List String)}
    (h : names ∈ waysBy name isDirectory isLeftOut further) : ∃ rest, names = name :: rest := by
  unfold waysBy at h
  split at h
  · split at h
    · cases h
    · obtain ⟨rest, -, rfl⟩ := List.mem_map.1 h
      exact ⟨rest, rfl⟩
  · exact ⟨[], List.mem_singleton.1 h⟩

/-- The ways down from a directory to all that a walk finds below it. -/
def listed (fs : FileSystem) (skip : List Path) : Nat → Path → Place → List (List String)
  | 0, _, _ => []
  | depth + 1, dir, place =>
    (fs.names place).flatMap fun name =>
      waysBy name (fs.at? (place ++ [name]) = some .directory)
        (isSkipped skip name (dir.join ⟨name⟩))
        (listed fs skip depth (dir.join ⟨name⟩) (place ++ [name]))

/-- Whether no directory on the way is left out. -/
def IsOpen (skip : List Path) (dir : Path) (names : List String) : Prop :=
  ∀ outer name, outer ++ [name] <+: names → outer ++ [name] ≠ names →
    isSkipped skip name (dir.below (outer ++ [name])) = false

theorem isOpen_singleton : IsOpen skip dir [name] := by
  intro outer last hlead hne
  have hlength := hlead.length_le
  rcases outer with _ | ⟨first, outer⟩
  · exact absurd (hlead.eq_of_length rfl) hne
  · simp at hlength

theorem isOpen_cons (hne : names ≠ []) : IsOpen skip dir (name :: names) ↔
    isSkipped skip name (dir.join ⟨name⟩) = false ∧ IsOpen skip (dir.join ⟨name⟩) names := by
  constructor
  · intro h
    refine ⟨h [] name ⟨names, rfl⟩ (by simpa using hne.symm), fun outer last hlead hproper => ?_⟩
    refine h (name :: outer) last ?_ ?_
    · rwa [List.cons_append, List.prefix_cons_inj]
    · simpa using hproper
  · rintro ⟨hfirst, hrest⟩ outer last hlead hproper
    rcases outer with _ | ⟨first, outer⟩
    · rw [List.nil_append, List.prefix_cons_iff] at hlead
      obtain hnil | ⟨t, ht, -⟩ := hlead
      · cases hnil
      · cases ht
        exact hfirst
    · rw [List.cons_append, List.cons_prefix_cons] at hlead
      obtain ⟨rfl, hlead⟩ := hlead
      exact hrest outer last hlead fun heq => hproper (by rw [List.cons_append, heq])

/-- A walk lists every way down to something that is no directory, within its depth, as long as no
directory on the way is left out. -/
theorem mem_listed (htree : fs.IsTree) : ∀ (depth : Nat) (dir : Path) (place : Place)
    (names : List String), names ∈ listed fs skip depth dir place ↔
      names ≠ [] ∧ names.length ≤ depth ∧ fs.at? (place ++ names) ≠ none ∧
        fs.at? (place ++ names) ≠ some .directory ∧ IsOpen skip dir names
  | 0, dir, place, names => by
    refine ⟨nofun, ?_⟩
    rintro ⟨hne, hlength, -⟩
    exact absurd (List.eq_nil_of_length_eq_zero (Nat.le_zero.1 hlength)) hne
  | depth + 1, dir, place, names => by
    have ih := fun name => mem_listed htree depth (dir.join ⟨name⟩) (place ++ [name])
    rw [listed, List.mem_flatMap]
    constructor
    · rintro ⟨name, hname, hmem⟩
      unfold waysBy at hmem
      split at hmem
      · split at hmem
        · cases hmem
        · obtain ⟨rest, hrest, rfl⟩ := List.mem_map.1 hmem
          obtain ⟨hne, hlength, hat, hnot, hopen⟩ := (ih name rest).1 hrest
          rw [← List.append_cons] at hat hnot
          refine ⟨by simp, by simpa using hlength, hat, hnot, (isOpen_cons hne).2 ⟨?_, hopen⟩⟩
          exact Bool.eq_false_iff.2 ‹_›
      · rename_i hnot
        rw [List.mem_singleton] at hmem
        subst hmem
        exact ⟨by simp, by simp, mem_names.1 hname, by simpa using hnot, isOpen_singleton⟩
    · rintro ⟨hne, hlength, hat, hnot, hopen⟩
      obtain ⟨name, rest, rfl⟩ := List.exists_cons_of_ne_nil hne
      by_cases hrest : rest = []
      · subst hrest
        exact ⟨name, mem_names.2 hat, by simp [waysBy, hnot]⟩
      · rw [List.append_cons] at hat hnot
        have hdir : fs.at? (place ++ [name]) = some .directory :=
          htree.above (by simpa using hrest) hat (List.prefix_append _ _)
        obtain ⟨hfirst, hopen⟩ := (isOpen_cons hrest).1 hopen
        refine ⟨name, mem_names.2 (by rw [hdir]; nofun), ?_⟩
        rw [waysBy, if_pos (by simpa using hdir), hfirst, if_neg Bool.false_ne_true]
        have hmem := (ih name rest).2 ⟨hrest, by simpa using hlength, hat, hnot, hopen⟩
        exact List.mem_map_of_mem hmem

theorem pairwise_listed (htable : fs.IsTable) : ∀ {depth : Nat} {dir : Path} {place : Place},
    (listed fs skip depth dir place).Pairwise (· < ·)
  | 0, _, _ => .nil
  | depth + 1, dir, place => by
    rw [listed, List.pairwise_flatMap]
    refine ⟨fun name _ => ?_, (htable.pairwise_names place).imp fun {a b} hab x hx y hy => ?_⟩
    · unfold waysBy
      split
      · split
        · exact .nil
        · exact (pairwise_listed htable).map _ fun a b hab =>
            List.cons_lt_cons_iff.2 (.inr ⟨rfl, hab⟩)
      · exact List.pairwise_singleton _ _
    · obtain ⟨_, rfl⟩ := exists_of_mem_waysBy hx
      obtain ⟨_, rfl⟩ := exists_of_mem_waysBy hy
      exact List.cons_lt_cons_iff.2 (.inl hab)

/-- What stands at the end of a way down. -/
def found (fs : FileSystem) (dir : Path) (place : Place) (names : List String) : Found :=
  ⟨dir.below names, place ++ names, (fs.at? (place ++ names)).getD .directory⟩

theorem enter?_eq (htree : fs.IsTree) (htable : fs.IsTable) {dir : Found} {trail : List Place}
    (hdir : fs.at? dir.place = some .directory) {entry : Entry}
    (hat : fs.at? (dir.place ++ [name]) = some entry) :
    enter? fs trail dir name = some ⟨dir.path.join ⟨name⟩, dir.place ++ [name], entry⟩ := by
  have hshort : ∀ n ∈ [name], IsEntryName n := fun n hn =>
    htable.isEntryName (by rw [hat]; nofun) (List.mem_append_right dir.place hn)
  have hfollow : fs.follow false linkLimit dir.place [.name name]
      = .ok (.taken (dir.place ++ [name]) entry) := by
    have hreach := htree.reach_names hshort (by rw [hat]; nofun)
    rw [htree.follow_eq _ _ _ hdir]
    exact (congrArg _ hreach).trans (congrArg Except.ok (spot_of_some hat))
  rw [enter?, hfollow]
  simp

theorem walk_eq (htree : fs.IsTree) (htable : fs.IsTable) : ∀ {depth : Nat} {trail : List Place}
    {dir : Found}, fs.at? dir.place = some .directory →
      walk fs skip depth trail dir
        = (listed fs skip depth dir.path dir.place).map (found fs dir.path dir.place)
  | 0, _, _, _ => rfl
  | depth + 1, trail, dir, hdir => by
    rw [walk, listed, List.map_flatMap]
    refine List.flatMap_congr fun name hname => ?_
    obtain ⟨entry, hentry⟩ := Option.ne_none_iff_exists'.1 (mem_names.1 hname)
    rw [enter?_eq htree htable hdir hentry]
    dsimp only
    unfold waysBy
    by_cases hisDir : entry = .directory
    · subst hisDir
      have hdown : decide (fs.at? (dir.place ++ [name]) = some .directory) = true := by
        simpa using hentry
      rw [if_pos rfl, hdown, if_pos rfl]
      split
      · rfl
      · rw [walk_eq htree htable hentry, List.map_map]
        refine List.map_congr_left fun rest _ => ?_
        rw [Function.comp_apply, found, found, Path.below_cons,
          List.append_cons dir.place name rest]
    · rw [if_neg hisDir, if_neg (by simpa [hentry] using hisDir)]
      simp [found, hentry, Path.below]

end TaskWrappers.SourceTree
