import Mathlib.Data.List.Induction
import TaskWrappers.FileSystem.Basic
import TaskWrappers.Proofs.Except

/-!
# Trees without links

In a tree every entry stands in a directory, and here there are no links either. A path is then
followed without regard to links (`IsTree.find_eq`): of the places on its way it asks only whether
they are directories, so it leads to the same place wherever these still are (`locate_mono`), and
what is found is what stands there.
-/

namespace TaskWrappers

def Entry.isLink : Entry → Bool
  | .link _ => true
  | _ => false

namespace FileSystem

/-- A tree of directories and files around the working directory. -/
structure IsTree (fs : FileSystem) : Prop where
  home : fs.at? fs.home = some .directory
  inside : ∀ place name, fs.at? (place ++ [name]) ≠ none → fs.at? place = some .directory
  noLink : ∀ place target, fs.at? place ≠ some (.link target)

/-- Where steps lead from a directory if nothing on the way is a link. -/
def reach (fs : FileSystem) (place : Place) : List Path.Part → Except Fault Place
  | [] => .ok place
  | .root :: rest => fs.reach [] rest
  | .here :: rest => fs.reach place rest
  | .up :: rest => fs.reach place.dropLast rest
  | .name n :: rest =>
    if maxNameBytes < n.utf8ByteSize then .error .nameTooLong
    else if fs.at? (place ++ [n]) = some .directory then fs.reach (place ++ [n]) rest
    else if rest.isEmpty then .ok (place ++ [n])
    else if (fs.at? (place ++ [n])).isSome then .error .notDirectory
    else .error .notFound

/-- The place that a path leads to, free or not. -/
def locate (fs : FileSystem) (p : Path) : Except Fault Place :=
  if p.text.isEmpty then .error .notFound
  else if p.text.toList.contains '\x00' then .error .nulInName
  else if maxPathBytes ≤ p.text.utf8ByteSize then .error .nameTooLong
  else fs.reach fs.home (stepsOf p)

/-- What is to be found at a place. -/
def spot (fs : FileSystem) (place : Place) : Spot :=
  match fs.at? place with
  | some entry => .taken place entry
  | none => .free place

variable {fs fs' : FileSystem} {p : Path} {place q : Place}

theorem spot_of_some {entry : Entry} (h : fs.at? place = some entry) :
    fs.spot place = .taken place entry := by
  rw [spot, h]

theorem spot_of_none (h : fs.at? place = none) : fs.spot place = .free place := by
  rw [spot, h]

theorem mem_entries (hne : q ≠ []) {entry : Entry} (h : fs.at? q = some entry) :
    (q, entry) ∈ fs.entries := by
  rw [at?, if_neg (by simpa using hne)] at h
  obtain ⟨before, after, heq, -⟩ := List.lookup_eq_some_iff.1 h
  rw [heq]
  simp

/-- Whether a file system is a tree without links can be told from its entries. -/
theorem isTree_of_entries (hhome : fs.at? fs.home = some .directory)
    (hentries : ∀ x ∈ fs.entries, fs.at? x.1.dropLast = some .directory ∧ x.2.isLink = false) :
    fs.IsTree where
  home := hhome
  inside := by
    intro place name hne
    obtain ⟨entry, hentry⟩ := Option.ne_none_iff_exists'.1 hne
    have hdir := (hentries _ (mem_entries (by simp) hentry)).1
    rwa [List.dropLast_concat] at hdir
  noLink := by
    rintro place target hlink
    have hne : place ≠ [] := by
      rintro rfl
      cases hlink
    have hnot := (hentries _ (mem_entries hne hlink)).2
    cases hnot

namespace IsTree

variable (h : fs.IsTree)
include h

theorem dropLast (hplace : fs.at? place = some .directory) :
    fs.at? place.dropLast = some .directory := by
  rcases List.eq_nil_or_concat place with rfl | ⟨outer, name, rfl⟩
  · exact hplace
  · rw [List.concat_eq_append] at hplace ⊢
    rw [List.dropLast_concat]
    exact h.inside outer name (by rw [hplace]; nofun)

/-- What stands below something stands below a directory. -/
theorem above (hne : place ≠ q) (hq : fs.at? q ≠ none) :
    place <+: q → fs.at? place = some .directory := by
  rintro ⟨names, rfl⟩
  induction names using List.reverseRecOn with
  | nil => exact absurd (List.append_nil place).symm hne
  | append_singleton names name ih =>
    rw [← List.append_assoc] at hq
    have hinside := h.inside _ _ hq
    by_cases hnames : names = []
    · rwa [hnames, List.append_nil] at hinside
    · exact ih (by simpa using Ne.symm hnames) (by rw [hinside]; nofun)

theorem follow_eq (keepLast : Bool) (links : Nat) : ∀ (steps : List Path.Part) {place : Place},
    fs.at? place = some .directory →
      fs.follow keepLast links place steps = (fs.reach place steps).map fs.spot
  | [], place, hplace => by
    rw [follow, reach, Except.map, spot_of_some hplace]
  | .root :: rest, place, _ => by
    rw [follow, reach]
    exact follow_eq keepLast links rest rfl
  | .here :: rest, place, hplace => by
    rw [follow, reach]
    exact follow_eq keepLast links rest hplace
  | .up :: rest, place, hplace => by
    rw [follow, reach]
    exact follow_eq keepLast links rest (h.dropLast hplace)
  | .name n :: rest, place, _ => by
    rw [follow, reach]
    split
    · rfl
    · split
      · rename_i hnext
        rw [if_pos hnext]
        exact follow_eq keepLast links rest hnext
      · rename_i c hnext
        simp only [hnext, Option.some.injEq, reduceCtorEq, if_false, Option.isSome_some, if_true]
        split
        · exact congrArg Except.ok (spot_of_some hnext).symm
        · rfl
      · rename_i target hnext
        exact absurd hnext (h.noLink _ _)
      · rename_i hnext
        simp only [hnext, reduceCtorEq, if_false, Option.isSome_none, Bool.false_eq_true]
        split
        · exact congrArg Except.ok (spot_of_none hnext).symm
        · rfl

theorem find_eq (p : Path) (keepLast : Bool) : fs.find p keepLast = (fs.locate p).map fs.spot := by
  unfold find locate
  split
  · rfl
  · split
    · rfl
    · split
      · rfl
      · exact h.follow_eq keepLast linkLimit _ h.home

/-- Steps lead to a place in a directory. -/
theorem dropLast_reach : ∀ (steps : List Path.Part) {place : Place},
    fs.at? place = some .directory → fs.reach place steps = .ok q →
      fs.at? q.dropLast = some .directory
  | [], place, hplace, hq => by
    cases hq
    exact h.dropLast hplace
  | .root :: rest, place, _, hq => dropLast_reach rest rfl hq
  | .here :: rest, place, hplace, hq => dropLast_reach rest hplace hq
  | .up :: rest, place, hplace, hq => dropLast_reach rest (h.dropLast hplace) hq
  | .name n :: rest, place, hplace, hq => by
    rw [reach] at hq
    split at hq
    · cases hq
    · split at hq
      · exact dropLast_reach rest ‹_› hq
      · split at hq
        · cases hq
          rwa [List.dropLast_concat]
        · split at hq <;> cases hq

theorem dropLast_locate (hq : fs.locate p = .ok q) : fs.at? q.dropLast = some .directory := by
  unfold locate at hq
  split at hq
  · cases hq
  · split at hq
    · cases hq
    · split at hq
      · cases hq
      · exact h.dropLast_reach _ h.home hq

theorem find_eq_taken (keepLast : Bool) {entry : Entry} :
    fs.find p keepLast = .ok (.taken q entry) ↔ fs.locate p = .ok q ∧ fs.at? q = some entry := by
  rw [h.find_eq]
  constructor
  · intro hfind
    obtain ⟨place, hplace, hspot⟩ := Except.exists_of_map_eq_ok hfind
    unfold spot at hspot
    split at hspot
    · cases hspot
      exact ⟨hplace, ‹_›⟩
    · cases hspot
  · rintro ⟨hq, hentry⟩
    rw [hq, Except.map, spot_of_some hentry]

theorem find_eq_free (keepLast : Bool) :
    fs.find p keepLast = .ok (.free q) ↔ fs.locate p = .ok q ∧ fs.at? q = none := by
  rw [h.find_eq]
  constructor
  · intro hfind
    obtain ⟨place, hplace, hspot⟩ := Except.exists_of_map_eq_ok hfind
    unfold spot at hspot
    split at hspot
    · cases hspot
    · cases hspot
      exact ⟨hplace, ‹_›⟩
  · rintro ⟨hq, hentry⟩
    rw [hq, Except.map, spot_of_none hentry]

theorem directory?_eq_some :
    fs.directory? p = some q ↔ fs.locate p = .ok q ∧ fs.at? q = some .directory := by
  rw [← h.find_eq_taken false, directory?]
  constructor
  · intro hd
    split at hd
    · cases hd
      assumption
    · cases hd
  · intro hfind
    rw [hfind]

theorem directory?_eq_none (hq : fs.locate p = .ok q) (hnot : fs.at? q ≠ some .directory) :
    fs.directory? p = none := by
  rw [Option.eq_none_iff_forall_ne_some]
  intro place hplace
  obtain ⟨hlocate, hdir⟩ := h.directory?_eq_some.1 hplace
  cases hq.symm.trans hlocate
  exact hnot hdir

theorem isFile_iff : fs.isFile p = true ↔
    ∃ q content, fs.locate p = .ok q ∧ fs.at? q = some (.file content) := by
  unfold isFile entry?
  constructor
  · intro hfile
    split at hfile
    · rename_i content hentry
      split at hentry
      · cases hentry
        exact ⟨_, content, (h.find_eq_taken false).1 ‹_›⟩
      · cases hentry
    · cases hfile
  · rintro ⟨q, content, hq⟩
    rw [(h.find_eq_taken false).2 hq]

theorem entry?_eq_some {entry : Entry} :
    fs.entry? p = some entry ↔ ∃ q, fs.locate p = .ok q ∧ fs.at? q = some entry := by
  unfold entry?
  constructor
  · intro hentry
    split at hentry
    · cases hentry
      exact ⟨_, (h.find_eq_taken false).1 ‹_›⟩
    · cases hentry
  · rintro ⟨q, hq⟩
    rw [(h.find_eq_taken false).2 hq]

theorem entry?_of_readText {text : String} (hread : fs.readText p = .ok text) :
    fs.entry? p = some (.file (.text text)) := by
  obtain ⟨spot, hfind, hread⟩ := Except.exists_of_bind_eq_ok hread
  split at hread
  · cases hread
    exact h.entry?_eq_some.2 ⟨_, (h.find_eq_taken false).1 hfind⟩
  all_goals cases hread

theorem readText_of_text {text : String} (hq : fs.locate p = .ok q)
    (htext : fs.at? q = some (.file (.text text))) : fs.readText p = .ok text := by
  rw [readText, (h.find_eq_taken false).2 ⟨hq, htext⟩]
  rfl

theorem readText_congr (h' : fs'.IsTree) (hq : fs.locate p = .ok q) (hq' : fs'.locate p = .ok q)
    (hat : fs.at? q = fs'.at? q) : fs.readText p = fs'.readText p := by
  have hspot : fs.spot q = fs'.spot q := by rw [spot, spot, hat]
  rw [readText, readText, h.find_eq, h'.find_eq, hq, hq', Except.map, Except.map, hspot]

end IsTree

/-- A tree with all the directories of another one. -/
structure Keeps (fs fs' : FileSystem) : Prop where
  isTree : fs'.IsTree
  home : fs'.home = fs.home
  directory : ∀ q, fs.at? q = some .directory → fs'.at? q = some .directory

theorem Keeps.refl (h : fs.IsTree) : fs.Keeps fs := ⟨h, rfl, fun _ hq => hq⟩

theorem Keeps.trans {fs'' : FileSystem} (h : fs.Keeps fs') (h' : fs'.Keeps fs'') : fs.Keeps fs'' :=
  ⟨h'.isTree, h'.home.trans h.home, fun q hq => h'.directory q (h.directory q hq)⟩

/-- What stands where is all that makes a tree. -/
theorem IsTree.keeps_of_eq (h : fs.IsTree) (hhome : fs'.home = fs.home)
    (hat : ∀ q, fs'.at? q = fs.at? q) : fs.Keeps fs' := by
  refine ⟨⟨?_, fun outer name => ?_, fun q target => ?_⟩, hhome, fun q hq => ?_⟩
  · rw [hat, hhome, h.home]
  · rw [hat, hat]
    exact h.inside outer name
  · rw [hat]
    exact h.noLink q target
  · rw [hat, hq]

namespace Keeps

variable (h : fs.Keeps fs')
include h

theorem reach : ∀ (steps : List Path.Part) {place : Place},
    fs.reach place steps = .ok q → fs'.reach place steps = .ok q
  | [], _, hq => hq
  | .root :: rest, _, hq => reach rest hq
  | .here :: rest, _, hq => reach rest hq
  | .up :: rest, _, hq => reach rest hq
  | .name n :: rest, place, hq => by
    rw [FileSystem.reach] at hq ⊢
    split at hq
    · cases hq
    · rw [if_neg ‹_›]
      split at hq
      · rw [if_pos (h.directory _ ‹_›)]
        exact reach rest hq
      · split at hq
        · rename_i hlast
          rw [List.isEmpty_iff.1 hlast]
          cases hq
          split <;> rfl
        · split at hq <;> cases hq

/-- A path leads on to the same place as long as no directory is lost. -/
theorem locate (hq : fs.locate p = .ok q) : fs'.locate p = .ok q := by
  unfold FileSystem.locate at hq ⊢
  split at hq
  · cases hq
  · rw [if_neg ‹_›]
    split at hq
    · cases hq
    · rw [if_neg ‹_›]
      split at hq
      · cases hq
      · rw [if_neg ‹_›, h.home]
        exact h.reach _ hq

theorem directory? (hfs : fs.IsTree) (hq : fs.directory? p = some q) :
    fs'.directory? p = some q := by
  obtain ⟨hlocate, hdir⟩ := hfs.directory?_eq_some.1 hq
  exact h.isTree.directory?_eq_some.2 ⟨h.locate hlocate, h.directory q hdir⟩

end Keeps

end FileSystem

end TaskWrappers
