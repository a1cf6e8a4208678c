import TaskWrappers.Proofs.FileSystem.Below

/-!
# Changes keep a table one

A path is split at separators, follows names that are short enough and holds no character that names
cannot have, so it leads only to places with names that directories can hold
(`isEntryName_of_locate`). What is put there makes one more row in the table, so a table stays one
through all changes that a pass makes.
-/

namespace TaskWrappers.FileSystem

variable {fs fs' : FileSystem} {p : Path} {place q : Place} {content : Content}

theorem isEntryName_of_reach : ∀ (steps : List Path.Part) {place : Place},
    (∀ name ∈ place, IsEntryName name) →
      (∀ name, .name name ∈ steps → Path.IsName name ∧ '\x00' ∉ name.toList) →
        fs.reach place steps = .ok q → ∀ name ∈ q, IsEntryName name
  | [], _, hplace, _, h => Except.ok.inj h ▸ hplace
  | .root :: rest, _, _, hsteps, h =>
    isEntryName_of_reach rest (List.forall_mem_nil _) (fun n hn => hsteps n (.tail _ hn)) h
  | .here :: rest, _, hplace, hsteps, h =>
    isEntryName_of_reach rest hplace (fun n hn => hsteps n (.tail _ hn)) h
  | .up :: rest, _, hplace, hsteps, h =>
    isEntryName_of_reach rest (fun n hn => hplace n (List.dropLast_subset _ hn))
      (fun n hn => hsteps n (.tail _ hn)) h
  | .name n :: rest, place, hplace, hsteps, h => by
    rw [reach] at h
    split at h
    · cases h
    · rename_i hshort
      obtain ⟨hname, hnul⟩ := hsteps n (.head _)
      have hnext : ∀ name ∈ place ++ [n], IsEntryName name := by
        intro name hmem
        rcases List.mem_append.1 hmem with hmem | hmem
        · exact hplace name hmem
        · rw [List.mem_singleton.1 hmem]
          exact ⟨hname, hnul, Nat.le_of_not_lt hshort⟩
      split at h
      · exact isEntryName_of_reach rest hnext (fun n hn => hsteps n (.tail _ hn)) h
      · split at h
        · cases h
          exact hnext
        · split at h <;> cases h

section Sound

variable (htree : fs.IsTree) (htable : fs.IsTable)
include htree htable

theorem isEntryName_of_locate (hq : fs.locate p = .ok q) : ∀ name ∈ q, IsEntryName name := by
  obtain ⟨⟨-, hnul, -⟩, -⟩ := locate_eq_ok.1 hq
  refine isEntryName_of_reach p.steps
    (fun name hname => htable.isEntryName (by rw [htree.home]; nofun) hname)
    (fun name hname => ?_) (reach_steps hq)
  have hpart : .name name ∈ p.parts := (List.mem_filter.1 hname).1
  exact ⟨Path.isName_of_mem_parts hpart, fun hmem => hnul (Path.subset_of_mem_parts hpart hmem)⟩

theorem isTable_makeDirectory (h : fs.makeDirectory p = .ok fs') : fs'.IsTable := by
  obtain ⟨spot, hfind, h⟩ := Except.exists_of_bind_eq_ok h
  split at h
  · cases h
  · rename_i place
    obtain ⟨hlocate, -⟩ := (htree.find_eq_free true).1 hfind
    cases h
    exact htable.put (isEntryName_of_locate htree htable hlocate)

theorem isTable_ensure (p : Path) : (makeDirectories.ensure fs p).1.IsTable := by
  unfold makeDirectories.ensure
  split
  · exact isTable_makeDirectory htree htable ‹_›
  · exact htable

theorem isTable_go : ∀ (paths : List Path), (makeDirectories.go fs paths).1.IsTable
  | [] => htable
  | p :: outer => by
    have houter := isTable_go outer
    have hextends := htree.extends_go outer
    rw [makeDirectories.go]
    split
    · exact isTable_makeDirectory htree htable ‹_›
    · split
      · rename_i hgo
        rwa [hgo] at houter
      · rename_i hgo
        rw [hgo] at houter hextends
        exact isTable_ensure hextends.isTree houter p
    · exact htable

theorem isTable_makeDirectories (p : Path) : (fs.makeDirectories p).1.IsTable :=
  isTable_go htree htable (ancestry p)

theorem isTable_write (h : fs.write p content = .ok fs') : fs'.IsTable := by
  obtain ⟨spot, hfind, h⟩ := Except.exists_of_bind_eq_ok h
  split at h
  · cases h
  · obtain ⟨hlocate, -⟩ := (htree.find_eq_taken false).1 hfind
    cases h
    exact htable.put (isEntryName_of_locate htree htable hlocate)
  · obtain ⟨hlocate, -⟩ := (htree.find_eq_free false).1 hfind
    cases h
    exact htable.put (isEntryName_of_locate htree htable hlocate)

omit htree in
theorem isTable_removeFile (h : fs.removeFile p = .ok fs') : fs'.IsTable := by
  obtain ⟨spot, -, h⟩ := Except.exists_of_bind_eq_ok h
  split at h
  · cases h
  · cases h
    exact htable.clear _
  · cases h

end Sound

end TaskWrappers.FileSystem
