import TaskWrappers.Proofs.FileSystem.Table

/-!
# Paths below a directory

A path that leads to a directory leads on below it by the names that stand there, whatever the path
itself looks like, as long as the system takes the longer text (`locate_below`). So what a walk
finds below a directory is a file under the path it was found by exactly if it is one where it
stands (`isFile_below`).
-/

namespace TaskWrappers.FileSystem

/-- Whether a text can be a path at all. -/
def IsPathText (text : String) : Prop :=
  text ≠ "" ∧ '\x00' ∉ text.toList ∧ text.utf8ByteSize < maxPathBytes

variable {fs : FileSystem} {p dir base : Path} {place q : Place} {name : String}
  {names : List String}

theorem locate_eq_ok :
    fs.locate p = .ok q ↔ IsPathText p.text ∧ fs.reach fs.home (stepsOf p) = .ok q := by
  unfold locate IsPathText
  split
  · rename_i hempty
    simp_all
  · split
    · rename_i hnul
      simp_all
    · split
      · rename_i hlong
        simp_all
      · simp_all

theorem stepsOf_cases (p : Path) : stepsOf p = p.steps ∨ stepsOf p = p.steps ++ [.here] := by
  unfold stepsOf
  split
  · exact .inr rfl
  · exact .inr rfl
  · exact .inl rfl

theorem stepsOf_of_ends (h : ∀ s ∈ (Path.segments p.text.toList).getLast?, Path.part? s ≠ none) :
    stepsOf p = p.steps := by
  unfold stepsOf
  split
  · rename_i hlast
    exact absurd rfl (h _ hlast)
  · rename_i hlast
    exact absurd rfl (h _ hlast)
  · rfl

theorem stepsOf_join (hbase : base.text ≠ "") (hname : Path.IsName name) :
    stepsOf (base.join ⟨name⟩) = base.steps ++ [.name name] := by
  obtain ⟨cs, -, hjoin⟩ := Path.toList_join hbase hname
  rw [stepsOf_of_ends, Path.steps_join hbase hname]
  intro s hs
  rw [hjoin, Path.segments_append, Path.segments_of_isName hname, List.getLast?_concat] at hs
  cases hs
  rw [Path.part?_of_isName hname]
  nofun

/-- Steps that lead to a directory can be gone on from there. -/
theorem reach_append (hq : fs.at? q = some .directory) (rest : List Path.Part) :
    ∀ (steps : List Path.Part) {place : Place}, fs.reach place steps = .ok q →
      fs.reach place (steps ++ rest) = fs.reach q rest
  | [], _, h => by
    cases h
    rfl
  | .root :: steps, _, h => reach_append hq rest steps h
  | .here :: steps, _, h => reach_append hq rest steps h
  | .up :: steps, _, h => reach_append hq rest steps h
  | .name n :: steps, place, h => by
    rw [List.cons_append, reach]
    rw [reach] at h
    split at h
    · cases h
    · rw [if_neg ‹_›]
      split at h
      · rw [if_pos ‹_›]
        exact reach_append hq rest steps h
      · rename_i hnot
        split at h
        · cases h
          exact absurd hq hnot
        · split at h <;> cases h

theorem reach_of_append_here : ∀ (steps : List Path.Part) {place : Place},
    fs.reach place (steps ++ [.here]) = .ok q → fs.reach place steps = .ok q
  | [], _, h => h
  | .root :: steps, _, h => reach_of_append_here steps h
  | .here :: steps, _, h => reach_of_append_here steps h
  | .up :: steps, _, h => reach_of_append_here steps h
  | .name n :: steps, place, h => by
    rw [List.cons_append, reach] at h
    rw [reach]
    split at h
    · cases h
    · rw [if_neg ‹_›]
      split at h
      · rw [if_pos ‹_›]
        exact reach_of_append_here steps h
      · rw [if_neg (by simp)] at h
        split at h <;> cases h

/-- Where a path leads, it leads without regard to a separator or a dot at its end. -/
theorem reach_steps (h : fs.locate p = .ok q) : fs.reach fs.home p.steps = .ok q := by
  obtain ⟨-, h⟩ := locate_eq_ok.1 h
  rcases stepsOf_cases p with heq | heq <;> rw [heq] at h
  · exact h
  · exact reach_of_append_here _ h

namespace IsTree

variable (h : fs.IsTree)
include h

/-- Names that stand below a directory lead to where they stand. -/
theorem reach_names : ∀ {names : List String} {place : Place},
    (∀ name ∈ names, IsEntryName name) → fs.at? (place ++ names) ≠ none →
      fs.reach place (names.map .name) = .ok (place ++ names)
  | [], _, _, _ => by
    rw [List.append_nil]
    rfl
  | name :: names, place, hnames, hat => by
    have hshort : ¬ maxNameBytes < name.utf8ByteSize :=
      Nat.not_lt.2 (hnames name List.mem_cons_self).2.2
    rw [List.map_cons, reach, if_neg hshort]
    by_cases hlast : names = []
    · subst hlast
      split
      · rfl
      · rfl
    · have hbelow : place ++ name :: names = place ++ [name] ++ names := List.append_cons ..
      rw [hbelow] at hat ⊢
      have hdir : fs.at? (place ++ [name]) = some .directory :=
        h.above (by simpa using hlast) hat (List.prefix_append _ _)
      rw [if_pos hdir]
      exact reach_names (fun n hn => hnames n (List.mem_cons_of_mem name hn)) hat

end IsTree

section Found

variable (htree : fs.IsTree) (htable : fs.IsTable) (hdir : fs.directory? dir = some place)
  (hat : fs.at? (place ++ names) ≠ none)
include htree htable hdir hat

omit htree hdir in
theorem isEntryName_below : ∀ name ∈ names, IsEntryName name := fun _ hname =>
  htable.isEntryName hat (List.mem_append_right place hname)

theorem stepsOf_below (hne : names ≠ []) :
    stepsOf (dir.below names) = dir.steps ++ names.map .name := by
  obtain ⟨htext, -⟩ := locate_eq_ok.1 (htree.directory?_eq_some.1 hdir).1
  have hnames : ∀ name ∈ names, Path.IsName name := fun name hname =>
    (isEntryName_below htable hat name hname).1
  obtain ⟨init, last, rfl⟩ := (List.eq_nil_or_concat' names).resolve_left hne
  have hinit := fun name hname => hnames name (List.mem_append_left [last] hname)
  rw [Path.below_concat, stepsOf_join (Path.below_spec htext.1 hinit).1 (hnames last (by simp)),
    Path.steps_below htext.1 hinit, List.map_append, List.append_assoc]
  rfl

/-- What lies below a directory is found by the directory's path and the names on the way. -/
theorem locate_below (hne : names ≠ [])
    (hlength : (dir.below names).text.utf8ByteSize < maxPathBytes) :
    fs.locate (dir.below names) = .ok (place ++ names) := by
  obtain ⟨hlocate, hplace⟩ := htree.directory?_eq_some.1 hdir
  obtain ⟨htext, -⟩ := locate_eq_ok.1 hlocate
  have hentry := isEntryName_below htable hat
  have hnames : ∀ name ∈ names, Path.IsName name := fun name hname => (hentry name hname).1
  refine locate_eq_ok.2 ⟨⟨(Path.below_spec htext.1 hnames).1, fun hnul => ?_, hlength⟩, ?_⟩
  · rcases Path.mem_toList_below htext.1 hnames hnul with hnul | hnul | ⟨name, hname, hnul⟩
    · exact htext.2.1 hnul
    · cases hnul
    · exact (hentry name hname).2.1 hnul
  · rw [stepsOf_below htree htable hdir hat hne, reach_append hplace _ _ (reach_steps hlocate)]
    exact htree.reach_names hentry hat

theorem isFile_below (hne : names ≠ []) : fs.isFile (dir.below names) = true ↔
    (dir.below names).text.utf8ByteSize < maxPathBytes ∧
      ∃ content, fs.at? (place ++ names) = some (.file content) := by
  rw [htree.isFile_iff]
  constructor
  · rintro ⟨q, content, hq, hcontent⟩
    have hlength := (locate_eq_ok.1 hq).1.2.2
    rw [locate_below htree htable hdir hat hne hlength] at hq
    cases hq
    exact ⟨hlength, content, hcontent⟩
  · rintro ⟨hlength, content, hcontent⟩
    exact ⟨_, content, locate_below htree htable hdir hat hne hlength, hcontent⟩

end Found

theorem length_of_readText {text : String} (htree : fs.IsTree) (h : fs.readText p = .ok text) :
    p.text.utf8ByteSize < maxPathBytes := by
  obtain ⟨spot, hfind, -⟩ := Except.exists_of_bind_eq_ok h
  rw [htree.find_eq] at hfind
  obtain ⟨q, hlocate, -⟩ := Except.exists_of_map_eq_ok hfind
  exact (locate_eq_ok.1 hlocate).1.2.2

end TaskWrappers.FileSystem
