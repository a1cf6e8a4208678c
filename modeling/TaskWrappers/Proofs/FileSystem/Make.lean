import TaskWrappers.Proofs.FileSystem.Way
import TaskWrappers.Proofs.Path.Parent

/-!
# Making directories on a clear way

A way is clear if no name on it is too long and no file is met (`IsClear`). Along a clear way all
directories can be made, however many of them are missing (`makeDirectories_of_isClear`): where one
cannot be made right away the one above it is missing, and that comes first. So a file can be
written wherever another tree has one, if the way to it is clear (`exists_write`).
-/

namespace TaskWrappers.FileSystem

variable {fs fs' ref : FileSystem} {p r : Path} {place q : Place}
  {steps more : List Path.Part} {last : Path.Part}

/-! ## Steps taken one after the other -/

/-- Steps that go on lead over a directory. -/
theorem IsTree.exists_reach_of_append (h : fs.IsTree) (hmore : more ≠ []) :
    ∀ (steps : List Path.Part) {place : Place}, fs.at? place = some .directory →
      fs.reach place (steps ++ more) = .ok q →
        ∃ d, fs.reach place steps = .ok d ∧ fs.at? d = some .directory ∧ fs.reach d more = .ok q
  | [], place, hplace, hq => ⟨place, rfl, hplace, hq⟩
  | .root :: steps, _, _, hq =>
    h.exists_reach_of_append hmore steps (rfl : fs.at? [] = some .directory) hq
  | .here :: steps, _, hplace, hq => h.exists_reach_of_append hmore steps hplace hq
  | .up :: steps, _, hplace, hq => h.exists_reach_of_append hmore steps (h.dropLast hplace) hq
  | .name n :: steps, place, _, hq => by
    rw [List.cons_append, reach] at hq
    rw [reach]
    split at hq
    · cases hq
    · rw [if_neg ‹_›]
      split at hq
      · rw [if_pos ‹_›]
        exact h.exists_reach_of_append hmore steps ‹_› hq
      · rw [if_neg (by simp [hmore])] at hq
        split at hq <;> cases hq

/-- A path to something that is no directory does not insist on one. -/
theorem IsTree.stepsOf_of_locate (h : fs.IsTree) (hq : fs.locate p = .ok q)
    (hnot : fs.at? q ≠ some .directory) : stepsOf p = p.steps := by
  rcases stepsOf_cases p with heq | heq
  · exact heq
  · obtain ⟨-, hreach⟩ := locate_eq_ok.1 hq
    rw [heq] at hreach
    obtain ⟨d, -, hdir, hd⟩ := h.exists_reach_of_append (by simp) _ h.home hreach
    cases hd
    exact absurd hdir hnot

/-- The last step to something that is no directory is its name. -/
theorem IsTree.exists_name_of_reach (h : fs.IsTree) (hplace : fs.at? place = some .directory)
    (hq : fs.reach place [last] = .ok q) (hnot : fs.at? q ≠ some .directory) :
    ∃ n, last = .name n ∧ n.utf8ByteSize ≤ maxNameBytes ∧ q = place ++ [n] := by
  cases last with
  | root =>
    cases hq
    exact absurd rfl hnot
  | here =>
    cases hq
    exact absurd hplace hnot
  | up =>
    cases hq
    exact absurd (h.dropLast hplace) hnot
  | name n =>
    rw [reach] at hq
    split at hq
    · cases hq
    · refine ⟨n, rfl, Nat.le_of_not_lt ‹_›, ?_⟩
      split at hq <;> exact (Except.ok.inj hq).symm

/-! ## Clear ways -/

/-- Whether no name on the way is too long and the way meets no file. -/
def IsClear (fs : FileSystem) (place : Place) : List Path.Part → Prop
  | [] => True
  | .root :: rest => IsClear fs [] rest
  | .here :: rest => IsClear fs place rest
  | .up :: rest => IsClear fs place.dropLast rest
  | .name n :: rest => n.utf8ByteSize ≤ maxNameBytes ∧
      (∀ content, fs.at? (place ++ [n]) ≠ some (.file content)) ∧ IsClear fs (place ++ [n]) rest

theorem isClear_append : ∀ (steps : List Path.Part) {place : Place},
    fs.IsClear place (steps ++ more) ↔ fs.IsClear place steps ∧ fs.IsClear (aim place steps) more
  | [], _ => ⟨fun h => ⟨trivial, h⟩, And.right⟩
  | .root :: steps, _ => isClear_append steps
  | .here :: steps, _ => isClear_append steps
  | .up :: steps, _ => isClear_append steps
  | .name n :: steps, place => by
    rw [List.cons_append, IsClear, IsClear, aim, isClear_append steps, and_assoc, and_assoc]

theorem IsClear.mono (hfile : ∀ q content, fs'.at? q = some (.file content) →
    fs.at? q = some (.file content)) : ∀ (steps : List Path.Part) (place : Place),
      fs.IsClear place steps → fs'.IsClear place steps
  | [], _, _ => trivial
  | .root :: steps, _, h => mono hfile steps [] h
  | .here :: steps, place, h => mono hfile steps place h
  | .up :: steps, place, h => mono hfile steps place.dropLast h
  | .name n :: steps, place, ⟨hshort, hno, h⟩ =>
    ⟨hshort, fun content hat => hno content (hfile _ content hat),
      mono hfile steps (place ++ [n]) h⟩

/-- A way over directories of one tree is clear in another that has no file in their places. -/
theorem isClear_of_reach (hfile : ∀ q content, fs'.at? q = some (.file content) →
    fs.at? q ≠ some .directory) (hq : fs.at? q = some .directory) :
    ∀ (steps : List Path.Part) {place : Place}, fs.reach place steps = .ok q →
      fs'.IsClear place steps
  | [], _, _ => trivial
  | .root :: steps, _, h => isClear_of_reach hfile hq steps h
  | .here :: steps, _, h => isClear_of_reach hfile hq steps h
  | .up :: steps, _, h => isClear_of_reach hfile hq steps h
  | .name n :: steps, place, h => by
    rw [reach] at h
    split at h
    · cases h
    · split at h
      · exact ⟨Nat.le_of_not_lt ‹_›, fun content hat => hfile _ content hat ‹_›,
          isClear_of_reach hfile hq steps h⟩
      · split at h
        · cases h
          exact absurd hq ‹_›
        · split at h <;> cases h

namespace IsTree

variable (h : fs.IsTree)
include h

/-- All that can go wrong on a clear way is that a directory is missing. -/
theorem reach_of_isClear : ∀ (steps : List Path.Part) {place : Place},
    fs.at? place = some .directory → fs.IsClear place steps →
      fs.reach place steps = .error .notFound ∨
        ∃ q, fs.reach place steps = .ok q ∧ ∀ content, fs.at? q ≠ some (.file content)
  | [], place, hplace, _ => .inr ⟨place, rfl, fun content => by rw [hplace]; nofun⟩
  | .root :: steps, _, _, hclear =>
    reach_of_isClear steps (rfl : fs.at? [] = some .directory) hclear
  | .here :: steps, _, hplace, hclear => reach_of_isClear steps hplace hclear
  | .up :: steps, _, hplace, hclear => reach_of_isClear steps (h.dropLast hplace) hclear
  | .name n :: steps, place, _, ⟨hshort, hno, hclear⟩ => by
    rw [reach, if_neg (Nat.not_lt.2 hshort)]
    split
    · exact reach_of_isClear steps ‹_› hclear
    · split
      · exact .inr ⟨_, rfl, hno⟩
      · refine .inl ?_
        split
        · rename_i hnot _ hsome
          obtain ⟨entry, hentry⟩ := Option.isSome_iff_exists.1 hsome
          cases entry with
          | file content => exact absurd hentry (hno content)
          | directory => exact absurd hentry hnot
          | link target => exact absurd hentry (h.noLink _ target)
        · rfl

/-- A clear step from a directory leads somewhere, and to no file. -/
theorem reach_singleton_of_isClear (hplace : fs.at? place = some .directory)
    (hclear : fs.IsClear place [last]) :
    ∃ q, fs.reach place [last] = .ok q ∧ ∀ content, fs.at? q ≠ some (.file content) := by
  rcases h.reach_of_isClear [last] hplace hclear with hnone | hsome
  · cases last with
    | root => cases hnone
    | here => cases hnone
    | up => cases hnone
    | name n =>
      rw [reach, if_neg (Nat.not_lt.2 hclear.1)] at hnone
      split at hnone <;> cases hnone
  · exact hsome

end IsTree

/-! ## Making directories -/

/-- A path that a directory can be made by: if its steps lead anywhere but to where it starts, it
does not insist on the directory being there. -/
structure IsPlain (p : Path) : Prop where
  text : IsPathText p.text
  steps : p.steps = [] ∨ p.steps = [.root] ∨ stepsOf p = p.steps

theorem IsPlain.locate_eq (h : IsPlain p) : fs.locate p = fs.reach fs.home p.steps := by
  have hreach : fs.reach fs.home (stepsOf p) = fs.reach fs.home p.steps := by
    rcases h.steps with heq | heq | heq
    · rcases stepsOf_cases p with hcase | hcase <;> rw [hcase, heq]
      rfl
    · rcases stepsOf_cases p with hcase | hcase <;> rw [hcase, heq]
      rfl
    · rw [heq]
  obtain ⟨hne, hnul, hlength⟩ := h.text
  rw [locate, if_neg (by simpa using hne), if_neg (by simpa using hnul),
    if_neg (Nat.not_le.2 hlength), hreach]

theorem isPlain_of_parent? (hp : IsPathText p.text) (h : p.parent? = some r) (hne : r.text ≠ "") :
    IsPlain r := by
  obtain ⟨-, ⟨more, hmore⟩, hsteps⟩ := Path.parent?_spec h
  have htext : p.text = r.text ++ .ofList more := by
    rw [← String.toList_inj, String.toList_append, String.toList_ofList, hmore]
  refine ⟨⟨hne, fun hnul => hp.2.1 ?_, ?_⟩, ?_⟩
  · rw [← hmore]
    exact List.mem_append_left more hnul
  · refine Nat.lt_of_le_of_lt ?_ hp.2.2
    rw [htext, String.utf8ByteSize_append]
    omega
  · rcases hsteps with hnone | hroot | hends
    · exact .inl hnone
    · exact .inr (.inl hroot)
    · exact .inr (.inr (stepsOf_of_ends hends))

theorem length_parent? (h : p.parent? = some r) : r.text.length < p.text.length := by
  obtain ⟨⟨last, hlast⟩, hlead, -⟩ := Path.parent?_spec h
  rw [← String.length_toList, ← String.length_toList]
  refine Nat.lt_of_le_of_ne hlead.length_le fun hlength => ?_
  rw [Path.parts_eq, Path.parts_eq, hlead.eq_of_length hlength] at hlast
  simp at hlast

theorem steps_prefix_of_mem_go : ∀ (n : Nat) {p : Path}, r ∈ ancestry.go n p → r.steps <+: p.steps
  | 0, p, h => by cases h
  | n + 1, p, h => by
    rw [ancestry.go] at h
    split at h
    · cases h
    · rcases List.mem_cons.1 h with rfl | h
      · exact List.prefix_refl _
      · cases hparent : p.parent? with
        | none =>
          rw [hparent] at h
          cases h
        | some outer =>
          rw [hparent] at h
          obtain ⟨⟨last, hlast⟩, -⟩ := Path.parent?_spec hparent
          have hlead : outer.parts <+: p.parts := hlast ▸ List.prefix_append _ _
          exact (steps_prefix_of_mem_go n h).trans (hlead.filter _)

/-- The directories above a path are reached by steps that open its own. -/
theorem steps_prefix_of_mem_ancestry (h : r ∈ ancestry p) : r.steps <+: p.steps :=
  steps_prefix_of_mem_go _ h

namespace IsTree

variable (h : fs.IsTree)
include h

theorem makeDirectory_of_free (hq : fs.locate p = .ok q) (hat : fs.at? q = none) :
    fs.makeDirectory p = .ok (fs.put q .directory) := by
  rw [makeDirectory, (h.find_eq_free true).2 ⟨hq, hat⟩]
  rfl

theorem makeDirectory_of_taken {entry : Entry} (hq : fs.locate p = .ok q)
    (hat : fs.at? q = some entry) : fs.makeDirectory p = .error .alreadyExists := by
  rw [makeDirectory, (h.find_eq_taken true).2 ⟨hq, hat⟩]
  rfl

theorem makeDirectory_of_notFound (hq : fs.locate p = .error .notFound) :
    fs.makeDirectory p = .error .notFound := by
  rw [makeDirectory, h.find_eq, hq]
  rfl

/-- A directory is made where none is, unless a file is in its place. -/
theorem exists_ensure (hq : fs.locate p = .ok q)
    (hno : ∀ content, fs.at? q ≠ some (.file content)) :
    ∃ made, makeDirectories.ensure fs p = (made, .ok ()) ∧ made.locate p = .ok q ∧
      made.at? q = some .directory := by
  unfold makeDirectories.ensure
  cases hat : fs.at? q with
  | none =>
    have hnot : fs.at? q ≠ some .directory := by rw [hat]; nofun
    have hkeeps : fs.Keeps (fs.put q .directory) := h.keeps_put (h.dropLast_locate hq) hnot nofun
    rw [h.makeDirectory_of_free hq hat]
    refine ⟨_, rfl, hkeeps.locate hq, ?_⟩
    rw [at?_put (ne_nil_of_not_directory hnot), if_pos rfl]
  | some entry =>
    cases entry with
    | file content => exact absurd hat (hno content)
    | link target => exact absurd hat (h.noLink q target)
    | directory =>
      have hdir : fs.isDirectory p = true := by
        rw [isDirectory, entry?, (h.find_eq_taken false).2 ⟨hq, hat⟩]
        rfl
      rw [h.makeDirectory_of_taken hq hat]
      exact ⟨fs, congrArg (fs, ·) (if_pos hdir), hq, hat⟩

/-- What lies above is made only where it is missing. -/
theorem go_cons_of_locate (hq : fs.locate p = .ok q) (outer : List Path) :
    makeDirectories.go fs (p :: outer) = makeDirectories.ensure fs p := by
  rw [makeDirectories.go, makeDirectories.ensure]
  cases hat : fs.at? q with
  | none => rw [h.makeDirectory_of_free hq hat]
  | some entry => rw [h.makeDirectory_of_taken hq hat]

/-- The induction on the paths above: each is shorter, and where the way to a path is missing a part
it is the way to the path above that is. -/
theorem exists_go_of_isClear (n : Nat) : ∀ {p : Path}, p.text.length < n →
    (p.text = "" ∨ IsPlain p) → fs.IsClear fs.home p.steps →
      ∃ made q, makeDirectories.go fs (ancestry.go n p) = (made, .ok ()) ∧
        made.reach made.home p.steps = .ok q ∧ made.at? q = some .directory := by
  induction n with
  | zero => exact fun hlength => absurd hlength (Nat.not_lt_zero _)
  | succ n ih =>
    intro p hlength hplain hclear
    by_cases hempty : p.text = ""
    · obtain ⟨text⟩ := p
      subst hempty
      exact ⟨fs, fs.home, rfl, rfl, h.home⟩
    have hplain : IsPlain p := hplain.resolve_left hempty
    rw [ancestry.go, if_neg (by simpa using hempty)]
    rcases h.reach_of_isClear _ h.home hclear with hreach | ⟨q, hreach, hno⟩
    · have hnone : fs.locate p = .error .notFound := hplain.locate_eq.trans hreach
      -- a path without one above it leads to where it starts
      obtain ⟨outer, houter⟩ : ∃ outer, p.parent? = some outer := by
        rw [← Option.ne_none_iff_exists']
        intro hparent
        have hsteps : p.steps = [] ∨ p.steps = [.root] := by
          rcases Path.parts_of_parent?_eq_none hparent with hparts | hparts
          · exact .inl (by rw [Path.steps, hparts]; rfl)
          · exact .inr (by rw [Path.steps, hparts]; rfl)
        rcases hsteps with hsteps | hsteps <;> rw [hsteps] at hreach <;> cases hreach
      obtain ⟨last, hlast⟩ : ∃ last, p.steps = outer.steps ++ [last] := by
        refine (Path.steps_of_parent? houter).resolve_right fun hsteps => ?_
        rw [hsteps] at hreach
        cases hreach
      have hshorter := length_parent? houter
      have houterPlain : outer.text = "" ∨ IsPlain outer :=
        or_iff_not_imp_left.2 (isPlain_of_parent? hplain.text houter)
      rw [hlast] at hclear
      obtain ⟨made, d, hgo, hd, hdir⟩ :=
        ih (by omega) houterPlain ((isClear_append _).1 hclear).1
      have hextends := h.extends_go (ancestry.go n outer)
      rw [hgo] at hextends
      have hmadeClear : made.IsClear d [last] := by
        have hgoal : aim fs.home outer.steps = d := by
          rw [← hextends.home]
          exact aim_of_reach _ hd
        rw [← hgoal]
        exact IsClear.mono hextends.file _ _ ((isClear_append _).1 hclear).2
      obtain ⟨q, hq, hno⟩ := hextends.isTree.reach_singleton_of_isClear hdir hmadeClear
      have hlocate : made.locate p = .ok q := by
        rw [hplain.locate_eq, hlast, reach_append hdir _ _ hd, hq]
      obtain ⟨done, hdone, hplace, hat⟩ := hextends.isTree.exists_ensure hlocate hno
      refine ⟨done, q, ?_, hplain.locate_eq ▸ hplace, hat⟩
      rw [makeDirectories.go, h.makeDirectory_of_notFound hnone, houter]
      dsimp only [Option.elim]
      rw [hgo]
      exact hdone
    · have hlocate : fs.locate p = .ok q := hplain.locate_eq.trans hreach
      obtain ⟨made, hmade, hplace, hat⟩ := h.exists_ensure hlocate hno
      exact ⟨made, q, (h.go_cons_of_locate hlocate _).trans hmade, hplain.locate_eq ▸ hplace, hat⟩

/-- All directories on a clear way can be made. -/
theorem makeDirectories_of_isClear (hplain : r.text = "" ∨ IsPlain r)
    (hclear : fs.IsClear fs.home r.steps) :
    ∃ made q, fs.makeDirectories r = (made, .ok ()) ∧ made.reach made.home r.steps = .ok q ∧
      made.at? q = some .directory :=
  h.exists_go_of_isClear _ (Nat.lt_succ_self _) hplain hclear

/-- What is no directory stands in one that the path above leads to, under a name of its own. -/
theorem exists_parent_of_locate (hq : fs.locate p = .ok q) (hnot : fs.at? q ≠ some .directory) :
    ∃ outer n d, p.parent? = some outer ∧ p.steps = outer.steps ++ [.name n] ∧
      n.utf8ByteSize ≤ maxNameBytes ∧ fs.reach fs.home outer.steps = .ok d ∧
        fs.at? d = some .directory ∧ q = d ++ [n] := by
  obtain ⟨-, hreach⟩ := locate_eq_ok.1 hq
  rw [h.stepsOf_of_locate hq hnot] at hreach
  -- a path without steps, or to the root itself, leads to a directory
  obtain ⟨outer, houter⟩ : ∃ outer, p.parent? = some outer := by
    rw [← Option.ne_none_iff_exists']
    intro hparent
    rcases Path.parts_of_parent?_eq_none hparent with hparts | hparts <;>
      rw [Path.steps, hparts] at hreach <;> cases hreach
    · exact hnot h.home
    · exact hnot rfl
  obtain ⟨last, hlast⟩ : ∃ last, p.steps = outer.steps ++ [last] := by
    refine (Path.steps_of_parent? houter).resolve_right fun hnone => ?_
    rw [hnone] at hreach
    cases hreach
    exact hnot h.home
  rw [hlast] at hreach
  obtain ⟨d, hd, hdir, hstep⟩ := h.exists_reach_of_append (by simp) _ h.home hreach
  obtain ⟨n, rfl, hshort, hplace⟩ := h.exists_name_of_reach hdir hstep hnot
  exact ⟨outer, n, d, houter, hlast, hshort, hd, hdir, hplace⟩

/-- All directories above a directory are directories. -/
theorem at?_goal_of_mem_ancestry (hd : fs.reach fs.home p.steps = .ok q)
    (hdir : fs.at? q = some .directory) (hr : r ∈ ancestry p) :
    fs.at? (fs.goal r) = some .directory := by
  obtain ⟨more, hmore⟩ := steps_prefix_of_mem_ancestry hr
  by_cases hnil : more = []
  · rw [hnil, List.append_nil] at hmore
    rw [goal, hmore, aim_of_reach _ hd, hdir]
  · rw [← hmore] at hd
    obtain ⟨c, hc, hcdir, -⟩ := h.exists_reach_of_append hnil _ h.home hd
    rw [goal, aim_of_reach _ hc, hcdir]

theorem exists_write_of_locate (content : Content) (hq : fs.locate p = .ok q)
    (hfree : fs.at? q ≠ some .directory) : ∃ after, fs.write p content = .ok after := by
  have hspot : fs.find p false = .ok (fs.spot q) := by
    rw [h.find_eq, hq]
    rfl
  refine ⟨fs.put q (.file content), ?_⟩
  rw [write, hspot]
  cases hat : fs.at? q with
  | none =>
    rw [spot_of_none hat]
    rfl
  | some entry =>
    rw [spot_of_some hat]
    cases entry with
    | directory => exact absurd hat hfree
    | file => rfl
    | link => rfl

/-- Where another tree has a file, a tree can get one too, if it has no file where the other one has
a directory and no directory in the place of the file. -/
theorem exists_write {old : Content} (content : Content) (href : ref.IsTree)
    (hhome : ref.home = fs.home) (hq : ref.locate p = .ok q) (hold : ref.at? q = some (.file old))
    (hfile : ∀ place content, fs.at? place = some (.file content) → ref.at? place ≠ some .directory)
    (hfree : fs.at? q ≠ some .directory) :
    ∃ made after, fs.makeDirectories (p.parent?.getD ⟨""⟩) = (made, .ok ()) ∧
      made.write p content = .ok after := by
  have hnot : ref.at? q ≠ some .directory := by rw [hold]; nofun
  obtain ⟨outer, n, d, houter, hlast, hshort, hd, hdir, rfl⟩ := href.exists_parent_of_locate hq hnot
  obtain ⟨htext, -⟩ := locate_eq_ok.1 hq
  have hplain : outer.text = "" ∨ IsPlain outer :=
    or_iff_not_imp_left.2 (isPlain_of_parent? htext houter)
  have hclear : fs.IsClear fs.home outer.steps := hhome ▸ isClear_of_reach hfile hdir _ hd
  obtain ⟨made, e, hmake, he, hedir⟩ := h.makeDirectories_of_isClear hplain hclear
  have hextends := h.extends_makeDirectories outer
  rw [hmake] at hextends
  have hsame : e = d := by
    rw [← aim_of_reach _ he, ← aim_of_reach _ hd, hextends.home, hhome]
  subst hsame
  have hlocate : made.locate p = .ok (e ++ [n]) := by
    refine locate_eq_ok.2 ⟨htext, ?_⟩
    rw [href.stepsOf_of_locate hq hnot, hlast, reach_append hedir _ _ he, reach,
      if_neg (Nat.not_lt.2 hshort)]
    split <;> rfl
  -- the directories made are directories of the other tree as well, and the file is none
  have hmadeFree : made.at? (e ++ [n]) ≠ some .directory := by
    intro hmade
    rcases hextends.added (e ++ [n]) with hkept | ⟨-, r, hr, hrdir⟩
    · exact hfree (hkept ▸ hmade)
    · have hgoal := goal_of_locate (hextends.isTree.directory?_eq_some.1 hrdir).1
      have hrefDir := href.at?_goal_of_mem_ancestry hd hdir hr
      rw [goal, hhome, ← hextends.home] at hrefDir
      exact hnot (hgoal ▸ hrefDir)
  obtain ⟨after, hwrite⟩ := hextends.isTree.exists_write_of_locate content hlocate hmadeFree
  exact ⟨made, after, by rw [houter]; exact hmake, hwrite⟩

end IsTree

end TaskWrappers.FileSystem
