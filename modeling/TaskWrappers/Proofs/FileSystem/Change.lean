import TaskWrappers.FileSystem.Change
import TaskWrappers.Proofs.FileSystem.Tree

/-!
# Changes to trees

Writing and removing a file changes what stands at the place that its path leads to, before and
after, and nothing else (`IsTree.write_spec`, `IsTree.removeFile_spec`). Making a directory and the
ones above it only adds directories, at free places to which these paths lead afterwards, whether it
succeeds or not (`Extends`, `IsTree.extends_makeDirectories`).
-/

namespace TaskWrappers.FileSystem

theorem lookup_filter (keep : Place → Bool) (q : Place) : ∀ entries : List (Place × Entry),
    (entries.filter fun x => keep x.1).lookup q = if keep q then entries.lookup q else none
  | [] => by simp
  | (place, entry) :: entries => by
    have ih := lookup_filter keep q entries
    rw [List.filter_cons, List.lookup_cons]
    by_cases hq : q = place
    · subst hq
      rw [beq_self_eq_true]
      split
      · rw [List.lookup_cons, beq_self_eq_true]
      · rename_i hkeep
        rw [ih, if_neg hkeep]
    · have hne : (q == place) = false := beq_false_of_ne hq
      rw [hne]
      split
      · rw [List.lookup_cons, hne]
        exact ih
      · exact ih

variable {fs fs' : FileSystem} {p : Path} {place q : Place} {entry : Entry}

theorem at?_of_ne_nil (hq : q ≠ []) : fs.at? q = fs.entries.lookup q :=
  if_neg (by simpa using hq)

theorem ne_nil_of_not_directory (hplace : fs.at? place ≠ some .directory) : place ≠ [] := by
  rintro rfl
  exact hplace rfl

theorem at?_put (hplace : place ≠ []) (q : Place) :
    (fs.put place entry).at? q = if q = place then some entry else fs.at? q := by
  by_cases hroot : q = []
  · rw [hroot, if_neg (Ne.symm hplace)]
    rfl
  · rw [at?_of_ne_nil hroot, at?_of_ne_nil hroot, put, List.lookup_append,
      lookup_filter (· != place) q]
    by_cases hq : q = place
    · simp [hq]
    · have hkeep : (q != place) = true := bne_iff_ne.2 hq
      have hnew : List.lookup q [(place, entry)] = none := by
        rw [List.lookup_cons, beq_false_of_ne hq]
        rfl
      rw [if_neg hq, if_pos hkeep, hnew, Option.or_none]

theorem at?_clear (hplace : place ≠ []) (q : Place) :
    (fs.clear place).at? q = if place <+: q then none else fs.at? q := by
  by_cases hroot : q = []
  · rw [hroot, if_neg (mt List.prefix_nil.1 hplace)]
    rfl
  · rw [at?_of_ne_nil hroot, at?_of_ne_nil hroot, clear,
      lookup_filter (fun x => !place.isPrefixOf x) q]
    by_cases hq : place <+: q
    · rw [if_pos hq, if_neg (by simpa using hq)]
    · have hkeep : (!place.isPrefixOf q) = true := by
        rw [Bool.not_eq_true', Bool.eq_false_iff]
        exact mt List.isPrefixOf_iff_prefix.1 hq
      rw [if_neg hq, if_pos hkeep]

namespace IsTree

variable (h : fs.IsTree)
include h

/-- A tree stays one and loses no directory if it changes in one place only, which stands in a
directory, held none itself and gets no link. -/
theorem keeps_of_at? (hhome : fs'.home = fs.home)
    (hparent : fs.at? place.dropLast = some .directory) (hplace : fs.at? place ≠ some .directory)
    (hlink : ∀ target, fs'.at? place ≠ some (.link target))
    (hsame : ∀ q, q ≠ place → fs'.at? q = fs.at? q) : fs.Keeps fs' := by
  have hkeep : ∀ q, fs.at? q = some .directory → fs'.at? q = some .directory := by
    intro q hq
    rw [hsame, hq]
    rintro rfl
    exact hplace hq
  refine ⟨⟨hhome ▸ hkeep _ h.home, fun outer name hmem => ?_, fun q target => ?_⟩, hhome, hkeep⟩
  · by_cases heq : outer ++ [name] = place
    · rw [← heq, List.dropLast_concat] at hparent
      exact hkeep outer hparent
    · rw [hsame _ heq] at hmem
      exact hkeep outer (h.inside outer name hmem)
  · by_cases heq : q = place
    · rw [heq]
      exact hlink target
    · rw [hsame q heq]
      exact h.noLink q target

theorem keeps_put (hparent : fs.at? place.dropLast = some .directory)
    (hplace : fs.at? place ≠ some .directory) (hlink : ∀ target, entry ≠ .link target) :
    fs.Keeps (fs.put place entry) := by
  have hput : ∀ q, (fs.put place entry).at? q = if q = place then some entry else fs.at? q :=
    at?_put (ne_nil_of_not_directory hplace)
  refine h.keeps_of_at? rfl hparent hplace (fun target => ?_) fun q hq => ?_
  · rw [hput, if_pos rfl]
    exact fun heq => hlink target (Option.some.inj heq)
  · rw [hput, if_neg hq]

/-- A file has nothing below it. -/
theorem at?_clear_file {content : Content} (hfile : fs.at? place = some (.file content))
    (q : Place) : (fs.clear place).at? q = if q = place then none else fs.at? q := by
  have hne : fs.at? place ≠ some .directory := by rw [hfile]; nofun
  rw [at?_clear (ne_nil_of_not_directory hne)]
  by_cases hq : q = place
  · rw [if_pos hq, if_pos (hq ▸ List.prefix_refl _)]
  · rw [if_neg hq]
    split
    · rename_i hbelow
      by_contra hsome
      exact hne (h.above (Ne.symm hq) (Ne.symm hsome) hbelow)
    · rfl

theorem keeps_clear {content : Content} (hparent : fs.at? place.dropLast = some .directory)
    (hfile : fs.at? place = some (.file content)) : fs.Keeps (fs.clear place) := by
  have hclear := h.at?_clear_file hfile
  refine h.keeps_of_at? rfl hparent (by rw [hfile]; nofun) (fun target => ?_) fun q hq => ?_
  · rw [hclear, if_pos rfl]
    nofun
  · rw [hclear, if_neg hq]

theorem write_spec {content : Content} (hwrite : fs.write p content = .ok fs') :
    ∃ place, fs.Keeps fs' ∧ fs'.locate p = .ok place ∧
      ∀ q, fs'.at? q = if q = place then some (.file content) else fs.at? q := by
  obtain ⟨spot, hfind, hwrite⟩ := Except.exists_of_bind_eq_ok hwrite
  obtain ⟨place, hlocate, hplace, rfl⟩ : ∃ place, fs.locate p = .ok place ∧
      fs.at? place ≠ some .directory ∧ fs' = fs.put place (.file content) := by
    split at hwrite
    · cases hwrite
    · rename_i place e hdir
      obtain ⟨hlocate, hplace⟩ := (h.find_eq_taken false).1 hfind
      cases hwrite
      refine ⟨place, hlocate, ?_, rfl⟩
      rw [hplace]
      rintro ⟨⟩
      exact hdir rfl
    · rename_i place
      obtain ⟨hlocate, hplace⟩ := (h.find_eq_free false).1 hfind
      cases hwrite
      exact ⟨place, hlocate, by rw [hplace]; nofun, rfl⟩
  have hkeeps : fs.Keeps (fs.put place (.file content)) :=
    h.keeps_put (h.dropLast_locate hlocate) hplace nofun
  exact ⟨place, hkeeps, hkeeps.locate hlocate, at?_put (ne_nil_of_not_directory hplace)⟩

theorem removeFile_spec (hfile : fs.isFile p = true) (hremove : fs.removeFile p = .ok fs') :
    ∃ place, fs.Keeps fs' ∧ fs'.locate p = .ok place ∧
      ∀ q, fs'.at? q = if q = place then none else fs.at? q := by
  obtain ⟨place, content, hlocate, hplace⟩ := h.isFile_iff.1 hfile
  rw [removeFile, (h.find_eq_taken true).2 ⟨hlocate, hplace⟩] at hremove
  cases hremove
  have hkeeps := h.keeps_clear (h.dropLast_locate hlocate) hplace
  exact ⟨place, hkeeps, hkeeps.locate hlocate, h.at?_clear_file hplace⟩

end IsTree

/-- Whether one tree has what another has and otherwise only directories, at places to which some
of the paths lead. -/
structure Extends (paths : List Path) (fs fs' : FileSystem) : Prop where
  isTree : fs'.IsTree
  home : fs'.home = fs.home
  added : ∀ q, fs'.at? q = fs.at? q ∨ (fs.at? q = none ∧ ∃ p ∈ paths, fs'.directory? p = some q)

namespace Extends

variable {fs₁ fs₂ : FileSystem} {paths more : List Path}

theorem refl (h : fs.IsTree) : Extends paths fs fs := ⟨h, rfl, fun _ => .inl rfl⟩

theorem mono (h : Extends paths fs fs') (hsub : ∀ p ∈ paths, p ∈ more) : Extends more fs fs' :=
  ⟨h.isTree, h.home, fun q => (h.added q).imp_right fun ⟨hnone, p, hp, hq⟩ =>
    ⟨hnone, p, hsub p hp, hq⟩⟩

theorem keeps (h : Extends paths fs fs') : fs.Keeps fs' := by
  refine ⟨h.isTree, h.home, fun q hq => ?_⟩
  rcases h.added q with heq | ⟨hnone, -⟩
  · rw [heq, hq]
  · rw [hq] at hnone
    cases hnone

/-- No file is added. -/
theorem file (h : Extends paths fs fs') (q : Place) (content : Content)
    (hq : fs'.at? q = some (.file content)) : fs.at? q = some (.file content) := by
  rcases h.added q with heq | ⟨-, p, -, hdir⟩
  · rw [← heq, hq]
  · rw [(h.isTree.directory?_eq_some.1 hdir).2] at hq
    cases hq

theorem trans (h₁ : Extends paths fs fs₁) (h₂ : Extends paths fs₁ fs₂) : Extends paths fs fs₂ where
  isTree := h₂.isTree
  home := h₂.home.trans h₁.home
  added := by
    intro q
    rcases h₂.added q with heq | ⟨hnone, p, hp, hq⟩
    · rcases h₁.added q with heq₁ | ⟨hnone, p, hp, hq⟩
      · exact .inl (heq.trans heq₁)
      · exact .inr ⟨hnone, p, hp, h₂.keeps.directory? h₁.isTree hq⟩
    · rcases h₁.added q with heq₁ | ⟨hnone₁, -⟩
      · exact .inr ⟨heq₁ ▸ hnone, p, hp, hq⟩
      · exact .inr ⟨hnone₁, p, hp, hq⟩

end Extends

namespace IsTree

variable (h : fs.IsTree)
include h

theorem extends_makeDirectory (hmake : fs.makeDirectory p = .ok fs') : Extends [p] fs fs' := by
  obtain ⟨spot, hfind, hmake⟩ := Except.exists_of_bind_eq_ok hmake
  split at hmake
  · cases hmake
  · rename_i place
    obtain ⟨hlocate, hplace⟩ := (h.find_eq_free true).1 hfind
    cases hmake
    have hnot : fs.at? place ≠ some .directory := by rw [hplace]; nofun
    have hput : ∀ q, (fs.put place .directory).at? q
        = if q = place then some .directory else fs.at? q :=
      at?_put (ne_nil_of_not_directory hnot)
    have hkeeps : fs.Keeps (fs.put place .directory) :=
      h.keeps_put (h.dropLast_locate hlocate) hnot nofun
    refine ⟨hkeeps.isTree, rfl, fun q => ?_⟩
    by_cases hq : q = place
    · subst hq
      exact .inr ⟨hplace, p, List.mem_singleton_self p,
        hkeeps.isTree.directory?_eq_some.2 ⟨hkeeps.locate hlocate, by rw [hput, if_pos rfl]⟩⟩
    · exact .inl (by rw [hput, if_neg hq])

theorem extends_ensure : Extends [p] fs (makeDirectories.ensure fs p).1 := by
  unfold makeDirectories.ensure
  split
  · exact h.extends_makeDirectory ‹_›
  · exact .refl h

theorem extends_go : ∀ (paths : List Path), Extends paths fs (makeDirectories.go fs paths).1
  | [] => .refl h
  | p :: outer => by
    have houter : Extends (p :: outer) fs (makeDirectories.go fs outer).1 :=
      (extends_go outer).mono fun r hr => List.mem_cons_of_mem p hr
    rw [makeDirectories.go]
    split
    · exact (h.extends_makeDirectory ‹_›).mono (by simp)
    · split
      · rename_i hgo
        rwa [hgo] at houter
      · rename_i hgo
        rw [hgo] at houter
        exact houter.trans (houter.isTree.extends_ensure.mono (by simp))
    · exact .refl h

/-- Making directories adds the ones that were missing and changes nothing else. -/
theorem extends_makeDirectories (p : Path) : Extends (ancestry p) fs (fs.makeDirectories p).1 :=
  h.extends_go (ancestry p)

end IsTree

end TaskWrappers.FileSystem
