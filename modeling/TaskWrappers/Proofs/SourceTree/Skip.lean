import TaskWrappers.Proofs.FileSystem.Way
import TaskWrappers.Proofs.SourceTree.Read

/-!
# What an output directory hides

A directory to skip is told by the steps of its path. One that is not below the source directory
hides nothing as long as its steps do not open those of the source directory
(`sources_of_not_isWithin`). Where they do, it hides every directory below the source directory, but
not the source directory itself, which a walk does not ask about: what is left are the files
directly in it (`sources_of_isWithin`, `read_skipping`).
-/

namespace TaskWrappers

/-- Whether a path leads to something directly in a directory, as far as their texts tell. -/
def Path.holds (dir p : Path) : Bool := p.parts.dropLast == dir.parts

namespace SourceTree

open FileSystem

variable {fs : FileSystem} {skip : List Path} {language : Language} {dir out : Path}
  {place : Place} {dirs names way : List String} {name : String} {files : List SourceFile}

/-- Steps that open a way below a directory lead to the directory or to above it, or they are the
directory's own and go on below it. -/
theorem steps_prefix_cases (h : out.steps <+: dir.steps ++ way.map .name) :
    out.steps <+: dir.steps ∨ ∃ names, names ≠ [] ∧ out.steps = dir.steps ++ names.map .name := by
  rcases List.prefix_or_prefix_of_prefix h (List.prefix_append _ _) with hout | ⟨more, hmore⟩
  · exact .inl hout
  · rw [← hmore, List.prefix_append_right_inj, List.prefix_iff_eq_take] at h
    rw [← List.map_take] at h
    by_cases hne : way.take more.length = []
    · rw [hne] at h
      rw [h, List.map_nil, List.append_nil] at hmore
      exact .inl (hmore ▸ List.prefix_refl _)
    · exact .inr ⟨_, hne, by rw [← hmore, ← h]⟩

section Tree

variable (htree : fs.IsTree) (htable : fs.IsTable) (hdir : fs.directory? dir = some place)
include htree htable hdir

omit htable in
/-- A path that means no place below a directory does not go on below it either. -/
theorem steps_ne_of_goal (hout : ¬ (place <+: fs.goal out ∧ fs.goal out ≠ place)) :
    ∀ names, names ≠ [] → out.steps ≠ dir.steps ++ names.map .name := by
  intro names hne hsteps
  have hplace : fs.goal dir = place := goal_of_locate (htree.directory?_eq_some.1 hdir).1
  have hgoal : fs.goal out = place ++ names := by
    rw [goal, hsteps, aim_append, aim_names]
    exact congrArg (· ++ names) hplace
  rw [hgoal] at hout
  exact hout ⟨List.prefix_append _ _, by simpa using hne⟩

/-- Directories to skip only take sources away: those with one of these directories on the way. -/
theorem mem_sources_skip : dirs ++ [name] ∈ sources fs language skip dir place ↔
    dirs ++ [name] ∈ sources fs language [] dir place ∧
      ∀ way, way <+: dirs → way ≠ [] → ∀ s ∈ skip, ¬ s.steps <+: dir.steps ++ way.map .name := by
  obtain ⟨htext, -⟩ := locate_eq_ok.1 (htree.directory?_eq_some.1 hdir).1
  have hsteps (hmem : dirs ++ [name] ∈ sources fs language [] dir place) {way : List String}
      (hway : way <+: dirs) : (dir.below way).steps = dir.steps ++ way.map .name :=
    Path.steps_below htext.1 fun n hn => isName_of_mem_sources htree htable hdir hmem n
      (List.mem_append_left [name] (hway.subset hn))
  constructor
  · intro h
    obtain ⟨hlength, hfile, hsource, hopen⟩ := (concat_mem_sources htree htable hdir).1 h
    have hmem : dirs ++ [name] ∈ sources fs language [] dir place := by
      refine (concat_mem_sources htree htable hdir).2 ⟨hlength, hfile, hsource, ?_⟩
      intro outer d hway
      obtain ⟨hvisible, hbuild, -⟩ := isSkipped_eq_false.1 (hopen outer d hway)
      exact isSkipped_eq_false.2 ⟨hvisible, hbuild, nofun⟩
    refine ⟨hmem, fun way hway hne s hs => ?_⟩
    obtain ⟨outer, d, rfl⟩ := (List.eq_nil_or_concat' way).resolve_left hne
    rw [← hsteps hmem hway]
    exact (isSkipped_eq_false.1 (hopen outer d hway)).2.2 s hs
  · rintro ⟨hmem, hskip⟩
    obtain ⟨hlength, hfile, hsource, hopen⟩ := (concat_mem_sources htree htable hdir).1 hmem
    refine (concat_mem_sources htree htable hdir).2 ⟨hlength, hfile, hsource, ?_⟩
    intro outer d hway
    obtain ⟨hvisible, hbuild, -⟩ := isSkipped_eq_false.1 (hopen outer d hway)
    refine isSkipped_eq_false.2 ⟨hvisible, hbuild, fun s hs => ?_⟩
    rw [hsteps hmem hway]
    exact hskip _ hway (by simp) s hs

theorem sources_of_not_isWithin (hwithin : dir.isWithin out = false)
    (hout : ∀ names, names ≠ [] → out.steps ≠ dir.steps ++ names.map .name) :
    sources fs language [out] dir place = sources fs language [] dir place := by
  refine (pairwise_sources htable).eq_of_mem_iff (pairwise_sources htable) fun names => ?_
  have hsubset (h : names ∈ sources fs language [] dir place) :
      names ∈ sources fs language [out] dir place := by
    obtain ⟨dirs, name, rfl⟩ := exists_concat_of_mem_sources htree htable hdir h
    refine (mem_sources_skip htree htable hdir).2 ⟨h, fun way _ _ s hs hlead => ?_⟩
    rw [List.mem_singleton] at hs
    subst hs
    rcases steps_prefix_cases hlead with hopens | ⟨below, hne, hbelow⟩
    · rw [Path.isWithin, List.isPrefixOf_iff_prefix.2 hopens] at hwithin
      cases hwithin
    · exact hout below hne hbelow
  refine ⟨fun h => ?_, hsubset⟩
  obtain ⟨dirs, name, rfl⟩ := exists_concat_of_mem_sources htree htable hdir h
  exact ((mem_sources_skip htree htable hdir).1 h).1

theorem sources_of_isWithin (hwithin : dir.isWithin out = true) :
    sources fs language [out] dir place
      = (sources fs language [] dir place).filter fun names => dir.holds (dir.below names) := by
  obtain ⟨htext, -⟩ := locate_eq_ok.1 (htree.directory?_eq_some.1 hdir).1
  have hopens : out.steps <+: dir.steps := List.isPrefixOf_iff_prefix.1 hwithin
  refine (pairwise_sources htable).eq_of_mem_iff ((pairwise_sources htable).filter _)
    fun names => ?_
  have hin (h : names ∈ sources fs language [] dir place) :
      names ∈ sources fs language [out] dir place ↔ dir.holds (dir.below names) = true := by
    have hnames := isName_of_mem_sources htree htable hdir h
    obtain ⟨dirs, name, rfl⟩ := exists_concat_of_mem_sources htree htable hdir h
    rw [mem_sources_skip htree htable hdir, Path.holds, beq_iff_eq, Path.parts_below htext.1 hnames,
      List.map_append, ← List.append_assoc, List.map_singleton, List.dropLast_concat,
      List.append_right_eq_self, List.map_eq_nil_iff, and_iff_right h]
    constructor
    · intro hskip
      by_contra hne
      exact hskip dirs (List.prefix_refl _) hne out (List.mem_singleton_self out)
        (hopens.trans (List.prefix_append _ _))
    · rintro rfl way hway hne
      exact absurd (List.prefix_nil.1 hway) hne
  rw [List.mem_filter]
  constructor
  · intro h
    obtain ⟨dirs, name, rfl⟩ := exists_concat_of_mem_sources htree htable hdir h
    have hmem := ((mem_sources_skip htree htable hdir).1 h).1
    exact ⟨hmem, (hin hmem).1 h⟩
  · rintro ⟨hmem, h⟩
    exact (hin hmem).2 h

theorem read_of_isWithin (hwithin : dir.isWithin out = true)
    (hread : read fs language [] dir = .ok files) :
    read fs language [out] dir = .ok (files.filter fun f => dir.holds ⟨f.path⟩) := by
  rw [read_eq htree htable hdir] at hread ⊢
  rw [sources_of_isWithin htree htable hdir hwithin]
  refine Except.mapM_filter hread fun names file hfile => ?_
  rw [path_of_readSource hfile]

/-- An output directory outside the source directory hides nothing, unless the path to the source
directory opens with the path to it; then it hides all that is not directly in the source
directory. -/
theorem read_skipping (hout : ¬ (place <+: fs.goal out ∧ fs.goal out ≠ place)) :
    (dir.isWithin out = false → read fs language [out] dir = read fs language [] dir) ∧
      (dir.isWithin out = true → ∀ files, read fs language [] dir = .ok files →
        read fs language [out] dir = .ok (files.filter fun f => dir.holds ⟨f.path⟩)) := by
  refine ⟨fun hwithin => ?_, fun hwithin files => read_of_isWithin htree htable hdir hwithin⟩
  rw [read_eq htree htable hdir, read_eq htree htable hdir,
    sources_of_not_isWithin htree htable hdir hwithin (steps_ne_of_goal htree hdir hout)]

end Tree

section Nested

/-- A tree with a source directly in `src` and one below it. -/
def nestedTree : FileSystem where
  home := ["work"]
  entries := [(["work"], .directory), (["work", "src"], .directory),
    (["work", "src", "Job.cs"], .file (.text "class Job { }")),
    (["work", "src", "Sub"], .directory),
    (["work", "src", "Sub", "Ship.cs"], .file (.text "class Ship { }"))]

theorem isTree_nestedTree : nestedTree.IsTree := isTree_of_entries rfl (by decide)

theorem isTable_nestedTree : nestedTree.IsTable := ⟨by decide, by decide⟩

theorem directory?_nestedTree : nestedTree.directory? ⟨"src"⟩ = some ["work", "src"] :=
  isTree_nestedTree.directory?_eq_some.2 ⟨rfl, rfl⟩

theorem exists_read_nestedTree : ∃ files, read nestedTree .csharp [] ⟨"src"⟩ = .ok files ∧
    ∃ file ∈ files, file.path = "src/Sub/Ship.cs" := by
  obtain ⟨files, hread, hfiles⟩ := exists_read_of_entries .csharp [] isTree_nestedTree
    isTable_nestedTree directory?_nestedTree (by decide)
  have hsource : isSource .csharp ⟨"Ship.cs"⟩ = true := by decide
  have hopen : ∀ d ∈ ["Sub"], isSkipped [] d (Path.below ⟨"src"⟩ [d]) = false := by decide
  have hmem : ["Sub"] ++ ["Ship.cs"] ∈ sources nestedTree .csharp [] ⟨"src"⟩ ["work", "src"] := by
    refine (concat_mem_sources isTree_nestedTree isTable_nestedTree directory?_nestedTree).2
      ⟨by decide, ⟨_, rfl⟩, hsource, fun outer d hway => ?_⟩
    obtain rfl : outer = [] := by simpa using hway.length_le
    exact hopen d (hway.subset (by simp))
  obtain ⟨file, hfile, hpath⟩ := hfiles _ hmem
  exact ⟨files, hread, file, hfile, (Path.mk.inj hpath).trans (by decide)⟩

/-- An output directory beside the sources hides nothing, one in their place all that is nested. -/
theorem read_skipping_nestedTree :
    read nestedTree .csharp [⟨"out"⟩] ⟨"src"⟩ = read nestedTree .csharp [] ⟨"src"⟩ ∧
      ∃ files, read nestedTree .csharp [] ⟨"src"⟩ = .ok files ∧
        read nestedTree .csharp [⟨"src"⟩] ⟨"src"⟩
          = .ok (files.filter fun f => Path.holds ⟨"src"⟩ ⟨f.path⟩) := by
  have hbeside : ¬ (["work", "src"] <+: nestedTree.goal ⟨"out"⟩ ∧
      nestedTree.goal ⟨"out"⟩ ≠ ["work", "src"]) := by decide
  have hplace : ¬ (["work", "src"] <+: nestedTree.goal ⟨"src"⟩ ∧
      nestedTree.goal ⟨"src"⟩ ≠ ["work", "src"]) := by decide
  obtain ⟨files, hread, -⟩ := exists_read_nestedTree
  refine ⟨(read_skipping isTree_nestedTree isTable_nestedTree directory?_nestedTree hbeside).1
    (by decide), files, hread, ?_⟩
  exact (read_skipping isTree_nestedTree isTable_nestedTree directory?_nestedTree hplace).2
    (by decide) files hread

theorem read_ne_nestedTree (hwithin : Path.isWithin ⟨"src"⟩ out = true) :
    read nestedTree .csharp [out] ⟨"src"⟩ ≠ read nestedTree .csharp [] ⟨"src"⟩ := by
  obtain ⟨files, hread, file, hfile, hpath⟩ := exists_read_nestedTree
  rw [read_of_isWithin isTree_nestedTree isTable_nestedTree directory?_nestedTree hwithin hread,
    hread]
  intro heq
  have hin := (List.mem_filter.1 ((Except.ok.inj heq).symm ▸ hfile)).2
  rw [hpath] at hin
  exact absurd hin (by decide)

/-- Neither the source directory itself nor the working directory is below the source directory, and
as output directories both hide a source. -/
theorem read_hidden_nestedTree :
    ¬ (["work", "src"] <+: nestedTree.goal ⟨"src"⟩ ∧ nestedTree.goal ⟨"src"⟩ ≠ ["work", "src"]) ∧
      read nestedTree .csharp [⟨"src"⟩] ⟨"src"⟩ ≠ read nestedTree .csharp [] ⟨"src"⟩ ∧
      ¬ (["work", "src"] <+: nestedTree.goal ⟨"."⟩ ∧ nestedTree.goal ⟨"."⟩ ≠ ["work", "src"]) ∧
      read nestedTree .csharp [⟨"."⟩] ⟨"src"⟩ ≠ read nestedTree .csharp [] ⟨"src"⟩ :=
  ⟨by decide, read_ne_nestedTree (by decide), by decide, read_ne_nestedTree (by decide)⟩

end Nested

end SourceTree

end TaskWrappers
