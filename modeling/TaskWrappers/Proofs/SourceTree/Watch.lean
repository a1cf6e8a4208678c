import TaskWrappers.Proofs.SourceTree.Read

/-!
# Watching the sources

A walk asks only the directories below the one it starts at whether they are for build output, while
a change is judged by all parts of its path. So the changes to a source that count are told by the
path to the source directory alone (`isRelevant_of_mem_sources`): either all sources below a
directory are watched, or none is (`isRelevant_iff_of_read`).
-/

namespace TaskWrappers.SourceTree

open FileSystem

variable {fs : FileSystem} {skip : List Path} {dir : Path} {place : Place} {dirs : List String}
  {name : String} {names : List String} {file : SourceFile} {files : List SourceFile}

section Tree

variable (htree : fs.IsTree) (htable : fs.IsTable) (hdir : fs.directory? dir = some place)
include htree htable hdir

theorem not_mem_buildDirs (h : dirs ++ [name] ∈ sources fs .csharp skip dir place) :
    ∀ d ∈ dirs ++ [name], d ∉ buildDirs := by
  have hnames := isName_of_mem_sources htree htable hdir h
  obtain ⟨-, -, hsource, hopen⟩ := (concat_mem_sources htree htable hdir).1 h
  intro d hd
  rcases List.mem_append.1 hd with hd | hd
  · obtain ⟨outer, rest, rfl⟩ := List.append_of_mem hd
    have hlead : outer ++ [d] <+: outer ++ d :: rest := ⟨rest, by simp⟩
    exact (isSkipped_eq_false.1 (hopen outer d hlead)).2.1
  · -- the name of a directory for build output has no extension
    rw [List.mem_singleton] at hd
    subst hd
    obtain ⟨-, ext, -, hextension⟩ := (isSource_name (hnames d (by simp))).1 hsource
    have hnone : ∀ d ∈ buildDirs, Path.extension? ⟨d⟩ = none := by decide
    intro hbuild
    rw [hnone d hbuild] at hextension
    cases hextension

theorem isRelevant_of_mem_sources (h : names ∈ sources fs .csharp skip dir place) :
    (dir.below names).isRelevant = true ↔ ∀ part ∈ dir.parts, part.text ∉ buildDirs := by
  obtain ⟨htext, -⟩ := locate_eq_ok.1 (htree.directory?_eq_some.1 hdir).1
  have hnames := isName_of_mem_sources htree htable hdir h
  obtain ⟨dirs, name, rfl⟩ := exists_concat_of_mem_sources htree htable hdir h
  have hbuild := not_mem_buildDirs htree htable hdir h
  have hname := hnames name (by simp)
  have houter := Path.below_spec htext.1 fun n hn => hnames n (List.mem_append_left [name] hn)
  obtain ⟨-, -, hsource, -⟩ := (concat_mem_sources htree htable hdir).1 h
  obtain ⟨hgenerated, ext, hext, hextension⟩ := (isSource_name hname).1 hsource
  obtain rfl := List.mem_singleton.1 hext
  have hfile : (dir.below (dirs ++ [name])).fileName? = some name := by
    rw [Path.below_concat, Path.fileName?_join houter.1 hname]
  have hlast : (dir.below (dirs ++ [name])).extension? = some "cs" := by
    rw [Path.below_concat, Path.extension?_join houter.1 hname, hextension]
  have hartifact : name ≠ Artifact.generatedFile := by
    rintro rfl
    exact absurd hgenerated (by decide)
  have hany : (dir.below (dirs ++ [name])).parts.any (fun part => buildDirs.contains part.text)
      = dir.parts.any fun part => buildDirs.contains part.text := by
    have hbelow : ((dirs ++ [name]).map Path.Part.name).any
        (fun part => buildDirs.contains part.text) = false := by
      rw [List.any_map, List.any_eq_false]
      intro d hd
      simpa [Path.Part.text] using hbuild d hd
    rw [Path.parts_below htext.1 hnames, List.any_append, hbelow, Bool.or_false]
  rw [Path.isRelevant, hfile, hlast, hany]
  simp [hartifact]

end Tree

/-- Of the sources that a pass reads, either all are watched or none, and which it is depends on the
path to their directory only. -/
theorem isRelevant_iff_of_read (htree : fs.IsTree) (htable : fs.IsTable)
    (hread : read fs .csharp skip dir = .ok files) (hfile : file ∈ files) :
    Path.isRelevant ⟨file.path⟩ = true ↔ ∀ part ∈ dir.parts, part.text ∉ buildDirs := by
  obtain ⟨place, hdir, hways⟩ := exists_of_read htree htable hread
  have hpath : (⟨file.path⟩ : Path) ∈ files.map fun f => (⟨f.path⟩ : Path) :=
    List.mem_map_of_mem hfile
  rw [paths_of_mapM hways] at hpath
  obtain ⟨names, hnames, heq⟩ := List.mem_map.1 hpath
  rw [← heq]
  exact isRelevant_of_mem_sources htree htable hdir hnames

section Apps

/-- A tree with a source in `src` and one in `bin/app`. -/
def appsTree : FileSystem where
  home := ["work"]
  entries := [(["work"], .directory), (["work", "src"], .directory),
    (["work", "src", "Job.cs"], .file (.text "class Job { }")), (["work", "bin"], .directory),
    (["work", "bin", "app"], .directory),
    (["work", "bin", "app", "Job.cs"], .file (.text "class Job { }"))]

theorem isTree_appsTree : appsTree.IsTree := isTree_of_entries rfl (by decide)

theorem isTable_appsTree : appsTree.IsTable := ⟨by decide, by decide⟩

/-- A source directly in a directory of that tree is read. -/
theorem exists_read_appsTree (hdir : appsTree.directory? dir = some place)
    (hfile : appsTree.at? (place ++ ["Job.cs"]) = some (.file (.text "class Job { }")))
    (hlength : (dir.join ⟨"Job.cs"⟩).text.utf8ByteSize < maxPathBytes) :
    ∃ files, read appsTree .csharp [] dir = .ok files ∧
      ∃ file ∈ files, (⟨file.path⟩ : Path) = dir.join ⟨"Job.cs"⟩ := by
  obtain ⟨files, hread, hfiles⟩ := exists_read_of_entries .csharp [] isTree_appsTree
    isTable_appsTree hdir (by decide)
  have hsource : isSource .csharp ⟨"Job.cs"⟩ = true := by decide
  have hmem : [] ++ ["Job.cs"] ∈ sources appsTree .csharp [] dir place :=
    (concat_mem_sources isTree_appsTree isTable_appsTree hdir).2
      ⟨hlength, ⟨_, hfile⟩, hsource, fun outer d hlead => by simp at hlead⟩
  exact ⟨files, hread, hfiles _ hmem⟩

theorem isRelevant_iff_of_read_appsTree : ∃ files, read appsTree .csharp [] ⟨"src"⟩ = .ok files ∧
    ∃ file ∈ files, Path.isRelevant ⟨file.path⟩ = true := by
  have hdir : appsTree.directory? ⟨"src"⟩ = some ["work", "src"] :=
    isTree_appsTree.directory?_eq_some.2 ⟨rfl, rfl⟩
  obtain ⟨files, hread, file, hfile, -⟩ := exists_read_appsTree hdir rfl (by decide)
  refine ⟨files, hread, file, hfile, ?_⟩
  exact (isRelevant_iff_of_read isTree_appsTree isTable_appsTree hread hfile).2 (by decide)

/-- The source in `bin/app` is read but not watched. -/
theorem not_isRelevant_of_read_appsTree :
    ∃ files, read appsTree .csharp [] ⟨"bin/app"⟩ = .ok files ∧
      ∃ file ∈ files, Path.isRelevant ⟨file.path⟩ = false := by
  have hdir : appsTree.directory? ⟨"bin/app"⟩ = some ["work", "bin", "app"] :=
    isTree_appsTree.directory?_eq_some.2 ⟨rfl, rfl⟩
  obtain ⟨files, hread, file, hfile, hpath⟩ := exists_read_appsTree hdir rfl (by decide)
  refine ⟨files, hread, file, hfile, ?_⟩
  rw [hpath]
  decide

end Apps

end TaskWrappers.SourceTree
