import TaskWrappers.Pass
import TaskWrappers.Proofs.FileSystem.Way
import TaskWrappers.Proofs.SourceTree.Read

/-!
# What an analysis depends on

Of a disk that it can work on (`Config.IsReady`) an analysis sees files only, and not the generated
one: neither the project file nor a source is found in its place. So two disks with the same files
besides it give the same analysis (`Analysis.run_congr`). Where the project file is given by a path,
this path has to lead to it on both, since it may take its way over directories without files.
-/

namespace TaskWrappers

open FileSystem

namespace FileSystem

/-- The same working directory and the same files, but for what is at one place. -/
structure SameBut (place : Place) (fs fs' : FileSystem) : Prop where
  home : fs'.home = fs.home
  file : ∀ q content, q ≠ place →
    (fs.at? q = some (.file content) ↔ fs'.at? q = some (.file content))

variable {fs fs' : FileSystem} {p : Path} {place q : Place}

theorem SameBut.symm (h : SameBut place fs fs') : SameBut place fs' fs :=
  ⟨h.home.symm, fun q content hq => (h.file q content hq).symm⟩

theorem SameBut.goal (h : SameBut place fs fs') (p : Path) : fs'.goal p = fs.goal p := by
  rw [FileSystem.goal, FileSystem.goal, h.home]

/-- A file that is found on both disks reads the same. -/
theorem SameBut.readText (h : SameBut place fs fs') (htree : fs.IsTree) (htree' : fs'.IsTree)
    (hgoal : fs.goal p ≠ place) (hfile : fs.isFile p = true) (hfile' : fs'.isFile p = true) :
    fs.readText p = fs'.readText p := by
  obtain ⟨q, content, hq, hat⟩ := htree.isFile_iff.1 hfile
  obtain ⟨q', content', hq', hat'⟩ := htree'.isFile_iff.1 hfile'
  have hgoal' := goal_of_locate hq'
  rw [h.goal, goal_of_locate hq] at hgoal'
  subst hgoal'
  rw [goal_of_locate hq] at hgoal
  exact htree.readText_congr htree' hq hq' (hat.trans ((h.file q content hgoal).1 hat).symm)

theorem SameBut.isFile (h : SameBut place fs fs') (htree : fs.IsTree) (hkeeps : fs.Keeps fs')
    (hgoal : fs.goal p ≠ place) (hfile : fs.isFile p = true) : fs'.isFile p = true := by
  obtain ⟨q, content, hq, hat⟩ := htree.isFile_iff.1 hfile
  rw [goal_of_locate hq] at hgoal
  exact hkeeps.isTree.isFile_iff.2 ⟨q, content, hkeeps.locate hq, (h.file q content hgoal).1 hat⟩

end FileSystem

/-- A disk that a pass can work on: a tree without links, with the source directory in it. -/
structure Config.IsReady (c : Config) (fs : FileSystem) : Prop where
  isTree : fs.IsTree
  isTable : fs.IsTable
  sourceDir : ∃ place, fs.directory? c.sourceDir = some place

variable {fs fs' : FileSystem} {c : Config} {dir : Path} {place out : Place} {name : String}

theorem Config.steps_outputPath (c : Config) :
    ∃ outer, c.outputPath.steps = outer ++ [.name Artifact.generatedFile] := by
  have hname : Path.IsName Artifact.generatedFile := by decide
  by_cases hempty : c.outDir.text = ""
  · have hpath : c.outputPath = ⟨Artifact.generatedFile⟩ := by
      rw [outputPath, Path.join, hempty]
      rfl
    exact ⟨[], by rw [hpath]; decide⟩
  · exact ⟨_, Path.steps_join hempty hname⟩

theorem Config.getLast?_goal_outputPath (c : Config) (fs : FileSystem) :
    (fs.goal c.outputPath).getLast? = some Artifact.generatedFile := by
  obtain ⟨outer, houter⟩ := c.steps_outputPath
  rw [goal, houter, aim_append]
  exact List.getLast?_concat

namespace Project

/-- The names of the project files in a directory. -/
def namesOfFiles (fs : FileSystem) (dir : Path) (place : Place) : List String :=
  (fs.names place).filter fun name =>
    fs.isFile (dir.join ⟨name⟩) && (dir.join ⟨name⟩).extension? == some "csproj"

theorem filesIn_eq (hdir : fs.directory? dir = some place) :
    filesIn fs dir = (namesOfFiles fs dir place).map fun name => dir.join ⟨name⟩ := by
  rw [filesIn, namesIn, hdir, Option.elim, List.filter_map]
  rfl

section Ready

variable (htree : fs.IsTree) (htable : fs.IsTable) (hdir : fs.directory? dir = some place)
include htree htable hdir

theorem mem_namesOfFiles : name ∈ namesOfFiles fs dir place ↔
    (dir.join ⟨name⟩).text.utf8ByteSize < maxPathBytes ∧
      (∃ content, fs.at? (place ++ [name]) = some (.file content)) ∧
        (dir.join ⟨name⟩).extension? = some "csproj" := by
  rw [namesOfFiles, List.mem_filter, mem_names, Bool.and_eq_true, beq_iff_eq]
  constructor
  · rintro ⟨hat, hfile, hextension⟩
    obtain ⟨hlength, hcontent⟩ :=
      (isFile_below htree htable hdir hat (by simp)).1 hfile
    exact ⟨hlength, hcontent, hextension⟩
  · rintro ⟨hlength, ⟨content, hcontent⟩, hextension⟩
    have hat : fs.at? (place ++ [name]) ≠ none := by rw [hcontent]; nofun
    exact ⟨hat, (isFile_below htree htable hdir hat (by simp)).2
      ⟨hlength, content, hcontent⟩, hextension⟩

theorem goal_of_mem_namesOfFiles (h : name ∈ namesOfFiles fs dir place) :
    fs.goal (dir.join ⟨name⟩) = place ++ [name] := by
  obtain ⟨hlength, ⟨content, hcontent⟩, -⟩ := (mem_namesOfFiles htree htable hdir).1 h
  have hat : fs.at? (place ++ [name]) ≠ none := by rw [hcontent]; nofun
  exact goal_of_locate (locate_below htree htable hdir hat (by simp) hlength)

/-- The generated file is no project file. -/
theorem ne_of_mem_namesOfFiles (h : name ∈ namesOfFiles fs dir place) :
    name ≠ Artifact.generatedFile := by
  rintro rfl
  obtain ⟨htext, -⟩ := locate_eq_ok.1 (htree.directory?_eq_some.1 hdir).1
  obtain ⟨-, -, hextension⟩ := (mem_namesOfFiles htree htable hdir).1 h
  have hname : Path.IsName Artifact.generatedFile := by decide
  have hcs : Path.extension? ⟨Artifact.generatedFile⟩ ≠ some "csproj" := by decide
  rw [Path.extension?_join htext.1 hname] at hextension
  exact hcs hextension

end Ready

section Congr

variable (htree : fs.IsTree) (htree' : fs'.IsTree) (hsame : SameBut out fs fs')
include htree htree' hsame

theorem load_congr {p : Path} {project : Project} (hgoal : fs.goal p ≠ out)
    (hfile : fs.isFile p = true → fs'.isFile p = true) (h : load fs p = .ok project) :
    load fs' p = .ok project := by
  obtain ⟨text, htext, -⟩ := Except.exists_of_bind_eq_ok h
  have hentry := htree.entry?_of_readText (Except.eq_ok_of_mapError htext)
  obtain ⟨q, hq⟩ := htree.entry?_eq_some.1 hentry
  have hfound : fs.isFile p = true := htree.isFile_iff.2 ⟨q, _, hq⟩
  rw [load, ← hsame.readText htree htree' hgoal hfound (hfile hfound)]
  exact h

variable (htable : fs.IsTable) (hdir : fs.directory? dir = some place)
  (htable' : fs'.IsTable) (hdir' : fs'.directory? dir = some place)
  (hout : out.getLast? = some Artifact.generatedFile)
include htable hdir hout

omit htree' hsame in
theorem place_ne_of_mem_namesOfFiles (h : name ∈ namesOfFiles fs dir place) :
    place ++ [name] ≠ out := by
  rintro rfl
  rw [List.getLast?_concat] at hout
  exact ne_of_mem_namesOfFiles htree htable hdir h (Option.some.inj hout)

include htable' hdir'

/-- Disks with the same files but for the generated one have the same project files. -/
theorem namesOfFiles_congr : namesOfFiles fs dir place = namesOfFiles fs' dir place := by
  refine ((htable.pairwise_names place).filter _).eq_of_mem_iff
    ((htable'.pairwise_names place).filter _) fun name => ?_
  constructor
  · intro h
    have hne := place_ne_of_mem_namesOfFiles htree htable hdir hout h
    refine (mem_namesOfFiles htree' htable' hdir').2 ?_
    simpa only [hsame.file _ _ hne] using (mem_namesOfFiles htree htable hdir).1 h
  · intro h
    have hne := place_ne_of_mem_namesOfFiles htree' htable' hdir' hout h
    refine (mem_namesOfFiles htree htable hdir).2 ?_
    simpa only [hsame.file _ _ hne] using (mem_namesOfFiles htree' htable' hdir').1 h

theorem locate_congr {explicit : Option Path} {project : Project}
    (hexplicit : ∀ p, explicit = some p →
      fs.goal p ≠ out ∧ (fs.isFile p = true → fs'.isFile p = true))
    (h : locate fs explicit dir = .ok project) : locate fs' explicit dir = .ok project := by
  cases explicit with
  | some p =>
    obtain ⟨hgoal, hfile⟩ := hexplicit p rfl
    exact load_congr htree htree' hsame hgoal hfile h
  | none =>
    have hnames := namesOfFiles_congr htree htree' hsame htable hdir htable' hdir' hout
    rw [locate, filesIn_eq hdir] at h
    rw [locate, filesIn_eq hdir', ← hnames]
    cases hlist : namesOfFiles fs dir place with
    | nil =>
      rw [hlist] at h
      exact h
    | cons name names =>
      rw [hlist] at h
      have hmem : name ∈ namesOfFiles fs dir place := hlist ▸ List.mem_cons_self
      have hgoal : fs.goal (dir.join ⟨name⟩) ≠ out := by
        rw [goal_of_mem_namesOfFiles htree htable hdir hmem]
        exact place_ne_of_mem_namesOfFiles htree htable hdir hout hmem
      have hfile : fs'.isFile (dir.join ⟨name⟩) = true := by
        have hmem' := (List.mem_filter.1 (hnames ▸ hmem)).2
        exact (Bool.and_eq_true_iff.1 hmem').1
      exact load_congr htree htree' hsame hgoal (fun _ => hfile) h

end Congr

end Project

/-- Disks with the same files but for the generated one give the same analysis. -/
theorem Analysis.run_congr {analysis : Analysis} (hready : c.IsReady fs) (hready' : c.IsReady fs')
    (hsame : SameBut (fs.goal c.outputPath) fs fs')
    (hproject : ∀ p, c.projectFile = some p →
      fs.goal p ≠ fs.goal c.outputPath ∧ (fs.isFile p = true → fs'.isFile p = true))
    (h : run fs c = .ok analysis) : run fs' c = .ok analysis := by
  obtain ⟨htree, htable, place, hdir⟩ := hready
  obtain ⟨htree', htable', place', hdir'⟩ := hready'
  obtain rfl : place' = place := by
    rw [← goal_of_locate (htree.directory?_eq_some.1 hdir).1,
      ← goal_of_locate (htree'.directory?_eq_some.1 hdir').1, hsame.goal]
  have hout := c.getLast?_goal_outputPath fs
  obtain ⟨project, hlocate, h⟩ := Except.exists_of_bind_eq_ok h
  obtain ⟨language, hlanguage, h⟩ := Except.exists_of_bind_eq_ok h
  have hread : SourceTree.read fs language [c.outDir] c.sourceDir
      = SourceTree.read fs' language [c.outDir] c.sourceDir := by
    refine SourceTree.read_congr htree htable hdir htree' htable' hdir' fun q content hq => ?_
    refine hsame.file q content ?_
    rintro rfl
    exact hq hout
  rw [run, Project.locate_congr htree htree' hsame htable hdir htable' hdir' hout hproject hlocate,
    hlanguage]
  rw [hread] at h
  exact h

end TaskWrappers
