import TaskWrappers.Proofs.SourceTree.Read
import TaskWrappers.Proofs.Text.Bytes

/-!
# Exactly the hand-written sources

The sources that a walk comes upon are those whose own name and whose directories below the walk's
start say that they are hand-written (`mem_sources_iff`): a directory that is left out is left out
with all below it, which is the same as asking every directory on the way to a file. So reading a
tree gives these files, each once, in the order of the bytes of the parts of their paths, and it
does not matter in which order the directories' entries are stored (`read_handWritten`).
-/

namespace TaskWrappers

/-- The parts of a path as bytes. -/
def Path.components (p : Path) : List (List UInt8) :=
  p.parts.map fun part => Text.bytes part.text

namespace SourceTree

open FileSystem

variable {fs fs' : FileSystem} {skip : List Path} {dir : Path} {place : Place}
  {dirs names a b : List String} {name : String} {files : List SourceFile}

/-- A hand-written source below a directory, by the directories on the way to it and its name: a
file with the extension `cs` and no name that a generator gives, with no directory on the way that
is hidden, for build output, or at or below one to skip. -/
structure IsHandWritten (fs : FileSystem) (skip : List Path) (dir : Path) (place : Place)
    (dirs : List String) (name : String) : Prop where
  file : ∃ content, fs.at? (place ++ (dirs ++ [name])) = some (.file content)
  extension : ∃ stem, stem ≠ "" ∧ name = stem ++ ".cs"
  artifact : name ≠ "GeneratedDurableTaskExtensions.cs"
  generated : ¬ ".g.cs".toList <:+ name.toList ∧ ¬ ".generated.cs".toList <:+ name.toList
  visible : ∀ d ∈ dirs, ¬ ".".toList <+: d.toList
  build : "bin" ∉ dirs ∧ "obj" ∉ dirs
  skipped : ∀ way, way <+: dirs → way ≠ [] → ∀ s ∈ skip, ¬ s.steps <+: (dir.below way).steps

theorem isGenerated_eq_false : isGenerated name = false ↔
    name ≠ "GeneratedDurableTaskExtensions.cs" ∧
      ¬ ".g.cs".toList <:+ name.toList ∧ ¬ ".generated.cs".toList <:+ name.toList := by
  simp [isGenerated, endsWith, generatedSuffixes, Artifact.generatedFile, ← Bool.not_eq_true,
    List.isSuffixOf_iff_suffix]

/-- Every directory on a way is one that a shorter way ends with. -/
theorem forall_isSkipped_eq_false :
    (∀ outer d, outer ++ [d] <+: dirs → isSkipped skip d (dir.below (outer ++ [d])) = false) ↔
      (∀ d ∈ dirs, ¬ ".".toList <+: d.toList) ∧ ("bin" ∉ dirs ∧ "obj" ∉ dirs) ∧
        ∀ way, way <+: dirs → way ≠ [] → ∀ s ∈ skip, ¬ s.steps <+: (dir.below way).steps := by
  have hhidden (d : String) : ".".toList <+: d.toList ↔ d.toList.head? = some '.' := by
    rw [List.head?_eq_some_iff]
    exact ⟨fun ⟨rest, h⟩ => ⟨rest, h.symm⟩, fun ⟨rest, h⟩ => ⟨rest, h.symm⟩⟩
  constructor
  · intro h
    have hdirs : ∀ d ∈ dirs, d.toList.head? ≠ some '.' ∧ d ∉ buildDirs := by
      intro d hd
      obtain ⟨outer, rest, rfl⟩ := List.append_of_mem hd
      obtain ⟨hvisible, hbuild, -⟩ := isSkipped_eq_false.1 (h outer d ⟨rest, by simp⟩)
      exact ⟨hvisible, hbuild⟩
    refine ⟨fun d hd => mt (hhidden d).1 (hdirs d hd).1,
      ⟨fun hbin => (hdirs _ hbin).2 (by decide), fun hobj => (hdirs _ hobj).2 (by decide)⟩, ?_⟩
    intro way hway hne
    obtain ⟨outer, d, rfl⟩ := (List.eq_nil_or_concat' way).resolve_left hne
    exact (isSkipped_eq_false.1 (h outer d hway)).2.2
  · rintro ⟨hvisible, ⟨hbin, hobj⟩, hskip⟩ outer d hway
    have hd : d ∈ dirs := hway.subset (by simp)
    refine isSkipped_eq_false.2 ⟨mt (hhidden d).2 (hvisible d hd), ?_, hskip _ hway (by simp)⟩
    intro hbuild
    rcases List.mem_pair.1 hbuild with rfl | rfl
    · exact hbin hd
    · exact hobj hd

section Tree

variable (htree : fs.IsTree) (htable : fs.IsTable) (hdir : fs.directory? dir = some place)
include htree htable hdir

theorem mem_sources_iff : dirs ++ [name] ∈ sources fs .csharp skip dir place ↔
    (dir.below (dirs ++ [name])).text.utf8ByteSize < maxPathBytes ∧
      IsHandWritten fs skip dir place dirs name := by
  rw [concat_mem_sources htree htable hdir, forall_isSkipped_eq_false]
  refine and_congr_right fun _ => ?_
  have hsource (hname : Path.IsName name) : isSource .csharp ⟨name⟩ = true ↔
      isGenerated name = false ∧ ∃ stem, stem ≠ "" ∧ name = stem ++ ".cs" := by
    have hextensions : Language.csharp.extensions = ["cs"] := rfl
    have hdot (stem : String) : stem ++ "." ++ "cs" = stem ++ ".cs" := by
      rw [String.append_assoc]
      rfl
    rw [isSource_name hname, hextensions]
    simp only [List.mem_singleton, exists_eq_left,
      Path.extension?_eq_some hname (by decide : '.' ∉ "cs".toList), hdot]
  have hname (hfile : ∃ content, fs.at? (place ++ (dirs ++ [name])) = some (.file content)) :
      Path.IsName name := by
    obtain ⟨content, hcontent⟩ := hfile
    have hat : fs.at? (place ++ (dirs ++ [name])) ≠ none := by rw [hcontent]; nofun
    exact (isEntryName_below htable hat name (by simp)).1
  constructor
  · rintro ⟨hfile, hcs, hvisible, hbuild, hskip⟩
    obtain ⟨hgenerated, hextension⟩ := (hsource (hname hfile)).1 hcs
    obtain ⟨hartifact, hsuffix⟩ := isGenerated_eq_false.1 hgenerated
    exact ⟨hfile, hextension, hartifact, hsuffix, hvisible, hbuild, hskip⟩
  · rintro ⟨hfile, hextension, hartifact, hsuffix, hvisible, hbuild, hskip⟩
    have hgenerated := isGenerated_eq_false.2 ⟨hartifact, hsuffix⟩
    exact ⟨hfile, (hsource (hname hfile)).2 ⟨hgenerated, hextension⟩, hvisible, hbuild, hskip⟩

end Tree

theorem components_lt (hbase : dir.text ≠ "") (ha : ∀ n ∈ a, Path.IsName n)
    (hb : ∀ n ∈ b, Path.IsName n) (h : a < b) :
    (dir.below a).components < (dir.below b).components := by
  rw [Path.components, Path.components, Path.parts_below hbase ha, Path.parts_below hbase hb,
    List.map_append, List.map_append, List.map_map, List.map_map]
  exact List.append_left_lt (List.map_lt (fun _ _ => Text.bytes_lt_bytes) h)

theorem pairwise_of_read (htree : fs.IsTree) (htable : fs.IsTable)
    (hread : read fs .csharp skip dir = .ok files) :
    files.Pairwise fun a b => Path.components ⟨a.path⟩ < Path.components ⟨b.path⟩ := by
  obtain ⟨place, hdir, hways⟩ := exists_of_read htree htable hread
  obtain ⟨htext, -⟩ := locate_eq_ok.1 (htree.directory?_eq_some.1 hdir).1
  have hname {names : List String} (h : names ∈ sources fs .csharp skip dir place) :=
    isName_of_mem_sources htree htable hdir h
  have hpaths : (files.map fun f => (⟨f.path⟩ : Path)).Pairwise fun p q =>
      p.components < q.components := by
    rw [paths_of_mapM hways, List.pairwise_map]
    exact (pairwise_sources htable).imp_of_mem fun ha hb hab =>
      components_lt htext.1 (hname ha) (hname hb) hab
  rwa [List.pairwise_map] at hpaths

/-- In which order the entries are stored makes no difference. -/
theorem read_of_perm (htree : fs.IsTree) (htable : fs.IsTable)
    (hdir : fs.directory? dir = some place) (hhome : fs'.home = fs.home)
    (hperm : fs'.entries.Perm fs.entries) :
    read fs' .csharp skip dir = read fs .csharp skip dir := by
  have htable' : fs'.IsTable := htable.of_perm hperm
  have hat : ∀ q, fs'.at? q = fs.at? q := htable.at?_of_perm hperm
  have hkeeps : fs.Keeps fs' := htree.keeps_of_eq hhome hat
  exact read_congr hkeeps.isTree htable' (hkeeps.directory? htree hdir) htree htable hdir
    fun q _ _ => by rw [hat]

/-- The files read below a directory are the hand-written ones, each once and in order. -/
theorem read_handWritten (htree : fs.IsTree) (htable : fs.IsTable)
    (hdir : fs.directory? dir = some place)
    (hreadable : ∀ dirs name, IsHandWritten fs skip dir place dirs name →
      ∃ text, fs.readText (dir.below (dirs ++ [name])) = .ok text) :
    ∃ files, read fs .csharp skip dir = .ok files ∧
      (∀ file, file ∈ files ↔ ∃ dirs name text, IsHandWritten fs skip dir place dirs name ∧
        fs.at? (place ++ (dirs ++ [name])) = some (.file (.text text)) ∧
          file = SourceFile.read (dir.below (dirs ++ [name])).text text) ∧
      files.Pairwise (fun a b => Path.components ⟨a.path⟩ < Path.components ⟨b.path⟩) ∧
      ∀ fs', fs'.home = fs.home → fs'.entries.Perm fs.entries →
        read fs' .csharp skip dir = .ok files := by
  have hmem (dirs : List String) (name : String) :
      dirs ++ [name] ∈ sources fs .csharp skip dir place ↔
        (dir.below (dirs ++ [name])).text.utf8ByteSize < maxPathBytes ∧
          IsHandWritten fs skip dir place dirs name := mem_sources_iff htree htable hdir
  have hshort (dirs name) (h : IsHandWritten fs skip dir place dirs name) :
      dirs ++ [name] ∈ sources fs .csharp skip dir place := by
    obtain ⟨text, htext⟩ := hreadable dirs name h
    exact (hmem dirs name).2 ⟨length_of_readText htree htext, h⟩
  have hall : ∀ names ∈ sources fs .csharp skip dir place,
      ∃ text, fs.readText (dir.below names) = .ok text := by
    intro names h
    obtain ⟨dirs, name, rfl⟩ := exists_concat_of_mem_sources htree htable hdir h
    exact hreadable dirs name ((hmem dirs name).1 h).2
  obtain ⟨files, hread⟩ := exists_read htree htable hdir hall
  refine ⟨files, hread, fun file => ?_, pairwise_of_read htree htable hread,
    fun fs' hhome hperm => (read_of_perm htree htable hdir hhome hperm).trans hread⟩
  rw [read_eq htree htable hdir] at hread
  rw [Except.mem_of_mapM_eq_ok hread]
  constructor
  · rintro ⟨names, hnames, hfile⟩
    obtain ⟨text, htext, rfl⟩ := (readSource_of_mem_sources htree htable hdir hnames).1 hfile
    obtain ⟨dirs, name, rfl⟩ := exists_concat_of_mem_sources htree htable hdir hnames
    exact ⟨dirs, name, text, ((hmem dirs name).1 hnames).2, htext, rfl⟩
  · rintro ⟨dirs, name, text, h, htext, rfl⟩
    have hnames := hshort dirs name h
    exact ⟨_, hnames, (readSource_of_mem_sources htree htable hdir hnames).2 ⟨text, htext, rfl⟩⟩

section Build

/-- A tree with a source and, among the build output, a file that looks like one. -/
def buildTree : FileSystem where
  home := ["work"]
  entries := [(["work"], .directory), (["work", "src"], .directory),
    (["work", "src", "obj"], .directory),
    (["work", "src", "obj", "Temp.cs"], .file (.text "class Temp { }")),
    (["work", "src", "Tasks"], .directory),
    (["work", "src", "Tasks", "A.cs"], .file (.text "class A { }"))]

theorem isTree_buildTree : buildTree.IsTree := isTree_of_entries rfl (by decide)

theorem isTable_buildTree : buildTree.IsTable := ⟨by decide, by decide⟩

theorem isHandWritten_buildTree {dirs : List String} {name : String} :
    IsHandWritten buildTree [⟨"./src/out"⟩] ⟨"src"⟩ ["work", "src"] dirs name ↔
      dirs = ["Tasks"] ∧ name = "A.cs" := by
  constructor
  · rintro ⟨⟨content, hfile⟩, -, -, -, -, hbuild, -⟩
    have hentry := mem_entries (by simp) hfile
    have hways : dirs ++ [name] = ["obj"] ++ ["Temp.cs"] ∨
        dirs ++ [name] = ["Tasks"] ++ ["A.cs"] := by
      simp only [buildTree, List.mem_cons, Prod.mk.injEq, List.not_mem_nil, reduceCtorEq, and_false,
        or_false, false_or, List.cons_append, List.nil_append, List.cons.injEq, true_and] at hentry
      rcases hentry with ⟨hway, -⟩ | ⟨hway, -⟩
      · exact .inl hway
      · exact .inr hway
    rcases hways with hway | hway
    · obtain ⟨rfl, -⟩ := List.append_inj' hway rfl
      exact absurd List.mem_cons_self hbuild.2
    · obtain ⟨rfl, hname⟩ := List.append_inj' hway rfl
      exact ⟨rfl, List.singleton_inj.1 hname⟩
  · rintro ⟨rfl, rfl⟩
    refine ⟨⟨_, rfl⟩, ⟨"A", by decide, rfl⟩, by decide, by decide, by decide, by decide, ?_⟩
    rintro way hway hne s hs
    rw [List.mem_singleton] at hs
    subst hs
    obtain ⟨outer, d, rfl⟩ := (List.eq_nil_or_concat' way).resolve_left hne
    obtain rfl : outer = [] := by simpa using hway.length_le
    obtain rfl : d = "Tasks" := by simpa using hway
    decide

/-- Only the source is read, though the directory to skip is written with a dot. -/
theorem read_handWritten_buildTree :
    ∃ files, read buildTree .csharp [⟨"./src/out"⟩] ⟨"src"⟩ = .ok files ∧
      ∀ file, file ∈ files ↔ file = SourceFile.read "src/Tasks/A.cs" "class A { }" := by
  have hdir : buildTree.directory? ⟨"src"⟩ = some ["work", "src"] :=
    isTree_buildTree.directory?_eq_some.2 ⟨rfl, rfl⟩
  have hreadable : ∀ dirs name,
      IsHandWritten buildTree [⟨"./src/out"⟩] ⟨"src"⟩ ["work", "src"] dirs name →
        ∃ text, buildTree.readText (Path.below ⟨"src"⟩ (dirs ++ [name])) = .ok text := by
    intro dirs name h
    obtain ⟨rfl, rfl⟩ := isHandWritten_buildTree.1 h
    exact ⟨_, isTree_buildTree.readText_of_text rfl rfl⟩
  obtain ⟨files, hread, hmem, -⟩ :=
    read_handWritten isTree_buildTree isTable_buildTree hdir hreadable
  refine ⟨files, hread, fun file => (hmem file).trans ?_⟩
  constructor
  · rintro ⟨dirs, name, text, h, htext, rfl⟩
    obtain ⟨rfl, rfl⟩ := isHandWritten_buildTree.1 h
    cases htext
    rfl
  · rintro rfl
    exact ⟨["Tasks"], "A.cs", _, isHandWritten_buildTree.2 ⟨rfl, rfl⟩, rfl, rfl⟩

end Build

end SourceTree

end TaskWrappers
