import TaskWrappers.Proofs.SourceTree.Walk

/-!
# Reading the sources below a directory

Sources are read one by one along the ways that lead to them (`read_eq`), under the paths that these
ways give (`paths_of_mapM`). The bound on a walk's depth leaves none of them out, since no place
lies deeper than there are entries; so which they are depends only on the files there are and on
what is left out (`mem_sources`), and trees that have the same files but for generated ones read the
same (`read_congr`).
-/

namespace TaskWrappers.SourceTree

open FileSystem

variable {fs fs' : FileSystem} {skip : List Path} {language : Language} {dir p : Path}
  {place : Place} {name : String} {names dirs : List String} {file : SourceFile}
  {files : List SourceFile}

/-! ## What is left out -/

theorem isSkipped_eq_false : isSkipped skip name p = false ↔
    name.toList.head? ≠ some '.' ∧ name ∉ buildDirs ∧ ∀ s ∈ skip, ¬ s.steps <+: p.steps := by
  simp [isSkipped, Path.isWithin, and_assoc]

/-- The directories on the way to a file are those above its name. -/
theorem isOpen_concat : IsOpen skip dir (dirs ++ [name]) ↔
    ∀ outer d, outer ++ [d] <+: dirs → isSkipped skip d (dir.below (outer ++ [d])) = false := by
  constructor
  · intro h outer d hlead
    refine h outer d (hlead.trans (List.prefix_append _ _)) fun heq => ?_
    have hlength := hlead.length_le
    rw [heq, List.length_append] at hlength
    simp at hlength
  · intro h outer d hlead hne
    rcases List.prefix_concat_iff.1 hlead with heq | hlead
    · exact absurd heq hne
    · exact h outer d hlead

theorem isSource_below (hbase : dir.text ≠ "") (hnames : ∀ n ∈ dirs ++ [name], Path.IsName n) :
    isSource language (dir.below (dirs ++ [name])) = isSource language ⟨name⟩ := by
  have hdirs := fun n hn => hnames n (List.mem_append_left [name] hn)
  have hname := hnames name (by simp)
  have htext := (Path.below_spec hbase hdirs).1
  rw [isSource, isSource, Path.below_concat, Path.fileName?_join htext hname,
    Path.extension?_join htext hname, Path.fileName?_of_isName hname]

theorem isSource_name (hname : Path.IsName name) : isSource language ⟨name⟩ = true ↔
    isGenerated name = false ∧ ∃ ext ∈ language.extensions, Path.extension? ⟨name⟩ = some ext := by
  rw [isSource, Path.fileName?_of_isName hname]
  cases Path.extension? ⟨name⟩ <;> simp

/-! ## What is read -/

def holdsText : Entry → Bool
  | .file (.binary _) => false
  | _ => true

/-- The ways down from a directory to the sources below it. -/
def sources (fs : FileSystem) (language : Language) (skip : List Path) (dir : Path)
    (place : Place) : List (List String) :=
  (listed fs skip (depthLimit fs) dir place).filter fun names =>
    fs.isFile (dir.below names) && isSource language (dir.below names)

def readSource (fs : FileSystem) (p : Path) : Except Failure SourceFile := do
  let text ← (fs.readText p).mapError (.access p)
  return SourceFile.read p.text text

theorem path_of_readSource (h : readSource fs p = .ok file) : (⟨file.path⟩ : Path) = p := by
  obtain ⟨text, -, h⟩ := Except.exists_of_bind_eq_ok h
  cases h
  rfl

section Tree

variable (htree : fs.IsTree) (htable : fs.IsTable) (hdir : fs.directory? dir = some place)
include htree htable hdir

theorem read_eq : read fs language skip dir
    = (sources fs language skip dir place).mapM fun names => readSource fs (dir.below names) := by
  have hplace := (htree.directory?_eq_some.1 hdir).2
  rw [read, hdir]
  dsimp only
  rw [files, walk_eq htree htable hplace, List.filter_map, List.mapM_map]
  rfl

theorem mem_sources : names ∈ sources fs language skip dir place ↔
    names ≠ [] ∧ (dir.below names).text.utf8ByteSize < maxPathBytes ∧
      (∃ content, fs.at? (place ++ names) = some (.file content)) ∧
        isSource language (dir.below names) = true ∧ IsOpen skip dir names := by
  rw [sources, List.mem_filter, mem_listed htree, Bool.and_eq_true]
  constructor
  · rintro ⟨⟨hne, -, hat, -, hopen⟩, hfile, hsource⟩
    obtain ⟨hlength, hcontent⟩ := (isFile_below htree htable hdir hat hne).1 hfile
    exact ⟨hne, hlength, hcontent, hsource, hopen⟩
  · rintro ⟨hne, hlength, ⟨content, hcontent⟩, hsource, hopen⟩
    have hat : fs.at? (place ++ names) ≠ none := by rw [hcontent]; nofun
    refine ⟨⟨hne, ?_, hat, by rw [hcontent]; nofun, hopen⟩,
      (isFile_below htree htable hdir hat hne).2 ⟨hlength, content, hcontent⟩, hsource⟩
    calc names.length ≤ (place ++ names).length := by rw [List.length_append]; omega
      _ ≤ fs.entries.length := htree.length_le_entries hat
      _ ≤ fs.entries.length + 1 := Nat.le_succ _
      _ ≤ depthLimit fs := Nat.le_mul_self _

omit htree hdir in
theorem pairwise_sources : (sources fs language skip dir place).Pairwise (· < ·) :=
  (pairwise_listed htable).filter _

/-- The sources by the directories on the way to them and their names. -/
theorem concat_mem_sources : dirs ++ [name] ∈ sources fs language skip dir place ↔
    (dir.below (dirs ++ [name])).text.utf8ByteSize < maxPathBytes ∧
      (∃ content, fs.at? (place ++ (dirs ++ [name])) = some (.file content)) ∧
        isSource language ⟨name⟩ = true ∧
          ∀ outer d, outer ++ [d] <+: dirs →
            isSkipped skip d (dir.below (outer ++ [d])) = false := by
  obtain ⟨htext, -⟩ := locate_eq_ok.1 (htree.directory?_eq_some.1 hdir).1
  have hne : dirs ++ [name] ≠ [] := by simp
  rw [mem_sources htree htable hdir, ← isOpen_concat]
  refine (and_iff_right hne).trans (and_congr_right fun _ => and_congr_right ?_)
  rintro ⟨content, hcontent⟩
  have hat : fs.at? (place ++ (dirs ++ [name])) ≠ none := by rw [hcontent]; nofun
  rw [isSource_below htext.1 fun n hn => (isEntryName_below htable hat n hn).1]

section Source

variable (h : names ∈ sources fs language skip dir place)
include h

theorem at?_of_mem_sources : fs.at? (place ++ names) ≠ none := by
  obtain ⟨-, -, ⟨content, hcontent⟩, -⟩ := (mem_sources htree htable hdir).1 h
  rw [hcontent]
  nofun

theorem locate_of_mem_sources : fs.locate (dir.below names) = .ok (place ++ names) := by
  obtain ⟨hne, hlength, -⟩ := (mem_sources htree htable hdir).1 h
  exact locate_below htree htable hdir (at?_of_mem_sources htree htable hdir h) hne hlength

theorem isName_of_mem_sources : ∀ name ∈ names, Path.IsName name := fun name hname =>
  (isEntryName_below htable (at?_of_mem_sources htree htable hdir h) name hname).1

theorem exists_concat_of_mem_sources : ∃ dirs name, names = dirs ++ [name] :=
  (List.eq_nil_or_concat' names).resolve_left ((mem_sources htree htable hdir).1 h).1

/-- No source has the name of the generated file. -/
theorem getLast?_ne_of_mem_sources : (place ++ names).getLast? ≠ some Artifact.generatedFile := by
  have hnames := isName_of_mem_sources htree htable hdir h
  obtain ⟨dirs, name, rfl⟩ := exists_concat_of_mem_sources htree htable hdir h
  obtain ⟨-, -, hsource, -⟩ := (concat_mem_sources htree htable hdir).1 h
  rw [isSource_name (hnames name (by simp))] at hsource
  rw [← List.append_assoc, List.getLast?_concat]
  rintro ⟨⟩
  exact absurd hsource.1 (by decide)

theorem readSource_of_mem_sources : readSource fs (dir.below names) = .ok file ↔
    ∃ text, fs.at? (place ++ names) = some (.file (.text text)) ∧
      file = SourceFile.read (dir.below names).text text := by
  have hlocate := locate_of_mem_sources htree htable hdir h
  obtain ⟨-, -, ⟨content, hcontent⟩, -⟩ := (mem_sources htree htable hdir).1 h
  have hfind := (htree.find_eq_taken false).2 ⟨hlocate, hcontent⟩
  rw [readSource, readText, hfind, hcontent]
  cases content with
  | text text =>
    constructor
    · intro hread
      cases hread
      exact ⟨text, rfl, rfl⟩
    · rintro ⟨_, ⟨⟩, rfl⟩
      rfl
  | binary bytes =>
    constructor
    · intro hread
      cases hread
    · rintro ⟨_, ⟨⟩, -⟩

end Source

/-- The sources are read if each of them can be. -/
theorem exists_read (h : ∀ names ∈ sources fs language skip dir place,
    ∃ text, fs.readText (dir.below names) = .ok text) :
    ∃ files, read fs language skip dir = .ok files := by
  rw [read_eq htree htable hdir]
  refine Except.exists_mapM_eq_ok fun names hnames => ?_
  obtain ⟨text, htext⟩ := h names hnames
  exact ⟨SourceFile.read (dir.below names).text text, by rw [readSource, htext]; rfl⟩

end Tree

/-- Where all files hold texts, all sources are read. -/
theorem exists_read_of_entries (language : Language) (skip : List Path) (htree : fs.IsTree)
    (htable : fs.IsTable) (hdir : fs.directory? dir = some place)
    (hentries : ∀ x ∈ fs.entries, holdsText x.2 = true) :
    ∃ files, read fs language skip dir = .ok files ∧
      ∀ names ∈ sources fs language skip dir place,
        ∃ file ∈ files, (⟨file.path⟩ : Path) = dir.below names := by
  have hreadable : ∀ names ∈ sources fs language skip dir place,
      ∃ text, fs.readText (dir.below names) = .ok text := by
    intro names h
    have hlocate := locate_of_mem_sources htree htable hdir h
    obtain ⟨-, -, ⟨content, hcontent⟩, -⟩ := (mem_sources htree htable hdir).1 h
    have hne : place ++ names ≠ [] := ne_nil_of_not_directory (by rw [hcontent]; nofun)
    have htext := hentries _ (mem_entries hne hcontent)
    cases content with
    | text text => exact ⟨text, htree.readText_of_text hlocate hcontent⟩
    | binary bytes => cases htext
  obtain ⟨files, hread⟩ := exists_read htree htable hdir hreadable
  refine ⟨files, hread, fun names h => ?_⟩
  rw [read_eq htree htable hdir] at hread
  obtain ⟨text, htext⟩ := hreadable names h
  have hsource : readSource fs (dir.below names)
      = .ok (SourceFile.read (dir.below names).text text) := by
    rw [readSource, htext]
    rfl
  exact ⟨_, (Except.mem_of_mapM_eq_ok hread _).2 ⟨names, h, hsource⟩, path_of_readSource hsource⟩

theorem exists_of_read (htree : fs.IsTree) (htable : fs.IsTable)
    (h : read fs language skip dir = .ok files) : ∃ place, fs.directory? dir = some place ∧
      (sources fs language skip dir place).mapM (fun names => readSource fs (dir.below names))
        = .ok files := by
  cases hdir : fs.directory? dir with
  | none =>
    rw [read, hdir] at h
    cases h
  | some place => exact ⟨place, rfl, read_eq htree htable hdir ▸ h⟩

theorem paths_of_mapM {ways : List (List String)}
    (h : ways.mapM (fun names => readSource fs (dir.below names)) = .ok files) :
    files.map (fun f => (⟨f.path⟩ : Path)) = ways.map dir.below := by
  have hall := (Except.mapM_eq_ok_iff.1 h).imp fun _ _ => path_of_readSource
  rw [← List.forall₂_eq_eq_eq, List.forall₂_map_left_iff, List.forall₂_map_right_iff]
  exact hall.flip

/-- Trees read the same if they have the same files, whatever the generated ones are. -/
theorem read_congr (htree : fs.IsTree) (htable : fs.IsTable) (hdir : fs.directory? dir = some place)
    (htree' : fs'.IsTree) (htable' : fs'.IsTable) (hdir' : fs'.directory? dir = some place)
    (hfile : ∀ q content, q.getLast? ≠ some Artifact.generatedFile →
      (fs.at? q = some (.file content) ↔ fs'.at? q = some (.file content))) :
    read fs language skip dir = read fs' language skip dir := by
  have hsources : sources fs language skip dir place = sources fs' language skip dir place := by
    refine (pairwise_sources htable).eq_of_mem_iff (pairwise_sources htable') fun names => ?_
    constructor
    · intro h
      have hlast := getLast?_ne_of_mem_sources htree htable hdir h
      rw [mem_sources htree htable hdir] at h
      rw [mem_sources htree' htable' hdir']
      simpa only [hfile _ _ hlast] using h
    · intro h
      have hlast := getLast?_ne_of_mem_sources htree' htable' hdir' h
      rw [mem_sources htree' htable' hdir'] at h
      rw [mem_sources htree htable hdir]
      simpa only [hfile _ _ hlast] using h
  rw [read_eq htree htable hdir, read_eq htree' htable' hdir', ← hsources]
  refine Except.mapM_congr fun names h => ?_
  obtain ⟨-, -, ⟨content, hcontent⟩, -⟩ := (mem_sources htree htable hdir).1 h
  have hcontent' := (hfile _ _ (getLast?_ne_of_mem_sources htree htable hdir h)).1 hcontent
  have htext := htree.readText_congr htree' (locate_of_mem_sources htree htable hdir h)
    (locate_of_mem_sources htree' htable' hdir' (hsources ▸ h)) (hcontent.trans hcontent'.symm)
  rw [readSource, readSource, htext]

end TaskWrappers.SourceTree
