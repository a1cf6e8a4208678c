import Mathlib.Logic.Relation
import TaskWrappers.Proofs.Analysis
import TaskWrappers.Proofs.FileSystem.Make
import TaskWrappers.Proofs.FileSystem.Sound
import TaskWrappers.Proofs.Pass

/-!
# Passes converge

A disk that a pass can work on stays one, however the pass ends (`Config.IsReady.run`), and so it
does through a session of edits and passes (`Config.isReady_of_session`). What a pass makes of such
a disk is settled by the files on it besides the generated one: of two disks with the same files, if
a pass succeeds on one it succeeds on the other with the same result and leaves the same in the
generated file's place. For it can be written wherever it was written on the other disk, since on
the way there only directories can be missing (`Artifact.exists_store`). The disk that a pass leaves
has the same files as the one it found, so a second pass finds nothing left to do
(`Generation.run_converges`).
-/

namespace TaskWrappers

open FileSystem

namespace Artifact

variable {fs after ref : FileSystem} {p : Path} {a : Artifact} {artifact : Option Artifact}

/-! ## What a pass keeps -/

section Keeps

variable (htree : fs.IsTree) (htable : fs.IsTable)
include htree htable

theorem keeps_write : fs.Keeps (a.write fs p).1 ∧ (a.write fs p).1.IsTable := by
  unfold write
  split
  · exact ⟨.refl htree, htable⟩
  · have hkeeps := (htree.extends_makeDirectories (p.parent?.getD ⟨""⟩)).keeps
    have hmadeTable := isTable_makeDirectories htree htable (p.parent?.getD ⟨""⟩)
    dsimp only
    split
    · rename_i hmade
      rw [hmade] at hkeeps hmadeTable
      exact ⟨hkeeps, hmadeTable⟩
    · rename_i hmade
      rw [hmade] at hkeeps hmadeTable
      split
      · exact ⟨hkeeps, hmadeTable⟩
      · rename_i hwrite
        obtain ⟨-, hwritten, -⟩ := hkeeps.isTree.write_spec hwrite
        exact ⟨hkeeps.trans hwritten, isTable_write hkeeps.isTree hmadeTable hwrite⟩

theorem keeps_erase : fs.Keeps (erase fs p).1 ∧ (erase fs p).1.IsTable := by
  unfold erase
  split
  · rename_i hfile
    split
    · exact ⟨.refl htree, htable⟩
    · rename_i hremove
      obtain ⟨-, hkeeps, -⟩ := htree.removeFile_spec hfile hremove
      exact ⟨hkeeps, isTable_removeFile htable hremove⟩
  · exact ⟨.refl htree, htable⟩

theorem keeps_store (p : Path) (artifact : Option Artifact) :
    fs.Keeps (store fs p artifact).1 ∧ (store fs p artifact).1.IsTable := by
  cases artifact with
  | none => exact keeps_erase htree htable
  | some a => exact keeps_write htree htable

end Keeps

/-! ## Where a pass succeeds -/

/-- What is to be generated can be stored wherever it could be on another disk. -/
theorem exists_store (htree : fs.IsTree) (href : ref.IsTree) (hhome : ref.home = fs.home)
    (hfile : artifact ≠ none → ref.isFile p = true)
    (hdirs : ∀ q content, q ≠ fs.goal p → fs.at? q = some (.file content) →
      ref.at? q ≠ some .directory)
    (hfree : fs.at? (fs.goal p) ≠ some .directory) :
    ∃ after status, store fs p artifact = (after, .ok status) := by
  cases artifact with
  | none =>
    rw [store, erase]
    split
    · rename_i hisFile
      obtain ⟨q, content, hq⟩ := htree.isFile_iff.1 hisFile
      have hremove : fs.removeFile p = .ok (fs.clear q) := by
        rw [removeFile, (htree.find_eq_taken true).2 hq]
        rfl
      exact ⟨_, _, by rw [hremove]⟩
    · exact ⟨_, _, rfl⟩
  | some a =>
    obtain ⟨q, old, hq, hold⟩ := href.isFile_iff.1 (hfile (by simp))
    have hgoal : fs.goal p = q := by
      rw [← goal_of_locate hq, goal, goal, hhome]
    have hclear : ∀ place content, fs.at? place = some (.file content) →
        ref.at? place ≠ some .directory := by
      intro place content hat
      by_cases hplace : place = q
      · rw [hplace, hold]
        intro hdir
        cases hdir
      · exact hdirs place content (hgoal ▸ hplace) hat
    obtain ⟨made, after, hmade, hwrite⟩ :=
      htree.exists_write (.text a.text) href hhome hq hold hclear (hgoal ▸ hfree)
    rw [store, write]
    split
    · exact ⟨_, _, rfl⟩
    · dsimp only
      rw [hmade]
      dsimp only
      rw [hwrite]
      exact ⟨_, _, rfl⟩

/-- What is found in the file's place after a pass. -/
theorem Stored.entry_eq (h : Stored p artifact fs after) (htree : fs.IsTree) (hafter : after.IsTree)
    (hfree : fs.at? (fs.goal p) ≠ some .directory) :
    after.entry? p = artifact.map fun a => .file (.text a.text) := by
  cases artifact with
  | some a => exact hafter.entry?_of_readText (h.text a rfl)
  | none =>
    rw [Option.map_none, Option.eq_none_iff_forall_ne_some]
    intro entry hentry
    obtain ⟨q, hq, hat⟩ := hafter.entry?_eq_some.1 hentry
    cases entry with
    | file content =>
      have hfile : after.isFile p = true := hafter.isFile_iff.2 ⟨q, content, hq, hat⟩
      rw [h.gone rfl] at hfile
      cases hfile
    | directory =>
      have hdir : after.directory? p = some q := hafter.directory?_eq_some.2 ⟨hq, hat⟩
      rw [h.directory] at hdir
      obtain ⟨hlocate, hat⟩ := htree.directory?_eq_some.1 hdir
      rw [goal_of_locate hlocate] at hfree
      exact hfree hat
    | link target => exact hafter.noLink q target hat

/-- A pass changes no other file. -/
theorem Stored.sameBut (h : Stored p artifact fs after) (hkeeps : fs.Keeps after) :
    SameBut (fs.goal p) fs after where
  home := hkeeps.home
  file := by
    intro q content hne
    have hother : after.locate p ≠ .ok q := by
      intro hq
      have hgoal := goal_of_locate hq
      rw [goal, hkeeps.home] at hgoal
      exact hne hgoal.symm
    rcases h.kept q hother with hkept | ⟨hnone, dir, -, hdir⟩
    · rw [hkept]
    · rw [hnone, (hkeeps.isTree.directory?_eq_some.1 hdir).2]
      constructor <;> intro heq <;> cases heq

end Artifact

/-! ## Sessions -/

variable {c : Config} {fs fs' after start : FileSystem} {g : Generation}

theorem Config.IsReady.run (h : c.IsReady fs) : c.IsReady (Generation.run fs c).1 := by
  obtain ⟨htree, htable, place, hdir⟩ := h
  unfold Generation.run
  split
  · exact ⟨htree, htable, place, hdir⟩
  · rename_i analysis _
    obtain ⟨hkeeps, hafterTable⟩ :=
      Artifact.keeps_store htree htable c.outputPath analysis.artifact
    split <;> rename_i hstore <;> rw [hstore] at hkeeps hafterTable <;>
      exact ⟨hkeeps.isTree, hafterTable, place, hkeeps.directory? htree hdir⟩

/-- A step of a session: an edit, after which a pass can work on the disk still, or a pass. -/
inductive Config.Step (c : Config) : FileSystem → FileSystem → Prop
  | edit {fs fs' : FileSystem} : c.IsReady fs' → Step c fs fs'
  | pass {fs : FileSystem} : Step c fs (Generation.run fs c).1

theorem Config.isReady_of_step (h : c.IsReady fs) (hstep : c.Step fs fs') : c.IsReady fs' := by
  cases hstep with
  | edit hready => exact hready
  | pass => exact h.run

theorem Config.isReady_of_session (h : c.IsReady start)
    (hsession : Relation.ReflTransGen c.Step start fs) : c.IsReady fs := by
  induction hsession with
  | refl => exact h
  | tail _ hstep ih => exact isReady_of_step ih hstep

namespace Generation

section Converge

variable {start₁ start₂ fs₁ fs₂ after₁ : FileSystem}

/-- What a pass that succeeds leaves: a disk with the same files besides the generated one, which
holds what is to be generated. -/
theorem spec_of_run (hready : c.IsReady fs)
    (hdigest : ∀ a old, g.analysis.artifact = some a → fs.readText c.outputPath = .ok old →
      Digest.ofText old = Digest.ofText a.text → old = a.text)
    (h : run fs c = (after, .ok g)) :
    c.IsReady after ∧ SameBut (fs.goal c.outputPath) fs after ∧
      fs.Keeps after ∧ Artifact.Stored c.outputPath g.analysis.artifact fs after := by
  obtain ⟨hanalysis, hstore, -⟩ := run_eq_ok_iff.1 h
  have hafter := hready.run
  rw [h] at hafter
  obtain ⟨hkeeps, -⟩ :=
    Artifact.keeps_store hready.isTree hready.isTable c.outputPath g.analysis.artifact
  rw [hstore] at hkeeps
  have hstored : Artifact.Stored c.outputPath g.analysis.artifact fs after := by
    refine Artifact.stored_store hready.isTree (fun a old ha hold hsame => ?_) hstore
    rw [Analysis.digest_of_artifact hanalysis ha] at hsame
    exact hdigest a old ha hold hsame
  exact ⟨hafter, hstored.sameBut hkeeps, hkeeps, hstored⟩

/-- A pass over a disk that already is as the pass would leave it leaves it so. -/
theorem run_again (hanalysis : Analysis.run after c = .ok g.analysis)
    (hstored : Artifact.Stored c.outputPath g.analysis.artifact fs after)
    (hshown : g.output = after.shown c.outputPath) :
    ∃ status ∈ [WriteStatus.unchanged, .skipped],
      run after c = (after, .ok { g with status := status }) := by
  cases hartifact : g.analysis.artifact with
  | none =>
    have hnone : ¬ after.isFile c.outputPath = true := by
      rw [hstored.gone hartifact]
      exact Bool.false_ne_true
    refine ⟨.skipped, by simp, run_eq_ok_iff.2 ⟨hanalysis, ?_, hshown⟩⟩
    rw [hartifact, Artifact.store, Artifact.erase, if_neg hnone]
  | some a =>
    have hcurrent : Artifact.isCurrent after c.outputPath a = true := by
      rw [Artifact.isCurrent, hstored.text a hartifact]
      exact beq_iff_eq.2 (Analysis.digest_of_artifact hanalysis hartifact).symm
    refine ⟨.unchanged, by simp, run_eq_ok_iff.2 ⟨hanalysis, ?_, hshown⟩⟩
    rw [hartifact, Artifact.store, Artifact.write, if_pos hcurrent]

/-- Whatever edits and passes two disks went through, if they have the same files besides the
generated one, a pass that succeeds on one of them succeeds on the other with the same result and
leaves the same in the generated file's place. A second pass right after it changes nothing. -/
theorem run_converges (hstart₁ : c.IsReady start₁)
    (hsession₁ : Relation.ReflTransGen c.Step start₁ fs₁) (hstart₂ : c.IsReady start₂)
    (hsession₂ : Relation.ReflTransGen c.Step start₂ fs₂)
    (hsame : SameBut (fs₁.goal c.outputPath) fs₁ fs₂)
    (hfree : ∀ fs ∈ [fs₁, fs₂], fs.at? (fs₁.goal c.outputPath) ≠ some .directory)
    (hproject : ∀ p, c.projectFile = some p →
      fs₁.goal p ≠ fs₁.goal c.outputPath ∧ fs₁.isFile p = fs₂.isFile p)
    (hdigest : ∀ fs ∈ [fs₁, fs₂], ∀ a old, g.analysis.artifact = some a →
      fs.readText c.outputPath = .ok old → Digest.ofText old = Digest.ofText a.text → old = a.text)
    (hrun : run fs₁ c = (after₁, .ok g)) :
    (∃ after₂ status, run fs₂ c = (after₂, .ok { g with status := status }) ∧
      after₂.entry? c.outputPath = after₁.entry? c.outputPath) ∧
      ∃ status ∈ [WriteStatus.unchanged, .skipped],
        run after₁ c = (after₁, .ok { g with status := status }) := by
  have hready₁ := Config.isReady_of_session hstart₁ hsession₁
  have hready₂ := Config.isReady_of_session hstart₂ hsession₂
  have hfree₁ := hfree fs₁ (by simp)
  have hfree₂ : fs₂.at? (fs₂.goal c.outputPath) ≠ some .directory :=
    hsame.goal c.outputPath ▸ hfree fs₂ (by simp)
  obtain ⟨hanalysis, -, hshown⟩ := run_eq_ok_iff.1 hrun
  obtain ⟨hafter₁, hsameAfter, hkeeps₁, hstored₁⟩ :=
    spec_of_run hready₁ (hdigest fs₁ (by simp)) hrun
  refine ⟨?_, ?_⟩
  · have hanalysis₂ : Analysis.run fs₂ c = .ok g.analysis := by
      refine Analysis.run_congr hready₁ hready₂ hsame (fun p hp => ?_) hanalysis
      obtain ⟨hgoal, hfile⟩ := hproject p hp
      exact ⟨hgoal, fun h => hfile ▸ h⟩
    -- the first pass left a file only where it could, and no file of the second disk is in the way
    have hisFile : g.analysis.artifact ≠ none → after₁.isFile c.outputPath = true := by
      intro hsome
      obtain ⟨a, ha⟩ := Option.ne_none_iff_exists'.1 hsome
      obtain ⟨q, hq⟩ :=
        hafter₁.isTree.entry?_eq_some.1 (hafter₁.isTree.entry?_of_readText (hstored₁.text a ha))
      exact hafter₁.isTree.isFile_iff.2 ⟨q, _, hq⟩
    have hdirs : ∀ q content, q ≠ fs₂.goal c.outputPath → fs₂.at? q = some (.file content) →
        after₁.at? q ≠ some .directory := by
      intro q content hne hat
      rw [hsame.goal] at hne
      rw [(hsameAfter.file q content hne).1 ((hsame.file q content hne).2 hat)]
      nofun
    obtain ⟨after₂, status, hstore₂⟩ := Artifact.exists_store hready₂.isTree hafter₁.isTree
      (hkeeps₁.home.trans hsame.home.symm) hisFile hdirs hfree₂
    obtain ⟨hkeeps₂, -⟩ :=
      Artifact.keeps_store hready₂.isTree hready₂.isTable c.outputPath g.analysis.artifact
    rw [hstore₂] at hkeeps₂
    have hrun₂ : run fs₂ c = (after₂, .ok { g with status := status }) := by
      refine run_eq_ok_iff.2 ⟨hanalysis₂, hstore₂, hshown.trans ?_⟩
      rw [FileSystem.shown, FileSystem.shown, hkeeps₁.home, hkeeps₂.home, hsame.home]
    obtain ⟨hafter₂, -, -, hstored₂⟩ :=
      spec_of_run (g := { g with status := status }) hready₂ (hdigest fs₂ (by simp)) hrun₂
    refine ⟨after₂, status, hrun₂, ?_⟩
    rw [hstored₁.entry_eq hready₁.isTree hafter₁.isTree hfree₁,
      hstored₂.entry_eq hready₂.isTree hafter₂.isTree hfree₂]
  · have hagain : Analysis.run after₁ c = .ok g.analysis := by
      refine Analysis.run_congr hready₁ hafter₁ hsameAfter (fun p hp => ?_) hanalysis
      obtain ⟨hgoal, -⟩ := hproject p hp
      exact ⟨hgoal, hsameAfter.isFile hready₁.isTree hkeeps₁ hgoal⟩
    exact run_again hagain hstored₁ hshown

end Converge

section Ship

/-- The tree with one source before any pass. -/
def sourceTree : FileSystem where
  home := ["work"]
  entries := [(["work"], .directory), (["work", "src"], .directory),
    (["work", "src", "Ship.cs"], .file (.text shipSource))]

theorem isTable_shipTree : shipTree.IsTable := ⟨by decide, by decide⟩

theorem isReady_shipTree : shipConfig.IsReady shipTree :=
  ⟨isTree_shipTree, isTable_shipTree, _, directory?_wrappedTree _⟩

theorem isReady_sourceTree : shipConfig.IsReady sourceTree := by
  have htree : sourceTree.IsTree := isTree_of_entries rfl (by decide)
  exact ⟨htree, ⟨by decide, by decide⟩, ["work", "src"],
    htree.directory?_eq_some.2 ⟨rfl, rfl⟩⟩

theorem sameBut_shipTree : SameBut shipPlace shipTree sourceTree where
  home := rfl
  file := by
    intro q content hne
    by_cases hroot : q = []
    · subst hroot
      constructor <;> nofun
    · rw [isTable_shipTree.at?_eq_some_iff hroot, isReady_sourceTree.isTable.at?_eq_some_iff hroot]
      simp [shipTree, wrappedTree, sourceTree, hne]

theorem readText_sourceTree : sourceTree.readText shipConfig.outputPath = .error .notFound := by
  have hnone : sourceTree.locate shipConfig.outputPath = .error .notFound := rfl
  rw [readText, isReady_sourceTree.isTree.find_eq, hnone]
  rfl

/-- The pass over the tree where the generated file holds no text, over the one without it and over
the one where it holds what is to be generated already. -/
theorem run_converges_shipTree : ∃ after₁ g, run shipTree shipConfig = (after₁, .ok g) ∧
    (∀ fs₂ ∈ [sourceTree, after₁], ∃ after₂ status,
      run fs₂ shipConfig = (after₂, .ok { g with status := status }) ∧
        after₂.entry? shipConfig.outputPath = after₁.entry? shipConfig.outputPath) ∧
      ∃ a, g.analysis.artifact = some a ∧
        after₁.readText shipConfig.outputPath = .ok a.text ∧
          run after₁ shipConfig = (after₁, .ok { g with status := .unchanged }) := by
  obtain ⟨a, ha⟩ := Option.isSome_iff_exists.1 artifact_shipAnalysis
  have hgoal : shipTree.goal shipConfig.outputPath = shipPlace := by decide
  have hrun := run_shipTree ha
  have hagain : run (wrappedTree (.text a.text)) shipConfig = _ :=
    run_wrappedTree ha (if_pos (isCurrent_wrappedTree ha))
  -- what the trees hold in the generated file's place is no text, nothing or what belongs there
  have htext : ∀ fs ∈ [shipTree, sourceTree, wrappedTree (.text a.text)], ∀ b old,
      shipAnalysis.artifact = some b → fs.readText shipConfig.outputPath = .ok old →
        Digest.ofText old = Digest.ofText b.text → old = b.text := by
    intro fs hfs b old hb hold _
    rcases List.mem_cons.1 hfs with rfl | hfs
    · rw [readText_shipTree] at hold
      cases hold
    · rcases List.mem_pair.1 hfs with rfl | rfl
      · rw [readText_sourceTree] at hold
        cases hold
      · exact text_wrappedTree ha hb hold
  have hfree : ∀ fs ∈ [shipTree, sourceTree, wrappedTree (.text a.text)],
      fs.at? (shipTree.goal shipConfig.outputPath) ≠ some .directory := by
    rw [hgoal]
    simp only [List.forall_mem_cons]
    exact ⟨nofun, nofun, nofun, nofun⟩
  obtain ⟨hready₁, hsame₁, -⟩ := spec_of_run isReady_shipTree (htext shipTree (by simp)) hrun
  refine ⟨_, _, hrun, fun fs₂ hfs₂ => ?_, a, ha, readText_wrappedTree _, hagain⟩
  have hmem : ∀ fs ∈ [shipTree, fs₂], fs ∈ [shipTree, sourceTree, wrappedTree (.text a.text)] :=
    List.forall_mem_cons.2 ⟨by simp, List.forall_mem_singleton.2 (List.mem_cons_of_mem _ hfs₂)⟩
  have hedited : shipConfig.IsReady fs₂ ∧
      SameBut (shipTree.goal shipConfig.outputPath) shipTree fs₂ := by
    rcases List.mem_pair.1 hfs₂ with rfl | rfl
    · exact ⟨isReady_sourceTree, hgoal ▸ sameBut_shipTree⟩
    · exact ⟨hready₁, hsame₁⟩
  exact (run_converges isReady_shipTree .refl isReady_shipTree (.single (.edit hedited.1)) hedited.2
    (fun fs hfs => hfree fs (hmem fs hfs)) nofun (fun fs hfs => htext fs (hmem fs hfs)) hrun).1

end Ship

section Props

/-- A tree with a project file, an empty source directory and some more entries. -/
def projectTree (more : List (Place × Entry)) : FileSystem where
  home := ["work"]
  entries := [(["work"], .directory), (["work", "App.csproj"], .file (.text "<Project />")),
    (["work", "src"], .directory)] ++ more

def projectConfig : Config := ⟨⟨"src"⟩, ⟨"out"⟩, some ⟨"props/../App.csproj"⟩, [], "csharp"⟩

def projectAnalysis : Analysis := .ofFiles ⟨some "props/../App.csproj", [], false⟩ [] []

/-- An empty directory. -/
def props : Place × Entry := (["work", "props"], .directory)

theorem isReady_projectTree : ∀ more ∈ [[props], []], projectConfig.IsReady (projectTree more) := by
  have hentries : ∀ more ∈ [[props], []], (projectTree more).at? ["work"] = some .directory ∧
      ∀ x ∈ (projectTree more).entries, (projectTree more).at? x.1.dropLast = some .directory ∧
        x.2.isLink = false := by decide
  have hnodup : ∀ more ∈ [[props], []], ((projectTree more).entries.map Prod.fst).Nodup := by
    decide
  have hnames : ∀ more ∈ [[props], []], ∀ x ∈ (projectTree more).entries, ∀ name ∈ x.1,
      IsEntryName name := by decide
  intro more hmore
  obtain ⟨hhome, hrows⟩ := hentries more hmore
  have htree : (projectTree more).IsTree := isTree_of_entries hhome hrows
  exact ⟨htree, ⟨hnodup more hmore, hnames more hmore⟩, ["work", "src"],
    htree.directory?_eq_some.2 ⟨rfl, rfl⟩⟩

theorem read_projectTree :
    SourceTree.read (projectTree [props]) .csharp [projectConfig.outDir] projectConfig.sourceDir
      = .ok [] := by
  obtain ⟨htree, htable, place, hdir⟩ := isReady_projectTree [props] (by simp)
  have hplace : place = ["work", "src"] := (goal_of_locate (htree.directory?_eq_some.1 hdir).1).symm
  subst hplace
  have hnone : SourceTree.sources (projectTree [props]) .csharp [projectConfig.outDir]
      projectConfig.sourceDir ["work", "src"] = [] := by
    refine List.eq_nil_iff_forall_not_mem.2 fun names h => ?_
    obtain ⟨-, -, ⟨content, hcontent⟩, -⟩ := (SourceTree.mem_sources htree htable hdir).1 h
    have hentry := mem_entries (by simp) hcontent
    simp [projectTree, props] at hentry
  rw [SourceTree.read_eq htree htable hdir, hnone]
  rfl

theorem run_projectTree :
    ∃ g, run (projectTree [props]) projectConfig = (projectTree [props], .ok g) := by
  have htree := (isReady_projectTree [props] (by simp)).isTree
  have htext : (projectTree [props]).readText ⟨"props/../App.csproj"⟩ = .ok "<Project />" :=
    htree.readText_of_text (q := ["work", "App.csproj"]) rfl rfl
  have hproject : Project.locate (projectTree [props]) projectConfig.projectFile
      projectConfig.sourceDir = .ok ⟨some "props/../App.csproj", [], false⟩ := by
    rw [projectConfig, Project.locate, Project.load, htext]
    exact congrArg Except.ok (by decide +kernel)
  have hlanguage : Language.find projectConfig.language = .ok .csharp := rfl
  have hanalysis : Analysis.run (projectTree [props]) projectConfig = .ok projectAnalysis := by
    rw [Analysis.run, hproject, hlanguage]
    exact congrArg (fun files => files >>= fun files =>
      .ok (Analysis.ofFiles ⟨some "props/../App.csproj", [], false⟩ [] files)) read_projectTree
  have hartifact : projectAnalysis.artifact = none := by decide
  have hnone : (projectTree [props]).at?
      ((projectTree [props]).goal projectConfig.outputPath) = none := by
    decide
  have hfile : ¬ (projectTree [props]).isFile projectConfig.outputPath = true := by
    intro hfile
    obtain ⟨q, content, hq, hat⟩ := htree.isFile_iff.1 hfile
    rw [goal_of_locate hq, hat] at hnone
    cases hnone
  refine ⟨⟨projectAnalysis, _, .skipped⟩, run_eq_ok_iff.2 ⟨hanalysis, ?_, rfl⟩⟩
  rw [hartifact, Artifact.store, Artifact.erase, if_neg hfile]

/-- Of two trees with the same files a pass succeeds on one and fails on the other, since the way to
the project file goes through an empty directory. -/
theorem run_diverges_projectTree :
    projectConfig.IsReady (projectTree [props]) ∧ projectConfig.IsReady (projectTree []) ∧
      SameBut ((projectTree []).goal projectConfig.outputPath) (projectTree [props])
        (projectTree []) ∧
      (∀ more ∈ [[props], []], (projectTree more).goal ⟨"props/../App.csproj"⟩
          ≠ (projectTree more).goal projectConfig.outputPath ∧
        (projectTree more).at? ((projectTree more).goal projectConfig.outputPath) = none) ∧
      (∃ g, run (projectTree [props]) projectConfig = (projectTree [props], .ok g)) ∧
      ∃ e, run (projectTree []) projectConfig = (projectTree [], .error e) := by
  have hready := isReady_projectTree [props] (by simp)
  have hready' := isReady_projectTree [] (by simp)
  refine ⟨hready, hready', ⟨rfl, fun q content _ => ?_⟩, by decide, ?_, ?_⟩
  · by_cases hroot : q = []
    · subst hroot
      constructor <;> nofun
    · rw [hready.isTable.at?_eq_some_iff hroot, hready'.isTable.at?_eq_some_iff hroot]
      simp [projectTree, props]
  · exact run_projectTree
  · have hnone : (projectTree []).locate ⟨"props/../App.csproj"⟩ = .error .notFound := rfl
    have hproject : Project.locate (projectTree []) projectConfig.projectFile
        projectConfig.sourceDir = .error (.access ⟨"props/../App.csproj"⟩ .notFound) := by
      rw [projectConfig, Project.locate, Project.load, readText, hready'.isTree.find_eq, hnone]
      rfl
    refine ⟨.access ⟨"props/../App.csproj"⟩ .notFound, run_of_error ?_⟩
    rw [Analysis.run, hproject]
    rfl

end Props

end Generation

end TaskWrappers
