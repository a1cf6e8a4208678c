import TaskWrappers.CommandLine.Reply
import TaskWrappers.Proofs.FileSystem.Change

/-!
# What a pass does to the disk

A generating pass that succeeds brings the generated file in line with what a check would have
found: it then holds the text that is to be generated, or is gone if there is none. Besides it, only
directories above it are added (`Artifact.Stored`). A file is trusted to hold a text because it has
the text's digest, so the text must not have its digest in common with what the file held before.
Where a pass finds nothing out, and in a check, nothing changes at all (`Generation.run_effect`).
-/

namespace TaskWrappers

open FileSystem (ancestry)

namespace Artifact

/-- The state `after` has the file at a path in line with what is to be generated, and otherwise
differs from the state `before` only by new directories above the file. -/
structure Stored (p : Path) (artifact : Option Artifact) (before after : FileSystem) : Prop where
  text : ∀ a, artifact = some a → after.readText p = .ok a.text
  gone : artifact = none → after.isFile p = false
  directory : after.directory? p = before.directory? p
  kept : ∀ q, after.locate p ≠ .ok q → after.at? q = before.at? q ∨
    (before.at? q = none ∧ ∃ dir ∈ ancestry (p.parent?.getD ⟨""⟩), after.directory? dir = some q)

variable {fs after : FileSystem} {p : Path} {a : Artifact} {status : WriteStatus}

theorem digest_generate {mode : Mode} {tasks : TaskSet} (h : generate mode tasks = some a) :
    a.digest = Digest.ofText a.text := by
  unfold generate at h
  split at h
  · cases h
  · cases h
    rfl

theorem stored_write (htree : fs.IsTree)
    (hdigest : ∀ old, fs.readText p = .ok old → Digest.ofText old = a.digest → old = a.text)
    (h : a.write fs p = (after, .ok status)) : Stored p (some a) fs after := by
  unfold write at h
  split at h
  · rename_i hcurrent
    cases h
    -- nothing is written, so the file must hold the text already
    refine ⟨?_, nofun, rfl, fun _ _ => .inl rfl⟩
    rintro _ ⟨⟩
    unfold isCurrent at hcurrent
    split at hcurrent
    · rename_i old hold
      rw [hold, hdigest old hold (eq_of_beq hcurrent)]
    · cases hcurrent
  · have hextends := htree.extends_makeDirectories (p.parent?.getD ⟨""⟩)
    dsimp only at h
    split at h
    · cases h
    · rename_i made hmade
      rw [hmade] at hextends
      split at h
      · cases h
      · rename_i written hwrite
        cases h
        obtain ⟨place, hkeeps, hlocate, hat⟩ := hextends.isTree.write_spec hwrite
        have hfile : after.directory? p = none :=
          hkeeps.isTree.directory?_eq_none hlocate (by rw [hat, if_pos rfl]; nofun)
        refine ⟨?_, nofun, ?_, fun q hq => ?_⟩
        · rintro _ ⟨⟩
          exact hkeeps.isTree.readText_of_text hlocate (by rw [hat, if_pos rfl])
        · -- a directory in the file's place would have been kept, and nothing written
          rw [hfile, eq_comm, Option.eq_none_iff_forall_ne_some]
          intro q hq
          rw [hkeeps.directory? hextends.isTree (hextends.keeps.directory? htree hq)] at hfile
          cases hfile
        · have hne : q ≠ place := by
            rintro rfl
            exact hq hlocate
          rw [hat, if_neg hne]
          refine (hextends.added q).imp_right fun ⟨hnone, dir, hdir, hmadeDir⟩ => ?_
          exact ⟨hnone, dir, hdir, hkeeps.directory? hextends.isTree hmadeDir⟩

theorem stored_erase (htree : fs.IsTree) (h : erase fs p = (after, .ok status)) :
    Stored p none fs after := by
  unfold erase at h
  split at h
  · rename_i hfile
    split at h
    · cases h
    · rename_i removed hremove
      cases h
      obtain ⟨place, hkeeps, hlocate, hat⟩ := htree.removeFile_spec hfile hremove
      refine ⟨nofun, fun _ => ?_, ?_, fun q hq => .inl ?_⟩
      · rw [Bool.eq_false_iff]
        intro hstill
        obtain ⟨q, content, hq, hcontent⟩ := hkeeps.isTree.isFile_iff.1 hstill
        cases hlocate.symm.trans hq
        rw [hat, if_pos rfl] at hcontent
        cases hcontent
      · obtain ⟨_, _, hfound, hcontent⟩ := htree.isFile_iff.1 hfile
        rw [hkeeps.isTree.directory?_eq_none hlocate (by rw [hat, if_pos rfl]; nofun),
          htree.directory?_eq_none hfound (by rw [hcontent]; nofun)]
      · rw [hat, if_neg]
        rintro rfl
        exact hq hlocate
  · rename_i hfile
    cases h
    exact ⟨nofun, fun _ => Bool.eq_false_iff.2 hfile, rfl, fun _ _ => .inl rfl⟩

theorem stored_store {artifact : Option Artifact} (htree : fs.IsTree)
    (hdigest : ∀ a old, artifact = some a → fs.readText p = .ok old →
      Digest.ofText old = a.digest → old = a.text)
    (h : store fs p artifact = (after, .ok status)) : Stored p artifact fs after := by
  cases artifact with
  | none => exact stored_erase htree h
  | some a => exact stored_write htree (fun old => hdigest a old rfl) h

end Artifact

namespace Analysis

variable {fs : FileSystem} {c : Config} {analysis : Analysis} {a : Artifact}

theorem digest_of_artifact (hrun : run fs c = .ok analysis) (ha : analysis.artifact = some a) :
    a.digest = Digest.ofText a.text := by
  obtain ⟨project, -, hrun⟩ := Except.exists_of_bind_eq_ok hrun
  obtain ⟨language, -, hrun⟩ := Except.exists_of_bind_eq_ok hrun
  obtain ⟨files, -, hrun⟩ := Except.exists_of_bind_eq_ok hrun
  cases hrun
  exact Artifact.digest_generate ha

end Analysis

namespace Generation

variable {fs after : FileSystem} {c : Config} {g : Generation}

theorem run_of_error {e : Failure} (h : Analysis.run fs c = .error e) :
    run fs c = (fs, .error e) := by
  rw [run, h]

theorem run_eq_ok_iff : run fs c = (after, .ok g) ↔
    Analysis.run fs c = .ok g.analysis ∧
      Artifact.store fs c.outputPath g.analysis.artifact = (after, .ok g.status) ∧
        g.output = after.shown c.outputPath := by
  unfold run
  constructor
  · intro h
    split at h
    · cases h
    · rename_i hanalysis
      split at h
      · cases h
      · rename_i hstore
        cases h
        exact ⟨hanalysis, hstore, rfl⟩
  · obtain ⟨analysis, output, status⟩ := g
    rintro ⟨hanalysis, hstore, rfl⟩
    rw [hanalysis]
    dsimp only
    rw [hstore]

theorem run_eq_ok (h : run fs c = (after, .ok g)) :
    Analysis.run fs c = .ok g.analysis ∧
      ∃ status, Artifact.store fs c.outputPath g.analysis.artifact = (after, .ok status) := by
  obtain ⟨hanalysis, hstore, -⟩ := run_eq_ok_iff.1 h
  exact ⟨hanalysis, _, hstore⟩

end Generation

namespace Reply

theorem check_ofWords {fs : FileSystem} {words : List String} {r : Request}
    (hread : Request.read words = .ok r) (hcheck : r.command = .check) :
    (ofWords fs words).1 = fs := by
  rw [ofWords, hread]
  dsimp only [ofRequest]
  split
  · rfl
  · rw [hcheck]

end Reply

/-- What a pass does to a tree without links: a generating one that succeeds, one that finds nothing
out, and a check. -/
theorem Generation.run_effect {fs : FileSystem} {c : Config} (htree : fs.IsTree)
    (hdigest : ∀ analysis a old, Analysis.run fs c = .ok analysis → analysis.artifact = some a →
      fs.readText c.outputPath = .ok old → Digest.ofText old = Digest.ofText a.text →
        old = a.text) :
    (∀ after g, run fs c = (after, .ok g) →
        Analysis.run fs c = .ok g.analysis ∧
          Artifact.Stored c.outputPath g.analysis.artifact fs after) ∧
      (∀ e, Analysis.run fs c = .error e → run fs c = (fs, .error e)) ∧
      ∀ words r, Request.read words = .ok r → r.command = .check →
        (Reply.ofWords fs words).1 = fs := by
  refine ⟨fun after g h => ?_, fun _ => run_of_error, fun _ _ => Reply.check_ofWords⟩
  obtain ⟨hanalysis, status, hstore⟩ := run_eq_ok h
  refine ⟨hanalysis, Artifact.stored_store htree (fun a old ha hold hsame => ?_) hstore⟩
  rw [Analysis.digest_of_artifact hanalysis ha] at hsame
  exact hdigest g.analysis a old hanalysis ha hold hsame

section Ship

/-- A source with one task. -/
def shipSource : String := "class Ship : TaskActivity<int, string> { }"

/-- Where its wrappers go. -/
def shipPlace : Place := ["work", "out", "GeneratedDurableTaskExtensions.cs"]

/-- A tree with that source and a file in the place of its wrappers. -/
def wrappedTree (content : Content) : FileSystem where
  home := ["work"]
  entries := [(["work"], .directory), (["work", "src"], .directory),
    (["work", "src", "Ship.cs"], .file (.text shipSource)), (["work", "out"], .directory),
    (shipPlace, .file content)]

/-- In the place of the wrappers there are bytes that are no text. -/
def shipTree : FileSystem := wrappedTree (.binary [255])

def shipConfig : Config := ⟨⟨"src"⟩, ⟨"out"⟩, none, [], "csharp"⟩

def shipAnalysis : Analysis :=
  .ofFiles ⟨none, [], false⟩ [] [.read "src/Ship.cs" shipSource]

section Wrapped

variable (content : Content)

theorem isTree_wrappedTree : (wrappedTree content).IsTree := by
  refine FileSystem.isTree_of_entries rfl ?_
  simp only [wrappedTree, List.forall_mem_cons]
  exact ⟨⟨rfl, rfl⟩, ⟨rfl, rfl⟩, ⟨rfl, rfl⟩, ⟨rfl, rfl⟩, ⟨rfl, rfl⟩, nofun⟩

theorem names_wrappedTree : (wrappedTree content).names ["work", "src"] = ["Ship.cs"] := by
  have hchildren : ((wrappedTree content).entries.filterMap fun x =>
      FileSystem.child? ["work", "src"] x.1) = ["Ship.cs"] := rfl
  exact (congrArg List.mergeSort hchildren).trans (List.mergeSort_singleton _)

theorem directory?_wrappedTree : (wrappedTree content).directory? ⟨"src"⟩ = some ["work", "src"] :=
  (isTree_wrappedTree content).directory?_eq_some.2 ⟨rfl, rfl⟩

theorem locate_wrappedTree :
    Project.locate (wrappedTree content) none ⟨"src"⟩ = .ok ⟨none, [], false⟩ := by
  have hextension : (Path.join ⟨"src"⟩ ⟨"Ship.cs"⟩).extension? ≠ some "csproj" := by
    decide
  have hnone : Project.filesIn (wrappedTree content) ⟨"src"⟩ = [] := by
    rw [Project.filesIn, FileSystem.namesIn, directory?_wrappedTree, Option.elim, names_wrappedTree]
    simp [hextension]
  rw [Project.locate, hnone]

theorem files_wrappedTree : SourceTree.files (wrappedTree content) [⟨"out"⟩] ⟨"src"⟩ ["work", "src"]
    = [⟨⟨"src/Ship.cs"⟩, ["work", "src", "Ship.cs"], .file (.text shipSource)⟩] := by
  have henter : SourceTree.enter? (wrappedTree content) [["work", "src"]]
      ⟨⟨"src"⟩, ["work", "src"], .directory⟩ "Ship.cs"
        = some ⟨⟨"src/Ship.cs"⟩, ["work", "src", "Ship.cs"], .file (.text shipSource)⟩ := by
    rw [SourceTree.enter?, (isTree_wrappedTree content).follow_eq _ _ _ rfl]
    rfl
  have hdepth : SourceTree.depthLimit (wrappedTree content) = 35 + 1 := rfl
  rw [SourceTree.files, hdepth, SourceTree.walk]
  dsimp only
  rw [names_wrappedTree, List.flatMap_singleton, henter]
  rfl

theorem analysis_wrappedTree :
    Analysis.run (wrappedTree content) shipConfig = .ok shipAnalysis := by
  have hread : SourceTree.read (wrappedTree content) .csharp [⟨"out"⟩] ⟨"src"⟩
      = .ok [.read "src/Ship.cs" shipSource] := by
    have htext : (wrappedTree content).readText ⟨"src/Ship.cs"⟩ = .ok shipSource :=
      (isTree_wrappedTree content).readText_of_text rfl rfl
    have hfile : (wrappedTree content).isFile ⟨"src/Ship.cs"⟩ = true :=
      (isTree_wrappedTree content).isFile_iff.2 ⟨_, _, rfl, rfl⟩
    have hsource : SourceTree.isSource .csharp ⟨"src/Ship.cs"⟩ = true := by decide
    rw [SourceTree.read, directory?_wrappedTree]
    dsimp only
    rw [files_wrappedTree]
    simp only [List.filter_cons, hfile, hsource, Bool.and_self, if_true, List.filter_nil,
      List.mapM_cons, htext]
    rfl
  rw [Analysis.run, shipConfig, locate_wrappedTree]
  show (do
    let files ← SourceTree.read (wrappedTree content) .csharp [⟨"out"⟩] ⟨"src"⟩
    return Analysis.ofFiles ⟨none, [], false⟩ [] files : Except Failure Analysis) = _
  rw [hread]
  rfl

end Wrapped

theorem isTree_shipTree : shipTree.IsTree := isTree_wrappedTree _

/-- The type without members that is all of a file. -/
def onlyType? : List Source.Item → Option Source.TypeForm
  | [.type form []] => some form
  | _ => none

theorem onlyType?_eq_some {items : List Source.Item} {form : Source.TypeForm}
    (h : onlyType? items = some form) : items = [.type form []] := by
  unfold onlyType? at h
  split at h <;> cases h
  rfl

theorem artifact_shipAnalysis : shipAnalysis.artifact.isSome = true := by
  have hcheck : (onlyType? (Source.Tree.read shipSource).items).any (fun form =>
      decide (form.name = "Ship" ∧ form.kind = .class ∧ form.arity = 0 ∧ form.modifiers = [] ∧
        form.bases = ["TaskActivity<int, string>"] ∧ form.extent.start = ⟨0, 0⟩ ∧
        form.extent.stop = ⟨0, 42⟩) && form.attributes.isEmpty) = true := by
    decide +kernel
  have hfile : SourceFile.read "src/Ship.cs" shipSource
      = ⟨"src/Ship.cs", [], [⟨"Ship", .class, none, [], 0, [], [], ["TaskActivity<int, string>"],
          [], [], ⟨"src/Ship.cs", ⟨0, 0⟩, ⟨0, 42⟩⟩⟩],
        (Source.Tree.read shipSource).damage.map (·.toSpan "src/Ship.cs")⟩ := by
    obtain ⟨form, honly, hform⟩ := (Option.any_eq_true _ _).1 hcheck
    obtain ⟨name, kind, arity, modifiers, attributes, bases, start, stop⟩ := form
    rw [Bool.and_eq_true, decide_eq_true_eq, List.isEmpty_iff] at hform
    obtain ⟨⟨rfl, rfl, rfl, rfl, rfl, rfl, rfl⟩, rfl⟩ := hform
    rw [SourceFile.read, SourceFile.ofTree, onlyType?_eq_some honly]
    simp only [Source.usingsOf, Source.typesOf, Source.nestedTypes, Source.TypeForm.toDecl,
      Source.methodsOf, Source.constantsOf]
    rfl
  rw [shipAnalysis, hfile]
  decide +kernel

theorem write_wrappedTree {content : Content} {a : Artifact}
    (hstale : ¬ Artifact.isCurrent (wrappedTree content) shipConfig.outputPath a = true) :
    Artifact.write (wrappedTree content) shipConfig.outputPath a
      = (wrappedTree (.text a.text), .ok .written) := by
  have htree := isTree_wrappedTree content
  have hfound : (wrappedTree content).find shipConfig.outputPath false
      = .ok (.taken shipPlace (.file content)) :=
    (htree.find_eq_taken false).2 ⟨rfl, rfl⟩
  have hout (keepLast : Bool) :
      (wrappedTree content).find ⟨"out"⟩ keepLast = .ok (.taken ["work", "out"] .directory) :=
    (htree.find_eq_taken keepLast).2 ⟨rfl, rfl⟩
  have hmake : (wrappedTree content).makeDirectories (shipConfig.outputPath.parent?.getD ⟨""⟩)
      = (wrappedTree content, .ok ()) := by
    have hancestry : ancestry (shipConfig.outputPath.parent?.getD ⟨""⟩) = [⟨"out"⟩] := by
      decide +kernel
    have hisDirectory : (wrappedTree content).isDirectory ⟨"out"⟩ = true := by
      rw [FileSystem.isDirectory, FileSystem.entry?, hout]
      rfl
    rw [FileSystem.makeDirectories, hancestry, FileSystem.makeDirectories.go,
      FileSystem.makeDirectory, hout]
    exact congrArg (wrappedTree content, ·) (if_pos hisDirectory)
  rw [Artifact.write, if_neg hstale]
  dsimp only
  rw [hmake]
  dsimp only
  rw [FileSystem.write, hfound]
  rfl

theorem readText_wrappedTree (text : String) :
    (wrappedTree (.text text)).readText shipConfig.outputPath = .ok text :=
  (isTree_wrappedTree _).readText_of_text rfl rfl

theorem readText_shipTree : shipTree.readText shipConfig.outputPath = .error .notText := by
  have hfound : shipTree.find shipConfig.outputPath false
      = .ok (.taken shipPlace (.file (.binary [255]))) :=
    (isTree_shipTree.find_eq_taken false).2 ⟨rfl, rfl⟩
  rw [FileSystem.readText, hfound]
  rfl

theorem isCurrent_wrappedTree {a : Artifact} (ha : shipAnalysis.artifact = some a) :
    Artifact.isCurrent (wrappedTree (.text a.text)) shipConfig.outputPath a = true := by
  have hdigest := Analysis.digest_of_artifact (analysis_wrappedTree (.text a.text)) ha
  rw [Artifact.isCurrent, readText_wrappedTree]
  exact beq_iff_eq.2 hdigest.symm

theorem run_wrappedTree {content : Content} {a : Artifact} {status : WriteStatus}
    (ha : shipAnalysis.artifact = some a)
    (hwrite : Artifact.write (wrappedTree content) shipConfig.outputPath a
      = (wrappedTree (.text a.text), .ok status)) :
    Generation.run (wrappedTree content) shipConfig = (wrappedTree (.text a.text),
      .ok ⟨shipAnalysis, (wrappedTree (.text a.text)).shown shipConfig.outputPath, status⟩) := by
  refine Generation.run_eq_ok_iff.2 ⟨analysis_wrappedTree content, ?_, rfl⟩
  rw [ha]
  exact hwrite

theorem run_shipTree {a : Artifact} (ha : shipAnalysis.artifact = some a) :
    Generation.run shipTree shipConfig = (wrappedTree (.text a.text),
      .ok ⟨shipAnalysis, (wrappedTree (.text a.text)).shown shipConfig.outputPath, .written⟩) := by
  refine run_wrappedTree ha (write_wrappedTree ?_)
  change ¬ Artifact.isCurrent shipTree shipConfig.outputPath a = true
  rw [Artifact.isCurrent, readText_shipTree]
  exact Bool.false_ne_true

/-- What stands in the place of the wrappers once they are written is theirs. -/
theorem text_wrappedTree {a b : Artifact} {old : String} (ha : shipAnalysis.artifact = some a)
    (hb : shipAnalysis.artifact = some b)
    (hold : (wrappedTree (.text a.text)).readText shipConfig.outputPath = .ok old) :
    old = b.text := by
  rw [ha] at hb
  cases hb
  rw [readText_wrappedTree] at hold
  exact (Except.ok.inj hold).symm

/-- The pass replaces the bytes by the wrappers of the task, and leaves the source. Another one
finds a file there with the digest of the wrappers, which are what it holds, and changes nothing. -/
theorem Generation.run_effect_shipTree : ∃ after g a, run shipTree shipConfig = (after, .ok g) ∧
    g.analysis.artifact = some a ∧ after.readText shipConfig.outputPath = .ok a.text ∧
      after.at? ["work", "src", "Ship.cs"] = some (.file (.text shipSource)) ∧
      Artifact.isCurrent after shipConfig.outputPath a = true ∧
      run after shipConfig = (after, .ok { g with status := .unchanged }) ∧
      Artifact.Stored shipConfig.outputPath (some a) after after := by
  obtain ⟨a, ha⟩ := Option.isSome_iff_exists.1 artifact_shipAnalysis
  have hcurrent := isCurrent_wrappedTree ha
  have hrun := run_shipTree ha
  have hagain : run (wrappedTree (.text a.text)) shipConfig = _ :=
    run_wrappedTree ha (if_pos hcurrent)
  have hdigest : ∀ analysis b old, Analysis.run shipTree shipConfig = .ok analysis →
      analysis.artifact = some b → shipTree.readText shipConfig.outputPath = .ok old →
        Digest.ofText old = Digest.ofText b.text → old = b.text := by
    intro _ _ _ _ _ htext
    rw [readText_shipTree] at htext
    cases htext
  -- the digests are equal this time, as are the texts
  have hdigestAgain : ∀ analysis b old,
      Analysis.run (wrappedTree (.text a.text)) shipConfig = .ok analysis →
        analysis.artifact = some b →
          (wrappedTree (.text a.text)).readText shipConfig.outputPath = .ok old →
            Digest.ofText old = Digest.ofText b.text → old = b.text := by
    intro analysis b old hanalysis hb htext _
    rw [analysis_wrappedTree] at hanalysis
    cases hanalysis
    exact text_wrappedTree ha hb htext
  obtain ⟨-, hstored⟩ := (run_effect isTree_shipTree hdigest).1 _ _ hrun
  obtain ⟨-, hstoredAgain⟩ :=
    (run_effect (isTree_wrappedTree _) hdigestAgain).1 _ _ hagain
  refine ⟨_, _, a, hrun, ha, hstored.text a ha, ?_, hcurrent, hagain, ha ▸ hstoredAgain⟩
  have hplace : (wrappedTree (.text a.text)).locate shipConfig.outputPath = .ok shipPlace := rfl
  have hother : (wrappedTree (.text a.text)).locate shipConfig.outputPath
      ≠ .ok ["work", "src", "Ship.cs"] := by
    rw [hplace]
    intro h
    exact absurd (Except.ok.inj h) (by decide)
  rcases hstored.kept ["work", "src", "Ship.cs"] hother with hkept | ⟨hnone, -⟩
  · rw [hkept]
    rfl
  · cases hnone

end Ship

end TaskWrappers
