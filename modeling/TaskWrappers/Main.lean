import TaskWrappers.CommandLine.Reply
import TaskWrappers.FileSystem.Difference

/-!
# Command line

Reads as much of the disk into a file system value as a command line can depend on, answers it, and
brings the disk in line with the file system that the answer leaves behind.
-/

namespace TaskWrappers.Disk

/-- The place of an absolute path without links. -/
def placeOf (absolute : String) : Place :=
  (Path.mk absolute).parts.filterMap fun
    | .name s => some s
    | _ => none

def addSpine (fs : FileSystem) (place : Place) : FileSystem :=
  (FileSystem.empty place).entries.foldl (fun fs (p, e) => fs.put p e) fs

/-- Reads what is at one place, and all that is below it if `deep` is set. -/
partial def load (deep : Bool) (fs : FileSystem) (at_ : IO.FS.DirEntry) : IO FileSystem := do
  let place := placeOf (toString at_.path)
  match (← at_.path.symlinkMetadata).type with
  | .dir =>
    let fs := fs.put place .directory
    if deep then (← at_.path.readDir).foldlM (load deep) fs else return fs
  | .file =>
    let bytes ← IO.FS.readBinFile at_.path
    return fs.put place (.file (.ofBytes bytes.toList))
  | .symlink =>
    let target ← (some <$> IO.FS.realPath at_.path) <|> pure none
    match target with
    | none => return fs.put place (.link ⟨toString at_.path⟩)
    | some target =>
      let known := (fs.at? place).isSome
      let fs := fs.put place (.link ⟨toString target⟩)
      let fs := addSpine fs (placeOf (toString target)).dropLast
      if known then return fs else load deep fs ⟨"/", (toString target).drop 1 |>.toString⟩
  | .other => return fs

/-- Reads what a path leads to, if it leads anywhere, with the directories on the way. -/
def loadPath (deep : Bool) (fs : FileSystem) (p : Path) : IO FileSystem := do
  let onTheWay (fs : FileSystem) (q : Path) : IO FileSystem := do
    let some name := q.fileName? | return fs
    let parent := (q.parent?.map (·.text)).getD ""
    let dir ← IO.FS.realPath (if parent.isEmpty then "." else parent)
    load (deep && q == p) (addSpine fs (placeOf (toString dir))) ⟨dir, name⟩
  (FileSystem.ancestry p).reverse.foldlM (fun fs q => onTheWay fs q <|> pure fs) fs

/-- Reads a directory that a path without a name of its own, such as a dot, leads to. -/
def loadUnnamed (fs : FileSystem) (p : Path) : IO FileSystem := do
  if p.fileName?.isSome then return fs
  let dir ← IO.FS.realPath p.text
  let fs := addSpine fs (placeOf (toString dir))
  (← dir.readDir).foldlM (load true) fs

def snapshot (words : List String) : IO FileSystem := do
  let home := placeOf (toString (← IO.currentDir))
  let fs ← loadPath false (.empty home) ⟨Config.fileName⟩
  match Request.read words with
  | .error _ => return fs
  | .ok r =>
    let fs ← r.configFile.elim (pure fs) (loadPath false fs)
    match r.config fs with
    | .error _ => return fs
    | .ok c =>
      let fs ← loadPath true fs c.sourceDir
      let fs ← loadUnnamed fs c.sourceDir <|> pure fs
      let fs ← c.projectFile.elim (pure fs) (loadPath false fs)
      loadPath false fs c.outputPath

/-- Does on the disk what was done to the file system. -/
def apply (before after : FileSystem) : IO Unit := do
  for (place, entry) in before.differences after do
    let path := (FileSystem.absolute place).text
    match entry with
    | none => IO.FS.removeFile path
    | some .directory => IO.FS.createDirAll path
    | some (.file (.text s)) => IO.FS.writeFile path s
    | some _ => pure ()

def printAll (lines : List String) : IO Unit := lines.forM (IO.println ·)

/-- Repeats the pass whenever something relevant has changed. -/
partial def watch (words : List String) (c : Config) (seen : FileSystem) : IO Unit := do
  IO.sleep 300
  let fs ← snapshot words
  let isRelevant := (seen.differences fs).any fun (place, _) =>
    (FileSystem.absolute place).isRelevant
  if isRelevant then
    let start ← IO.monoMsNow
    let (after, lines) := Reply.regenerate fs c
    apply fs after
    let stop ← IO.monoMsNow
    printAll ([""] ++ lines (stop - start) ++ ["", Report.info "Waiting for changes..."])
    watch words c after
  else watch words c fs

end TaskWrappers.Disk

open TaskWrappers in
def main (words : List String) : IO UInt32 := do
  let start ← IO.monoMsNow
  let before ← Disk.snapshot words
  let (after, reply) := Reply.ofWords before words
  Disk.apply before after
  let stop ← IO.monoMsNow
  Disk.printAll (reply.lines (stop - start))
  reply.errors.forM (IO.eprintln ·)
  if reply.isWatching then
    match Request.read words with
    | .ok r => (r.config after).toOption.elim (pure ()) (Disk.watch words · after)
    | .error _ => pure ()
  return reply.status.toUInt32
