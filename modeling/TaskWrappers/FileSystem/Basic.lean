import TaskWrappers.Path

/-!
# File systems

A file system is a table of what stands at each place, a place being the list of names that lead to
it from the root. A path is followed from the root or from the working directory, through links,
to something that stands there or to a place that is still free.
-/

namespace TaskWrappers

/-- What a file holds: a text, or bytes that are no text. -/
inductive Content where
  | text (s : String)
  | binary (bytes : List UInt8)
  deriving DecidableEq

def Content.ofBytes (bytes : List UInt8) : Content :=
  match String.fromUTF8? ⟨bytes.toArray⟩ with
  | some s => text s
  | none => binary bytes

abbrev Place := List String

inductive Entry where
  | file (content : Content)
  | directory
  | link (target : Path)
  deriving DecidableEq

/-- Why a path could not be used. -/
inductive Fault where
  | notFound
  | alreadyExists
  | notDirectory
  | isDirectory
  | nameTooLong
  | tooManyLinks
  | nulInName
  | notText
  deriving DecidableEq

namespace Fault

def message : Fault → String
  | notFound => "No such file or directory (os error 2)"
  | alreadyExists => "File exists (os error 17)"
  | notDirectory => "Not a directory (os error 20)"
  | isDirectory => "Is a directory (os error 21)"
  | nameTooLong => "File name too long (os error 36)"
  | tooManyLinks => "Too many levels of symbolic links (os error 40)"
  | nulInName => "file name contained an unexpected NUL byte"
  | notText => "stream did not contain valid UTF-8"

end Fault

structure FileSystem where
  home : Place
  entries : List (Place × Entry)

/-- Where a path leads: to an entry, or to a free place in a directory. -/
inductive Spot where
  | taken (place : Place) (entry : Entry)
  | free (place : Place)

namespace FileSystem

/-- The root is always a directory. -/
def at? (fs : FileSystem) (place : Place) : Option Entry :=
  if place.isEmpty then some .directory else fs.entries.lookup place

/-- How many links a path may lead through. -/
def linkLimit : Nat := 40

/-- The steps of a path, with a step on the spot where the path insists on a directory by ending in
a separator or a dot. -/
def stepsOf (p : Path) : List Path.Part :=
  match (Path.segments p.text.toList).getLast? with
  | some [] | some ['.'] => p.steps ++ [.here]
  | _ => p.steps

def maxNameBytes : Nat := 255

def maxPathBytes : Nat := 4096

/-- Follows steps from a directory. A link is followed unless it is the last step and `keepLast` is
set; `links` bounds the number of links followed. -/
def follow (fs : FileSystem) (keepLast : Bool) (links : Nat) (place : Place) :
    List Path.Part → Except Fault Spot
  | [] => .ok (.taken place .directory)
  | .root :: rest => follow fs keepLast links [] rest
  | .here :: rest => follow fs keepLast links place rest
  | .up :: rest => follow fs keepLast links place.dropLast rest
  | .name n :: rest =>
    let next := place ++ [n]
    if maxNameBytes < n.utf8ByteSize then .error .nameTooLong
    else match fs.at? next with
      | some .directory => follow fs keepLast links next rest
      | some (.file c) => if rest.isEmpty then .ok (.taken next (.file c)) else .error .notDirectory
      | some (.link target) =>
        if keepLast && rest.isEmpty then .ok (.taken next (.link target))
        else match links with
          | 0 => .error .tooManyLinks
          | links + 1 => follow fs keepLast links place (stepsOf target ++ rest)
      | none => if rest.isEmpty then .ok (.free next) else .error .notFound
termination_by steps => (links, steps.length)

/-- Where a path leads from the working directory. -/
def find (fs : FileSystem) (p : Path) (keepLast : Bool) : Except Fault Spot :=
  if p.text.isEmpty then .error .notFound
  else if p.text.toList.contains '\x00' then .error .nulInName
  else if maxPathBytes ≤ p.text.utf8ByteSize then .error .nameTooLong
  else fs.follow keepLast linkLimit fs.home (stepsOf p)

def entry? (fs : FileSystem) (p : Path) : Option Entry :=
  match fs.find p false with
  | .ok (.taken _ e) => some e
  | _ => none

def isFile (fs : FileSystem) (p : Path) : Bool :=
  match fs.entry? p with
  | some (.file _) => true
  | _ => false

def isDirectory (fs : FileSystem) (p : Path) : Bool :=
  fs.entry? p == some .directory

def readText (fs : FileSystem) (p : Path) : Except Fault String := do
  match ← fs.find p false with
  | .taken _ (.file (.text s)) => return s
  | .taken _ (.file (.binary _)) => throw .notText
  | .taken _ .directory => throw .isDirectory
  | .taken _ (.link _) => throw .tooManyLinks
  | .free _ => throw .notFound

/-- The name of an entry of the directory at `place`. -/
def child? (place entry : Place) : Option String :=
  match entry.getLast? with
  | some name => if entry.dropLast = place then some name else none
  | none => none

/-- The names in the directory at `place`, in order. -/
def names (fs : FileSystem) (place : Place) : List String :=
  (fs.entries.filterMap fun (p, _) => child? place p).mergeSort fun a b => a ≤ b

/-- The place of a directory that a path leads to. -/
def directory? (fs : FileSystem) (p : Path) : Option Place :=
  match fs.find p false with
  | .ok (.taken place .directory) => some place
  | _ => none

/-- The names in the directory that a path leads to. -/
def namesIn (fs : FileSystem) (p : Path) : List String :=
  (fs.directory? p).elim [] fs.names

/-- The places of all files and links below the working directory, in the order of their paths. No
pass lists them: this is for looking at a file system from outside, to compare two of them. -/
def filePlaces (fs : FileSystem) : List Place :=
  let below := fs.entries.filter fun (p, e) => e != .directory && fs.home.isPrefixOf p
  (below.map (·.1)).mergeSort fun a b => "/".intercalate a ≤ "/".intercalate b

def absolute (place : Place) : Path :=
  ⟨"/" ++ "/".intercalate place⟩

/-- The absolute path without links that a path stands for. -/
def canonical? (fs : FileSystem) (p : Path) : Option Path :=
  match fs.find p false with
  | .ok (.taken place _) => some (absolute place)
  | _ => none

/-- A path as it is shown: from the working directory. -/
def shown (fs : FileSystem) (p : Path) : Path :=
  p.seenFrom fs.home

end FileSystem

end TaskWrappers
