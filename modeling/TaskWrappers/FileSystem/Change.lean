import TaskWrappers.FileSystem.Basic

/-!
# Changes to a file system

Each change succeeds with the changed file system or fails and leaves things as they were, except
that directories made on the way to one that cannot be made stay.

A pass makes directories and writes and removes files. Links and the removal of whole directories
are what others do to a file system between two passes, and are here to set one up.
-/

namespace TaskWrappers.FileSystem

/-- A file system with nothing but its working directory. -/
def empty (home : Place) : FileSystem :=
  ⟨home, (List.range home.length).map fun n => (home.take (n + 1), .directory)⟩

def put (fs : FileSystem) (place : Place) (entry : Entry) : FileSystem :=
  { fs with entries := fs.entries.filter (·.1 != place) ++ [(place, entry)] }

/-- Takes away what stands at a place with everything below it. -/
def clear (fs : FileSystem) (place : Place) : FileSystem :=
  { fs with entries := fs.entries.filter fun (p, _) => !place.isPrefixOf p }

def makeDirectory (fs : FileSystem) (p : Path) : Except Fault FileSystem := do
  match ← fs.find p true with
  | .taken .. => throw .alreadyExists
  | .free place => return fs.put place .directory

/-- The path and the paths above it, nearest first, as far as they have a text. -/
def ancestry (p : Path) : List Path :=
  go (p.text.length + 1) p
where
  go : Nat → Path → List Path
    | 0, _ => []
    | n + 1, p => if p.text.isEmpty then [] else p :: (p.parent?.elim [] (go n))

/-- Makes a directory where there is none. Of the ones above it those are made that are missing. -/
def makeDirectories (fs : FileSystem) (p : Path) : FileSystem × Except Fault Unit :=
  go fs (ancestry p)
where
  go (fs : FileSystem) : List Path → FileSystem × Except Fault Unit
    | [] => (fs, .ok ())
    | p :: outer =>
      match fs.makeDirectory p with
      | .ok made => (made, .ok ())
      | .error .notFound =>
        match go fs outer with
        | (fs, .error e) => (fs, .error e)
        | (fs, .ok ()) => ensure fs p
      | .error e => (fs, if fs.isDirectory p then .ok () else .error e)
  ensure (fs : FileSystem) (p : Path) : FileSystem × Except Fault Unit :=
    match fs.makeDirectory p with
    | .ok made => (made, .ok ())
    | .error e => (fs, if fs.isDirectory p then .ok () else .error e)

def write (fs : FileSystem) (p : Path) (content : Content) : Except Fault FileSystem := do
  match ← fs.find p false with
  | .taken _ .directory => throw .isDirectory
  | .taken place _ | .free place => return fs.put place (.file content)

/-- Makes a link, which no pass does. -/
def makeLink (fs : FileSystem) (p target : Path) : Except Fault FileSystem := do
  match ← fs.find p true with
  | .taken .. => throw .alreadyExists
  | .free place => return fs.put place (.link target)

/-- Removes a file; of a link only the link itself. -/
def removeFile (fs : FileSystem) (p : Path) : Except Fault FileSystem := do
  match ← fs.find p true with
  | .taken _ .directory => throw .isDirectory
  | .taken place _ => return fs.clear place
  | .free _ => throw .notFound

/-- Removes what a path leads to with everything below it, which no pass does; of a link only the
link itself. -/
def removeAll (fs : FileSystem) (p : Path) : Except Fault FileSystem := do
  match ← fs.find p true with
  | .taken place _ => return fs.clear place
  | .free _ => throw .notFound

end TaskWrappers.FileSystem
