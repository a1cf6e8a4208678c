import TaskWrappers.FileSystem.Basic

/-!
# Differences between file systems

What has to be done at which places to turn one file system into another.
-/

namespace TaskWrappers.FileSystem

/-- The places at which two file systems differ, with what stands there in the second. -/
def differences (before after : FileSystem) : List (Place × Option Entry) :=
  let gone := before.entries.filter fun (place, _) => (after.at? place).isNone
  let new := after.entries.filter fun (place, entry) => before.at? place != some entry
  gone.map (fun (place, _) => (place, none)) ++ new.map fun (place, entry) => (place, some entry)

end TaskWrappers.FileSystem
