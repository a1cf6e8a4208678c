import TaskWrappers.FileSystem.Basic

/-!
# Failures

Conditions that stop a pass before it has a result.
-/

namespace TaskWrappers

inductive Failure where
  | access (path : Path) (fault : Fault)
  | noSources (path : Path)
  | invalidConfig (path : Path)
  | unknownLanguage (language : String)
  deriving DecidableEq

namespace Failure

def message : Failure → String
  | access path fault => "Failed to access '" ++ path.text ++ "': " ++ fault.message
  | noSources path => "Source directory not found: " ++ path.text
  | invalidConfig path => "Invalid configuration in '" ++ path.text ++ "'"
  | unknownLanguage language => "Unsupported language: " ++ language

def code : Failure → String
  | access .. => "durabletask::io::access_failed"
  | noSources _ => "durabletask::io::source_dir_missing"
  | invalidConfig _ => "durabletask::config::invalid"
  | unknownLanguage _ => "durabletask::frontend::unsupported_language"

def help : Failure → Option String
  | noSources _ => some "Point --source at the directory that contains your .cs files"
  | invalidConfig _ => some "Known keys: source_dir, out_dir, project_file, references, language"
  | access .. | unknownLanguage _ => none

end Failure

end TaskWrappers
