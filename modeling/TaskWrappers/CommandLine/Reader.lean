import TaskWrappers.CommandLine.Basic

/-!
# Reading command lines

Words are read from left to right. Flags before the command are read on one level and flags after
it on another; those that are known on both count where they stand last. A flag's value may be
joined on to the flag or be the word that follows, and what a flag is given is looked at only when
the next flag or the end is reached, so of two faults the one further right may win.
-/

namespace TaskWrappers

inductive Flag where
  | config
  | verbose
  | help
  | version
  | source
  | out
  | project
  | reference
  | language
  | json
  deriving DecidableEq

namespace Flag

def long : Flag → String
  | config => "config"
  | verbose => "verbose"
  | help => "help"
  | version => "version"
  | source => "source"
  | out => "out"
  | project => "project"
  | reference => "reference"
  | language => "language"
  | json => "json"

def short? : Flag → Option Char
  | verbose => some 'v'
  | help => some 'h'
  | version => some 'V'
  | source => some 's'
  | out => some 'o'
  | project => some 'p'
  | reference => some 'r'
  | language => some 'l'
  | config | json => none

def takesValue : Flag → Bool
  | config | source | out | project | reference | language => true
  | verbose | help | version | json => false

def takesPath : Flag → Bool
  | config | source | out | project => true
  | _ => false

def mayRepeat : Flag → Bool
  | verbose | reference => true
  | _ => false

/-- The flags known before a command, and those known after it. -/
def known : Option Command → List Flag
  | none => [config, verbose, help, version]
  | some .check => [config, verbose, help, source, out, project, reference, language, json]
  | some _ => [config, verbose, help, source, out, project, reference, language]

end Flag

/-- Why a command line is no request. -/
inductive UsageError where
  | helpAsked
  | versionAsked
  | nothingAsked
  | missingCommand
  | unknownCommand
  | unknownFlag
  | missingValue
  | unwantedValue
  | repeatedFlag
  deriving DecidableEq

/-- A flag whose value has not been looked at, or has still to come. -/
inductive Pending where
  | awaiting (flag : Flag)
  | holding (flag : Flag) (value : String)

/-- The flags read on one level, in reverse, with the one that is pending. -/
structure Level where
  command : Option Command
  given : List (Flag × String)
  pending : Option Pending

namespace Level

def start (command : Option Command) : Level := ⟨command, [], none⟩

def has (l : Level) (flag : Flag) : Bool :=
  l.given.any (·.1 == flag)

def value? (l : Level) (flag : Flag) : Option String :=
  l.given.lookup flag

def values (l : Level) (flag : Flag) : List String :=
  (l.given.reverse.filter (·.1 == flag)).map (·.2)

def add (l : Level) (flag : Flag) (value : String) : Except UsageError Level :=
  if flag = .help then .error .helpAsked
  else if flag = .version then .error .versionAsked
  else if !flag.mayRepeat && l.has flag then .error .repeatedFlag
  else if flag.takesPath && value.isEmpty then .error .missingValue
  else .ok { l with given := (flag, value) :: l.given }

/-- Looks at the pending flag. -/
def settle (l : Level) : Except UsageError Level :=
  let settled := { l with pending := none }
  match l.pending with
  | none => .ok settled
  | some (.awaiting _) => .error .missingValue
  | some (.holding flag value) => settled.add flag value

def give (l : Level) (flag : Flag) (value : String) : Except UsageError Level := do
  (← l.settle).add flag value

/-- Leaves a flag to wait for the next word. -/
def await (l : Level) (flag : Flag) : Except UsageError Level := do
  return { (← l.settle) with pending := some (.awaiting flag) }

/-- Reads a word after two dashes. -/
def long (l : Level) (word : List Char) : Except UsageError Level :=
  let name := String.ofList (word.takeWhile (· != '='))
  let joined := (Text.cut? (· == '=') word).map (·.2)
  match (Flag.known l.command).find? (·.long == name), joined with
  | none, _ => .error .unknownFlag
  | some flag, none => if flag.takesValue then l.await flag else l.give flag ""
  | some flag, some value =>
    if flag.takesValue then l.give flag (.ofList value) else .error .unwantedValue

/-- Reads the letters after one dash. -/
def shorts (l : Level) : List Char → Except UsageError Level
  | [] => .ok l
  | c :: rest =>
    match (Flag.known l.command).find? (·.short? == some c) with
    | none => .error .unknownFlag
    | some flag =>
      if !flag.takesValue then do (← l.give flag "").shorts rest
      else match rest with
        | [] => l.await flag
        | '=' :: value | value => l.give flag (.ofList value)

/-- Reads a word that is no command, before any word that stands behind two dashes. -/
def word (l : Level) (w : String) : Except UsageError Level :=
  match w.toList with
  | '-' :: '-' :: cs => l.long cs
  | '-' :: c :: cs => l.shorts (c :: cs)
  | _ =>
    match l.pending with
    | some (.awaiting flag) => .ok { l with pending := some (.holding flag w) }
    | _ => .error (if l.command.isSome then .unknownFlag else .unknownCommand)

def isAwaiting (l : Level) : Bool :=
  match l.pending with
  | some (.awaiting _) => true
  | _ => false

/-- Reads the words after a command. Words behind two dashes would be operands, and there are
none. -/
def readAll (l : Level) : List String → Except UsageError Level
  | [] => l.settle
  | "--" :: [] => l.settle
  | "--" :: _ :: _ => .error .unknownFlag
  | w :: rest => do (← l.word w).readAll rest

end Level

namespace Request

def helpName : String := "help"

def maxVerbosity : Nat := 255

/-- What two levels of flags ask for. -/
def ofLevels (command : Command) (outer inner : Level) : Request where
  command := command
  configFile := ((inner.value? .config).or (outer.value? .config)).map Path.mk
  verbosity :=
    let count (l : Level) := (l.values .verbose).length
    min maxVerbosity (if count inner = 0 then count outer else count inner)
  asJson := inner.has .json
  overrides :=
    { sourceDir := (inner.value? .source).map Path.mk
      outDir := (inner.value? .out).map Path.mk
      projectFile := (inner.value? .project).map Path.mk
      references := inner.values .reference
      language := inner.value? .language }

/-- Words behind two dashes before any command. -/
def operands (outer : Level) : List String → UsageError
  | [] =>
    match outer.settle with
    | .error e => e
    | .ok outer => if outer.given.isEmpty then .nothingAsked else .missingCommand
  | w :: _ =>
    if w = helpName || (Command.ofName? w).isSome then .unknownFlag else .unknownCommand

/-- Help is asked for a command or for none. -/
def helpFor : List String → UsageError
  | [] => .helpAsked
  | [w] => if w = helpName || (Command.ofName? w).isSome then .helpAsked else .unknownCommand
  | _ => .unknownCommand

def readFrom (outer : Level) : List String → Except UsageError Request
  | [] => .error (operands outer [])
  | w :: rest =>
    if !outer.isAwaiting && w = helpName then .error (helpFor rest)
    else match if outer.isAwaiting then none else Command.ofName? w with
      | some command => do
        let inner ← (Level.start (some command)).readAll rest
        return ofLevels command (← outer.settle) inner
      | none =>
        if w = "--" then .error (operands outer rest)
        else do readFrom (← outer.word w) rest

def read (words : List String) : Except UsageError Request :=
  readFrom (.start none) words

end Request

end TaskWrappers
