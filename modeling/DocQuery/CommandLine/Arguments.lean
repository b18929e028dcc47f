/-!
# Command line arguments

A command is `query` or `explain` followed by options.  An option takes one
value, in the same word after `=` or in the next word.  A word that begins
with `-` is an option and no value, except after `--limit`, which takes any
word.  Every option but `--index` is given at most once, and `--data` is
required.

An option's value is checked when the next option is met or the words are
at an end, so a word that is out of place is noticed before it.
-/

namespace DocQuery

/-- Why words are no command, or what they ask for instead. -/
inductive UsageError where
  | unknownArgument
  | invalidValue
  | argumentConflict
  | tooManyValues
  | missingRequiredArgument
  | invalidSubcommand
  | missingSubcommand
  | displayHelp
  | displayVersion
deriving DecidableEq, Repr

/-- The name of an error. -/
def UsageError.name : UsageError → String
  | unknownArgument => "UnknownArgument"
  | invalidValue => "InvalidValue"
  | argumentConflict => "ArgumentConflict"
  | tooManyValues => "TooManyValues"
  | missingRequiredArgument => "MissingRequiredArgument"
  | invalidSubcommand => "InvalidSubcommand"
  | missingSubcommand => "DisplayHelpOnMissingArgumentOrSubcommand"
  | displayHelp => "DisplayHelp"
  | displayVersion => "DisplayVersion"

/-- What is to be done. -/
inductive Command where
  | query
  | explain
deriving DecidableEq, Repr

/-- The command that a word names. -/
def Command.ofName? : String → Option Command
  | "query" => some query
  | "explain" => some explain
  | _ => none

/-- The values of the options. -/
structure Arguments where
  data : String
  config : Option String
  filter : Option String
  sort : Option String
  limit : Option String
  indexes : List String
deriving DecidableEq, Repr

/-- An option. -/
inductive Flag where
  | data
  | config
  | filter
  | sort
  | limit
  | index
deriving DecidableEq, Repr

/-- The option of a name. -/
def Flag.ofName? : String → Option Flag
  | "data" => some data
  | "config" => some config
  | "filter" => some filter
  | "sort" => some sort
  | "limit" => some limit
  | "index" => some index
  | _ => none

/-- How a word looks. -/
inductive Word where
  /-- two dashes and nothing else -/
  | separator
  /-- two dashes, a name, and perhaps a value after `=` -/
  | long (name : String) (value : Option String)
  /-- a dash and letters -/
  | short (letter : Char)
  | plain
deriving DecidableEq, Repr

/-- Looks at a word. -/
def Word.of (word : String) : Word :=
  match word.toList with
  | ['-', '-'] => .separator
  | '-' :: '-' :: rest =>
    let value := match rest.dropWhile (· != '=') with
      | [] => none
      | _ :: value => some (String.ofList value)
    .long (String.ofList (rest.takeWhile (· != '='))) value
  | '-' :: letter :: _ => .short letter
  | _ => .plain

namespace Arguments

/-- The values read so far. -/
structure Given where
  data : Option String
  config : Option String
  filter : Option String
  sort : Option String
  limit : Option String
  indexes : List String

/-- No values. -/
def Given.nothing : Given := ⟨none, none, none, none, none, []⟩

/-- A value for an option that may be given once. -/
def once (before : Option String) (value : String) : Except UsageError (Option String) :=
  if before.isSome then .error .argumentConflict else .ok (some value)

/-- A path for an option that may be given once. -/
def path (before : Option String) (value : String) : Except UsageError (Option String) :=
  if before.isSome then .error .argumentConflict
  else if value.isEmpty then .error .invalidValue
  else .ok (some value)

/-- Gives an option its value. -/
def Given.give (g : Given) (flag : Flag) (value : String) : Except UsageError Given :=
  match flag with
  | .data => (path g.data value).map fun v => { g with data := v }
  | .config => (path g.config value).map fun v => { g with config := v }
  | .filter => (once g.filter value).map fun v => { g with filter := v }
  | .sort => (once g.sort value).map fun v => { g with sort := v }
  | .limit => (once g.limit value).map fun v => { g with limit := v }
  | .index => .ok { g with indexes := g.indexes ++ [value] }

/-- The option met last, with its value if that was met too. -/
structure Pending where
  flag : Flag
  value : Option String

/-- Gives the option met last its value; one that has none is an error. -/
def Given.settle (g : Given) : Option Pending → Except UsageError Given
  | none => .ok g
  | some ⟨_, none⟩ => .error .invalidValue
  | some ⟨flag, some value⟩ => g.give flag value

/-- Settles the option met last, and then shows help. -/
def Given.help (g : Given) (pending : Option Pending) : Except UsageError Given :=
  match g.settle pending with
  | .ok _ => .error .displayHelp
  | .error e => .error e

/-- Reads the words of a command. -/
def Given.readAll (g : Given) (pending : Option Pending) : List String → Except UsageError Given
  | [] => g.settle pending
  | word :: rest =>
    match pending, Word.of word with
    | some ⟨.limit, none⟩, _ => g.readAll (some ⟨.limit, some word⟩) rest
    | some ⟨flag, none⟩, .plain => g.readAll (some ⟨flag, some word⟩) rest
    | _, .plain => .error .unknownArgument
    | _, .separator => if rest.isEmpty then g.settle pending else .error .unknownArgument
    | _, .short letter => if letter = 'h' then g.help pending else .error .unknownArgument
    | _, .long "help" none => g.help pending
    | _, .long "help" (some _) => .error .tooManyValues
    | _, .long name value =>
      match Flag.ofName? name with
      | none => .error .unknownArgument
      | some flag => do
        let g ← g.settle pending
        match value with
        | none => g.readAll (some ⟨flag, none⟩) rest
        | some value => (← g.give flag value).readAll none rest

/-- The values of all options, if the required one is among them. -/
def Given.complete (g : Given) : Except UsageError Arguments :=
  match g.data with
  | none => .error .missingRequiredArgument
  | some data => .ok ⟨data, g.config, g.filter, g.sort, g.limit, g.indexes⟩

/-- The arguments of a command. -/
def parse (words : List String) : Except UsageError Arguments := do
  (← Given.nothing.readAll none words).complete

end Arguments

/-- A command and its arguments. -/
structure Invocation where
  command : Command
  arguments : Arguments
deriving DecidableEq, Repr

namespace Invocation

/-- Whether a word may stand in the place of a command. -/
def isSubcommand (word : String) : Bool := (Command.ofName? word).isSome || word == "help"

/-- Help on a command: at most one word, which must be a command. -/
def help : List String → UsageError
  | [] => .displayHelp
  | [word] => if isSubcommand word then .displayHelp else .invalidSubcommand
  | _ => .invalidSubcommand

/-- The first word names the command; the others are its arguments. -/
def parse : List String → Except UsageError Invocation
  | [] => .error .missingSubcommand
  | word :: rest =>
    match Command.ofName? word with
    | some command => (Arguments.parse rest).map (⟨command, ·⟩)
    | none =>
      if word = "help" then .error (help rest)
      else
        match Word.of word with
        | .separator =>
          match rest with
          | [] => .error .missingSubcommand
          | next :: _ => .error (if isSubcommand next then .unknownArgument else .invalidSubcommand)
        | .short 'h' => .error .displayHelp
        | .short 'V' => .error .displayVersion
        | .short _ => .error .unknownArgument
        | .long "help" none => .error .displayHelp
        | .long "version" none => .error .displayVersion
        | .long "help" _ | .long "version" _ => .error .tooManyValues
        | .long _ _ => .error .unknownArgument
        | .plain => .error .invalidSubcommand

end Invocation

end DocQuery
