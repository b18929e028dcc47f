import DocQuery.CommandLine.Options
import DocQuery.Config
import DocQuery.Filter.Decode
import DocQuery.Index.Catalog
import DocQuery.Query.Basic

/-!
# Running a command

A command reads its configuration, then its data, then its filter, and
stops at the first that is unusable.  A query writes each document it finds
as one line of JSON, an explanation is written as one object, and a failure
as another.  What is logged depends on the level that the configuration
sets, from then on.
-/

namespace DocQuery

/-- Why a file was not read. -/
inductive ReadError where
  | notFound
  | isDirectory
  | notDirectory
  | denied
  | notUtf8
  | other (reason : String)
deriving DecidableEq, Repr

/-- The error in the words of the operating system. -/
def ReadError.message : ReadError → String
  | notFound => "No such file or directory (os error 2)"
  | isDirectory => "Is a directory (os error 21)"
  | notDirectory => "Not a directory (os error 20)"
  | denied => "Permission denied (os error 13)"
  | notUtf8 => "stream did not contain valid UTF-8"
  | other reason => reason

/-- Why a command failed. -/
inductive Failure where
  | configUnreadable (e : ReadError)
  | config (e : ConfigError)
  | emptyIndexField
  | dataUnreadable (path : String) (e : ReadError)
  | malformedData
  | dataNotAnObject
  | malformedFilter
  | filter (e : FilterError)
  | fault (f : Fault)
deriving DecidableEq, Repr

namespace Failure

/-- The code of a failure. -/
def code : Failure → String
  | configUnreadable _ | config _ => "AERO_CLI_CONFIG_ERROR"
  | dataUnreadable _ _ => "AERO_CLI_IO_ERROR"
  | fault f => f.code
  | _ => "AERO_CLI_INVALID_INPUT"

/-- The failure in words. -/
def message : Failure → String
  | configUnreadable e => "Failed to read config: " ++ e.message
  | config e => e.message
  | emptyIndexField => "--index requires a non-empty field"
  | dataUnreadable path e => "Failed to read " ++ path ++ ": " ++ e.message
  | malformedData => "Invalid data JSON: " ++ ConfigError.malformedText
  | dataNotAnObject => "Data file must hold a JSON object of \x7bid: document\x7d"
  | malformedFilter => "Invalid filter JSON: " ++ ConfigError.malformedText
  | filter e => e.code ++ ": " ++ e.message
  | fault f => f.report

/-- The line that tells of an error. -/
def envelope (code message : String) : String :=
  (Json.object [("status", .string "error"), ("code", .string code),
    ("message", .string message)]).render ++ "\n"

end Failure

/-- What the files of a command are: their text, or why they have none. -/
abbrev Files := String → Except ReadError String

namespace Invocation

/-- The configuration of a command. -/
def config (a : Arguments) (files : Files) : Except Failure Config :=
  match a.config with
  | none => .ok .default
  | some path =>
    match files path with
    | .error e => .error (.configUnreadable e)
    | .ok text => (Config.parse text).mapError .config

/-- The fields to index: those of the configuration, then those of the
command, each once. -/
def indexedFields (c : Config) (a : Arguments) : List String :=
  (c.indexedFields ++ a.indexes).foldl
    (fun fields f => if fields.contains f then fields else fields ++ [f]) []

/-- The documents of a data file. -/
def documents (path : String) (files : Files) : Except Failure (List (String × Document)) :=
  match files path with
  | .error e => .error (.dataUnreadable path e)
  | .ok text =>
    match Json.parse? text with
    | none => .error .malformedData
    | some (.object members) => .ok members
    | some _ => .error .dataNotAnObject

/-- The filter of a command. -/
def filterOf (a : Arguments) : Except Failure Filter :=
  match a.filter with
  | none => .ok .all
  | some text =>
    match Json.parse? text with
    | none => .error .malformedFilter
    | some j => (Filter.ofJson? j).mapError .filter

/-- What a command has written, what it has logged, and whether it failed. -/
structure Outcome where
  stdout : String
  log : List Event
  failure : Option Failure

namespace Outcome

/-- A command that failed before it wrote anything. -/
def failed (log : List Event) (f : Failure) : Outcome := ⟨"", log, some f⟩

/-- The outcome with only those events that are serious enough. -/
def logging (o : Outcome) (least : Severity) : Outcome :=
  { o with log := o.log.filter fun e => least.admits e.severity }

end Outcome

/-- The lines of the documents before the first fault, and that fault. -/
def written : List (Except Fault Document) → List String × Option Fault
  | [] => ([], none)
  | .error fault :: _ => ([], some fault)
  | .ok document :: rest =>
    let (lines, fault) := written rest
    ((document.render ++ "\n") :: lines, fault)

/-- Runs a query over a world. -/
def runQuery (w : World) (filter : Filter) (options : Options) (queryId : String) : Outcome :=
  let (q, j) := Query.create filter options queryId w.now .blank
  let batch := q.pullAll w j
  let events := (batch.query.drop batch.journal).events
  match written batch.items with
  | (lines, some fault) => ⟨String.join lines, events, some (.fault fault)⟩
  | (lines, none) =>
    ⟨String.join lines,
      events ++ [⟨.info, "CLI_QUERY_COMPLETE", [("results", toString lines.length)]⟩], none⟩

/-- Explains a query over a world. -/
def runExplain (w : World) (filter : Filter) (options : Options) : Outcome :=
  match (Plan.choose w.index w.store filter options).outcome with
  | .error fault => .failed [] (.fault fault)
  | .ok plan =>
    let data := (plan.explain options).toJson
    ⟨(Json.object [("status", .string "ok"), ("data", data)]).render ++ "\n", [], none⟩

/-- Runs a command over a store of documents, once everything is read. -/
def runOver (command : Command) (c : Config) (fields : List String) (store : Store)
    (filter : Filter) (options : Options) (queryId : String) : Outcome :=
  match (Catalog.ofFields fields).rebuild (store.view.scan .everything) with
  | .error fault => .failed [] (.fault fault)
  | .ok (catalog, n) =>
    let w : World := ⟨catalog.index, store.view, fun _ => false, c.resolverConcurrency, 0⟩
    let o := match command with
      | .query => runQuery w filter options queryId
      | .explain => runExplain w filter options
    { o with log := .indexRebuilt n :: o.log }

/-- Runs a command once its configuration is read. -/
def runWith (i : Invocation) (c : Config) (files : Files) (queryId : String) : Outcome :=
  let fields := indexedFields c i.arguments
  if fields.any String.isEmpty then .failed [] .emptyIndexField
  else
    match documents i.arguments.data files with
    | .error f => .failed [] f
    | .ok members =>
      let loaded : Event :=
        ⟨.trace, "CLI_DATA_LOADED", [("documents", toString members.length)]⟩
      match filterOf i.arguments with
      | .error f => .failed [loaded] f
      | .ok filter =>
        let o := runOver i.command c fields (.ofDocuments members) filter i.arguments.options
          queryId
        { o with log := loaded :: o.log }

/-- Runs a command.  Its query is named by the given id, and takes no time. -/
def run (i : Invocation) (files : Files) (queryId : String) : Outcome :=
  match config i.arguments files with
  | .error f => .failed [] f
  | .ok c =>
    match c.severity with
    | .error e => .failed [] (.config e)
    | .ok level => (i.runWith c files queryId).logging level

end Invocation

end DocQuery
