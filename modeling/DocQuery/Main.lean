import DocQuery.CommandLine.Run
import DocQuery.Query.Id

/-!
# The program

Reads the arguments and the files they name, runs the command, and writes
what it says: results and failures to standard output, the log to standard
error.
-/

namespace DocQuery

namespace Program

/-- How to call the program. -/
def usage : String :=
  "usage: docquery (query | explain) --data PATH [--config PATH] [--filter JSON]\n" ++
  "         [--sort FIELD[:DIRECTION]] [--limit N] [--index FIELD]...\n"

/-- The name and the version of the program. -/
def version : String := "docquery 0.1.0\n"

/-- The text of a file, or why it has none. -/
def readText (path : String) : IO (Except ReadError String) := do
  try
    let bytes ← IO.FS.readBinFile path
    return match String.fromUTF8? bytes with
      | some text => .ok text
      | none => .error .notUtf8
  catch e =>
    return .error <| match e with
      | .noFileOrDirectory .. => .notFound
      | .inappropriateType _ code _ => if code = 21 then .isDirectory else .notDirectory
      | .permissionDenied .. => .denied
      | e => .other (toString e)

/-- Says what is wrong with the arguments, or shows what they ask for. -/
def explainUsage (e : UsageError) : IO UInt32 := do
  match e with
  | .displayHelp =>
    IO.print usage
    return 0
  | .displayVersion =>
    IO.print version
    return 0
  | e =>
    IO.eprint ("error: " ++ e.name ++ "\n" ++ usage)
    return 2

/-- Runs a command and writes what it says. -/
def perform (i : Invocation) : IO UInt32 := do
  let paths := i.arguments.data :: i.arguments.config.toList
  let texts ← paths.mapM fun path => do return (path, ← readText path)
  let files : Files := fun path => (texts.lookup path).getD (.error .notFound)
  let bytes ← IO.getRandomBytes 16
  let outcome := i.run files (QueryId.ofBytes (bytes.toList.map UInt8.toNat))
  IO.eprint (String.join (outcome.log.map Event.line))
  IO.print outcome.stdout
  match outcome.failure with
  | none => return 0
  | some f =>
    IO.print (Failure.envelope f.code f.message)
    return 1

end Program

end DocQuery

/-- The program: arguments in, exit code out. -/
def main (args : List String) : IO UInt32 :=
  match DocQuery.Invocation.parse args with
  | .error e => DocQuery.Program.explainUsage e
  | .ok i => DocQuery.Program.perform i
