import UriTemplate.CommandLine.Run
import UriTemplate.Yaml.Document

/-!
# The program

Reads the files that the arguments name, and the standard input if they ask for it, and carries the command line out.
Catalogs are read as YAML.
-/

namespace UriTemplate.CommandLine

/-- All bytes of a stream. -/
partial def readAll (stream : IO.FS.Stream) (before : Bytes := []) : IO Bytes := do
  let block ← stream.read 65536
  if block.isEmpty then return before else readAll stream (before ++ block.toList)

/-- The files and directories among the given paths. -/
def readEntries : List Path → IO (List (Path × FileEntry))
  | [] => return []
  | path :: paths => do
    let entries ← readEntries paths
    match path.render.toString? with
    | none => return entries
    | some place =>
      try
        let content ← IO.FS.readBinFile place
        return (path, .file content.toList) :: entries
      catch
        | .inappropriateType .. => return (path, .directory) :: entries
        | .invalidArgument .. => return (path, .tooLong) :: entries
        | _ => return entries

/-- The paths that an invocation may read. -/
def Invocation.paths (i : Invocation) (env : Environment) : List Path :=
  let json : List Path := match i.command with
    | .expand _ values => (values.json.map Path.ofText).toList
    | _ => []
  i.catalogPath env :: json

/-- Whether the invocation reads the standard input. -/
def Invocation.readsInput (i : Invocation) : Bool :=
  match i.command with
  | .expand _ values => values.json = some "-"
  | _ => false

def environment (args : List Text) : IO Environment := do
  let workingDirectory := Path.ofText (← IO.currentDir).toString
  let config := (← IO.getEnv "URIT_CONFIG").map Text.ofString
  let debug := (← IO.getEnv "URIT_DEBUG").map Text.ofString
  let env : Environment :=
    { files := { workingDirectory, entry? := fun _ => none }, reader := Yaml.reader, config, debug }
  match Invocation.ofArguments args with
  | .error _ => return env
  | .ok i =>
    let entries ← readEntries (i.paths env)
    let input ← if i.readsInput then readAll (← IO.getStdin) else pure []
    return { env with files := { workingDirectory, entry? := fun p => entries.lookup p }, input }

def usageLine : String := "usage: urit [-h] [-v] [--verbose] [--config PATH] \x7bexpand,parse,variables,list\x7d ...\n"

end UriTemplate.CommandLine

open UriTemplate in
def main (args : List String) : IO UInt32 := do
  let args := args.map Text.ofString
  match CommandLine.run args (← CommandLine.environment args) with
  | .usage =>
    (← IO.getStderr).putStr CommandLine.usageLine
    return 2
  | .help =>
    (← IO.getStdout).putStr CommandLine.usageLine
    return 0
  | .failed e =>
    (← IO.getStderr).putStr ((e.message.escaped ++ ("\n" : Text)).toString?.getD "")
    return 1
  | .finished status output errors =>
    (← IO.getStderr).putStr ((errors.toString?).getD "")
    (← IO.getStdout).putStr ((output.toString?).getD "")
    return .ofNat status
