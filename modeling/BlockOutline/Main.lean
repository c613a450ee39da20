import BlockOutline.Program
import Std.Time.Format

/-!
The command line. What the program needs of the file system and the environment is read beforehand;
then the program runs as a function, and what it wrote goes to its streams.
-/

namespace BlockOutline.CommandLine

/-- The error that the system reports for a place. -/
def readError : IO.Error → ReadError
  | .inappropriateType .. => .notADirectory
  | .permissionDenied .. => .permissionDenied
  | .noFileOrDirectory .. => .notFound
  | .invalidArgument _ code _ => if code ∈ [36, -36] then .nameTooLong else .tooManyLinks
  | _ => .tooManyLinks

def readText (path : String) : IO (Except ReadError String) := do
  try
    let bytes ← IO.FS.readBinFile ((← IO.currentDir) / path)
    return (String.fromUTF8? bytes).elim (.error .notText) .ok
  catch e => return .error (readError e)

/-- The names in a directory, if they may be listed. -/
def readNames (path : String) : IO (Except ReadError (List String)) := do
  try
    let children ← ((← IO.currentDir) / path).readDir
    return .ok (children.toList.map (·.fileName))
  catch e => return .error (readError e)

/-- What is at a path. Of a directory the entries are read if `deep`, and of the files in it only
fixtures. -/
partial def readEntry (path : String) (deep wanted : Bool) : IO (Except ReadError Entry) := do
  try
    let place := (← IO.currentDir) / path
    match (← place.metadata).type with
    | .dir =>
      match ← readNames path with
      | .error e => return .ok (.closed e)
      | .ok names =>
        let mut entries := #[]
        for name in if deep then names else [] do
          let found ← readEntry (Path.join path name).lossy true (Fixture.isNamed name)
          -- A link that leads nowhere is listed like a file.
          let entry : Entry :=
            match found with
            | .ok entry => entry
            | .error e => .file (.error e)
          entries := entries.push ((name : Bytes), entry)
        return .ok (.directory entries.toList)
    | kind =>
      let text ← if wanted then readText path else pure (.ok "")
      match kind, text with
      | .other, .ok text => return .ok (.device text)
      | _, text => return .ok (.file text)
  catch e => return .error (readError e)

/-- Reads what the arguments are about. -/
def readLookup (arguments : List String) : IO Lookup := do
  match CommandLine.read arguments with
  | .error _ => return fun _ => .error .notFound
  | .ok invocation =>
    let path := invocation.task.path
    let deep := match invocation.task with
      | .inspect .. => false
      | .check .. | .listCategories _ => true
    let found ← if path.isEmpty then return fun _ => .error .notFound else readEntry path deep true
    return fun other => if other = path then found else .error .notFound

def readEnvironment : IO Environment := do
  let names := ["TERM", "NO_COLOR", "CLICOLOR_FORCE", "CODEBLOCK_LOG", "RUST_LOG"]
  let values ← names.mapM fun name => do return (name, ← IO.getEnv name)
  let now := Std.Time.DateTime.ofTimestamp (← Std.Time.Timestamp.now) .UTC
  return {
    find? := fun name => (values.find? (·.1 = name)).bind (·.2)
    time := now.format "uuuu-MM-dd'T'HH:mm:ss.SSSSSS'Z'" }

end BlockOutline.CommandLine

def main (arguments : List String) : IO UInt32 := do
  let lookup ← BlockOutline.CommandLine.readLookup arguments
  let environment ← BlockOutline.CommandLine.readEnvironment
  let output := BlockOutline.Program.run lookup environment arguments
  (← IO.getStderr).putStr output.messages
  (← IO.getStdout).putStr output.results
  return output.code.toUInt32
