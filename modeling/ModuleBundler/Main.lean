import ModuleBundler.CommandLine.Basic

/-!
The program itself. The build works on a file tree that is a value, so files are fetched into it as
the build asks for them, and what the build wrote is carried out at the end. No other program is
started here: asking for a run is answered as where the interpreter is missing.
-/
namespace ModuleBundler.CommandLine

def issueLines (issues : List Schema.Issue) : Text :=
  Text.joinWith ['\n'] (issues.map Schema.Issue.line)

def surroundings (disk : Disk) : Surroundings := ⟨disk, Loaders.standard, none, issueLines⟩

-- What is found at a path, unless it is no file at all.
def fetch? (path : Text) : IO (Option Entry) := do
  match ← (IO.FS.readBinFile (String.ofList path)).toBaseIO with
  | .ok content => pure (some (.bytes content.toList))
  | .error (.permissionDenied _ _ _) => pure (some .locked)
  | .error _ => pure none

def fetchInto (disk : Disk) (path : Text) : IO (Option Disk) := do
  let found ← fetch? path
  pure (found.map (disk.add path))

-- Fetches files until the build asks for none that can be had.
partial def fetchAll (disk : Disk) (arguments : Arguments) : IO Disk := do
  let asked :=
    match (perform (surroundings disk) arguments { disk }).2.outcome with
    | .error failure => failure.missingFile?.filter (!disk.isFile ·)
    | .ok _ => none
  match asked with
  | none => pure disk
  | some path =>
    match ← fetchInto disk path with
    | some fetched => fetchAll fetched arguments
    | none => pure disk

def prepare (disk : Disk) (arguments : List Text) : IO Disk := do
  match parse arguments with
  | .ok (.build arguments) =>
    let config := arguments.config.getD Config.fileName
    let disk := (← fetchInto disk config).getD disk
    fetchAll disk arguments
  | _ => pure disk

def store (path content : Text) : IO Unit := do
  IO.FS.createDirAll (String.ofList (Path.dirname path))
  IO.FS.writeFile (String.ofList path) (String.ofList content)

def exitCode (run : Run) : UInt32 :=
  match run.ending with
  | .status status | .usage status => status.toNat.toUInt32
  | .escaped _ => 1

end ModuleBundler.CommandLine

open ModuleBundler ModuleBundler.CommandLine

def main (arguments : List String) : IO UInt32 := do
  let cwd := (← IO.currentDir).toString.toList
  let arguments := arguments.map String.toList
  let disk ← prepare ⟨Disk.place [] cwd, []⟩ arguments
  let run := CommandLine.run (surroundings disk) arguments
  for (path, content) in disk.changes run.disk do
    store path content
  IO.print (String.ofList run.stdout)
  IO.eprint (String.ofList run.stderr)
  match run.ending with
  | .escaped failure => IO.eprintln (String.ofList (failure.message issueLines))
  | _ => pure ()
  pure (exitCode run)
