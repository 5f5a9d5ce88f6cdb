import ModuleBundler.Build
import ModuleBundler.CommandLine.Arguments
import ModuleBundler.CommandLine.Command
import ModuleBundler.CommandLine.Help
import ModuleBundler.Config

/-!
One run of the command line on a file tree: what it prints, what it leaves behind and how it ends.
A failure of the build or of the system is reported and ends the run; every other failure escapes.
-/
namespace ModuleBundler.CommandLine

-- What the system says of a program that it cannot execute.
structure StartFault where
  number : Nat
  text : Text
  deriving DecidableEq, Repr

-- What comes of starting a program: the status that it ends with, unless the system refuses to start it.
inductive Start where
  | ended (status : Int)
  | refused (fault : StartFault)
  deriving DecidableEq, Repr

-- A program that is known by its status alone can be started.
instance : Coe Int Start := ⟨Start.ended⟩

-- The program that runs a bundle: where it is found, and what will come of starting it.
structure Interpreter where
  path : Text
  start : Start
  deriving DecidableEq, Repr

structure Surroundings where
  disk : Disk
  loaders : Loaders
  interpreter : Option Interpreter
  -- Words the issues of an invalid configuration.
  details : List Schema.Issue → Text

inductive Ending where
  | status (status : Int)
  -- The arguments alone ended the run.
  | usage (status : Int)
  | escaped (failure : Failure)
  deriving DecidableEq, Repr

-- What a run leaves behind.
structure Run extends Effects where
  ending : Ending
  -- The log as it is shown.
  log : Text := []
  deriving DecidableEq, Repr

def Run.stderr (run : Run) : Text := run.log ++ run.complaint

-- What there is before anything is done.
def Surroundings.effects (surroundings : Surroundings) : Effects := { disk := surroundings.disk }

def merge (config : Config) (arguments : Arguments) : Config :=
  let given (value other : Option Text) : Option Text :=
    match value with
    | none | some [] => other
    | some value => some value
  { config with
    entry := given arguments.entry config.entry
    output := given arguments.output config.output
    format := arguments.format.getD config.format
    banner := config.banner && !arguments.noBanner }

-- The directory for a file, where its path names one.
def makeRoom (path : Text) : Command Unit :=
  if (Path.dirname path).isEmpty then pure () else Command.ensureDirectory (Path.dirname path)

-- The text goes into the output file, or is shown where there is none.
def deliver (text : Text) (output : Option Text) : Command Unit :=
  match output with
  | none => .print text
  | some path => do
    makeRoom path
    Command.writeFile path text
    Command.note .info ("Wrote ".toList ++ path)

def buildDirectory : Text := "__minipack_build__".toList

def bundleFile : Text := Path.join buildDirectory "bundle.js".toList

def noInterpreterText : Text :=
  "Error: 'node' was not found on PATH; it is needed for --run\n".toList

def noEntryText : Text := usageText ++ "Error: no entry file given\n".toList

def workshop (loaders : Loaders) (config : Config) (disk : Disk) : Workshop :=
  ⟨disk, loaders, config.rules, Transpiler.standard⟩

def graphText (workshop : Workshop) (verbose : Bool) (entry : Text) : Logged Text := do
  let graph ← Build.graph workshop verbose entry
  pure (graph.describe ++ ['\n'])

def bundleText (workshop : Workshop) (verbose : Bool) (config : Config) : Logged Text :=
  Build.bundle workshop verbose config.format config.banner config.entry

-- A text that is worked out from the files, delivered.
def deliverWork (loaders : Loaders) (config : Config) (work : Workshop → Logged Text) :
    Command Int := do
  let text ← Command.reading fun disk => work (workshop loaders config disk)
  deliver text config.output
  pure 0

def StartFault.message (fault : StartFault) (path : Text) : Text :=
  "[Errno ".toList ++ Json.natText fault.number ++ "] ".toList ++ fault.text ++ ": ".toList ++ Text.quoted path

def refusalText (interpreter : Interpreter) (fault : StartFault) : Text :=
  "Error: ".toList ++ fault.message interpreter.path ++ ['\n']

-- A program that the system refuses to start has not been started; the refusal is told like its other faults.
def startProgram (interpreter : Interpreter) (arguments : List Text) : Command Int :=
  match interpreter.start with
  | .ended status => do
    Command.launch (interpreter.path :: arguments)
    pure status
  | .refused fault => do
    Command.complain (refusalText interpreter fault)
    pure 1

-- The bundle is written to a place of its own and run from there.
def runBundle (surroundings : Surroundings) (verbose : Bool) (config : Config) : Command Int :=
  match surroundings.interpreter with
  | none => do
    Command.complain noInterpreterText
    pure 1
  | some interpreter => do
    let text ← Command.reading fun disk =>
      bundleText (workshop surroundings.loaders config disk) verbose config
    Command.ensureDirectory buildDirectory
    Command.writeFile bundleFile text
    startProgram interpreter [bundleFile]

-- The configuration file with the arguments over it.
def configure (surroundings : Surroundings) (arguments : Arguments) (disk : Disk) :
    Except Failure Config := do
  let config ← Config.load disk surroundings.loaders arguments.config
  pure (merge config arguments)

-- What is done with a configuration.
def serve (surroundings : Surroundings) (arguments : Arguments) (config : Config) : Command Int :=
  match config.entry with
  | none | some [] => do
    Command.complain noEntryText
    pure 1
  | some entry =>
    if arguments.graph then
      deliverWork surroundings.loaders config fun workshop =>
        graphText workshop arguments.verbose entry
    else if arguments.run then runBundle surroundings arguments.verbose config
    else
      deliverWork surroundings.loaders config fun workshop =>
        bundleText workshop arguments.verbose config

def perform (surroundings : Surroundings) (arguments : Arguments) : Command Int := do
  let config ← Command.reading fun disk =>
    Logged.ofExcept (configure surroundings arguments disk)
  serve surroundings arguments config

-- How a failure is told to the user, unless it escapes.
def complaint? (details : List Schema.Issue → Text) (failure : Failure) : Option Text :=
  match failure.report? details, failure with
  | some report, _ => some ("Error: Build Failed:".toList ++ report.render ++ ['\n'])
  | none, .system _ _ => some ("Error: ".toList ++ failure.message details ++ ['\n'])
  | none, _ => none

def conclude (surroundings : Surroundings) (verbose : Bool) (effects : Effects)
    (finished : Logged Int) : Run :=
  let log := finished.log.render verbose
  match finished.outcome with
  | .ok status => { effects with ending := .status status, log }
  | .error failure =>
    match complaint? surroundings.details failure with
    | some complaint =>
      { effects with complaint := effects.complaint ++ complaint, ending := .status 1, log }
    | none => { effects with ending := .escaped failure, log }

def faultText (fault : UsageFault) : Text :=
  usageText ++ programName ++ ": error: ".toList ++ fault.message ++ ['\n']

def run (surroundings : Surroundings) (arguments : List Text) : Run :=
  match parse arguments with
  | .error fault =>
    { surroundings.effects with complaint := faultText fault, ending := .usage 2 }
  | .ok .help => { surroundings.effects with stdout := helpText, ending := .usage 0 }
  | .ok (.build arguments) =>
    let (effects, finished) := perform surroundings arguments surroundings.effects
    conclude surroundings arguments.verbose effects finished

end ModuleBundler.CommandLine
