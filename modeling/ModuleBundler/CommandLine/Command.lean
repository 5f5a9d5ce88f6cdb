import ModuleBundler.Logged

/-!
Commands. A command works on what is there: files, what was printed, the programs that were started.
What it has done stays when a later step fails.
-/
namespace ModuleBundler

structure Effects where
  disk : Disk
  stdout : Text := []
  -- What was told to the user besides the log.
  complaint : Text := []
  -- The programs that were started, each with its arguments.
  started : List (List Text) := []
  deriving DecidableEq, Repr

def Command (α : Type) := Effects → Effects × Logged α

namespace Command

def pure (value : α) : Command α := fun effects => (effects, Logged.pure value)

def bind (step : Command α) (next : α → Command β) : Command β := fun effects =>
  let (reached, first) := step effects
  match first.outcome with
  | .error failure => (reached, ⟨first.log, .error failure⟩)
  | .ok value =>
    let (finished, rest) := next value reached
    (finished, ⟨first.log ++ rest.log, rest.outcome⟩)

instance : Monad Command where
  pure := Command.pure
  bind := Command.bind

-- Work on the files as they are now that changes none of them.
def reading (work : Disk → Logged α) : Command α := fun effects => (effects, work effects.disk)

def lift (work : Logged α) : Command α := reading fun _ => work

def note (severity : Severity) (text : Text) : Command Unit := lift (Logged.note severity text)

def print (text : Text) : Command Unit := fun effects =>
  ({ effects with stdout := effects.stdout ++ text }, Logged.pure ())

def complain (text : Text) : Command Unit := fun effects =>
  ({ effects with complaint := effects.complaint ++ text }, Logged.pure ())

def accessFailure (path : Text) : AccessFault → Failure
  | .system fault => .system path fault
  | .nullByte => .nullByte
  | .encoding fault => .unreadable path (.encoding fault.reason)

def launch (arguments : List Text) : Command Unit := fun effects =>
  ({ effects with started := effects.started ++ [arguments] }, Logged.pure ())

def ensureDirectory (directory : Text) : Command Unit := fun effects =>
  let (disk, outcome) := effects.disk.ensureDirectory directory
  ({ effects with disk },
    Logged.ofExcept (outcome.mapError fun (fault, path) => accessFailure path fault))

def writeFile (path content : Text) : Command Unit := fun effects =>
  match effects.disk.writeText path content with
  | .ok disk => ({ effects with disk }, Logged.pure ())
  | .error fault => (effects, Logged.fail (accessFailure path fault))

end Command
end ModuleBundler
