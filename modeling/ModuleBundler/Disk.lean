import ModuleBundler.Path
import ModuleBundler.Text.Quoted
import ModuleBundler.Utf8

/-!
A file tree as a value. Files and empty directories are listed by their place, the names from the
root down; directories on the way to a listed place exist by themselves. Looking up a path walks its
components one by one, so every component but the last must be an existing directory.
-/
namespace ModuleBundler

-- What the system says when a path cannot be used.
inductive SystemFault where
  | noEntry | denied | exists | notDirectory | isDirectory
  deriving DecidableEq, Repr

namespace SystemFault

def number : SystemFault → Nat
  | noEntry => 2
  | denied => 13
  | .exists => 17
  | notDirectory => 20
  | isDirectory => 21

def text : SystemFault → String
  | noEntry => "No such file or directory"
  | denied => "Permission denied"
  | .exists => "File exists"
  | notDirectory => "Not a directory"
  | isDirectory => "Is a directory"

def message (fault : SystemFault) (path : Text) : Text :=
  "[Errno ".toList ++ Json.natText fault.number ++ "] ".toList ++ fault.text.toList
    ++ ": ".toList ++ Text.quoted path

end SystemFault

-- Why a file could not be read or written. A path with a NUL character names nothing at all.
inductive AccessFault where
  | system (fault : SystemFault)
  | nullByte
  | encoding (fault : Utf8.Fault)
  deriving DecidableEq, Repr

inductive Entry where
  | text (content : Text)
  | bytes (content : List UInt8)
  -- A file that may not be opened.
  | locked
  | directory
  deriving DecidableEq, Repr

abbrev Location := List Text

structure Disk where
  cwd : Location := []
  entries : List (Location × Entry) := []
  deriving DecidableEq, Repr

namespace Disk

def cwdPath (disk : Disk) : Text := '/' :: Text.joinWith ['/'] disk.cwd

def entryAt (disk : Disk) (location : Location) : Option Entry := disk.entries.lookup location

-- A listed directory, or one on the way to a listed place or to the working directory.
def isDirectoryAt (disk : Disk) (location : Location) : Bool :=
  match disk.entryAt location with
  | some .directory => true
  | some _ => false
  | none =>
    location.isEmpty || location.isPrefixOf disk.cwd
      || disk.entries.any fun entry => location.isPrefixOf entry.1

def existsAt (disk : Disk) (location : Location) : Bool :=
  (disk.entryAt location).isSome || disk.isDirectoryAt location

-- One component further down the path.
def enter (disk : Disk) (here : Location) (name : Text) : Except SystemFault Location :=
  if !disk.isDirectoryAt here then .error .notDirectory
  else if name = [] || name = Path.dot then .ok here
  else if name = Path.dotDot then .ok here.dropLast
  else if disk.existsAt (here ++ [name]) then .ok (here ++ [name])
  else .error .noEntry

def start (disk : Disk) (path : Text) : Location := if Path.isAbsolute path then [] else disk.cwd

-- The place that a path denotes.
def locate (disk : Disk) (path : Text) : Except AccessFault Location :=
  if '\x00' ∈ path then .error .nullByte
  else if path.isEmpty then .error (.system .noEntry)
  else ((Path.components path).foldlM disk.enter (disk.start path)).mapError .system

def isFileAt (disk : Disk) (location : Location) : Bool :=
  match disk.entryAt location with
  | some (.text _) | some (.bytes _) | some .locked => true
  | _ => false

def isFile (disk : Disk) (path : Text) : Bool :=
  match disk.locate path with
  | .ok location => disk.isFileAt location
  | .error _ => false

def isDirectory (disk : Disk) (path : Text) : Bool :=
  match disk.locate path with
  | .ok location => disk.isDirectoryAt location
  | .error _ => false

def pathExists (disk : Disk) (path : Text) : Bool := (disk.locate path).isOk

-- Every way to end a line is read as a newline.
def unifyNewlines : Text → Text
  | '\r' :: '\n' :: rest => '\n' :: unifyNewlines rest
  | '\r' :: rest => '\n' :: unifyNewlines rest
  | c :: rest => c :: unifyNewlines rest
  | [] => []

def readText (disk : Disk) (path : Text) : Except AccessFault Text := do
  let location ← disk.locate path
  match disk.entryAt location with
  | some (.text content) => pure (unifyNewlines content)
  | some (.bytes content) => (Utf8.decode content).map unifyNewlines |>.mapError .encoding
  | some .locked => throw (.system .denied)
  | some .directory | none => throw (.system .isDirectory)

-- The place of an existing parent directory and a name in it.
def locateIn (disk : Disk) (path : Text) : Except AccessFault (Location × Text) :=
  if '\x00' ∈ path then .error .nullByte
  else if path.isEmpty then .error (.system .noEntry)
  else
    let parts := Path.components path
    match parts.dropLast.foldlM disk.enter (disk.start path) with
    | .error fault => .error (.system fault)
    | .ok parent =>
      if disk.isDirectoryAt parent then .ok (parent, parts.getLastD [])
      else .error (.system .notDirectory)

def put (disk : Disk) (location : Location) (entry : Entry) : Disk :=
  { disk with entries := Dictionary.put disk.entries location entry }

-- The whole text takes the place of what was there.
def writeText (disk : Disk) (path content : Text) : Except AccessFault Disk := do
  let (parent, name) ← disk.locateIn path
  if name = [] || name = Path.dot || name = Path.dotDot then throw (.system .isDirectory)
  else
    let location := parent ++ [name]
    match disk.entryAt location with
    | some .locked => throw (.system .denied)
    | some (.text _) | some (.bytes _) => pure (disk.put location (.text content))
    | some .directory => throw (.system .isDirectory)
    | none =>
      if disk.isDirectoryAt location then throw (.system .isDirectory)
      else pure (disk.put location (.text content))

def makeDirectory (disk : Disk) (path : Text) : Except AccessFault Disk := do
  let (parent, name) ← disk.locateIn (Path.trimSlashes path)
  if name = [] || name = Path.dot || name = Path.dotDot then throw (.system .exists)
  else if disk.existsAt (parent ++ [name]) then throw (.system .exists)
  else pure (disk.put (parent ++ [name]) .directory)

-- The parent of a path and its last name, where slashes at the end do not count.
def splitLast (path : Text) : Text × Text :=
  match Path.basename path with
  | [] => (Path.dirname (Path.dirname path), Path.basename (Path.dirname path))
  | name => (Path.dirname path, name)

-- A fault together with the path it is about.
abbrev Located := AccessFault × Text

-- A directory whose parent is there. It is no fault if it exists.
def makeLast (disk : Disk) (path : Text) : Disk × Except Located Unit :=
  match disk.makeDirectory path with
  | .ok disk => (disk, .ok ())
  | .error .nullByte => (disk, .error (.nullByte, path))
  | .error fault => (disk, if disk.isDirectory path then .ok () else .error (fault, path))

-- A directory and those above it, as far as they are missing. Those that were made stay when one
-- below them cannot be made.
def makeDirectories (disk : Disk) (path : Text) : Nat → Disk × Except Located Unit
  | 0 => (disk, .error (.system .noEntry, path))
  | fuel + 1 =>
    let (head, tail) := splitLast path
    if head.isEmpty || tail.isEmpty || disk.pathExists head then disk.makeLast path
    else
      match disk.makeDirectories head fuel with
      | (disk, .ok ()) | (disk, .error (.system .exists, _)) =>
        if tail = Path.dot then (disk, .ok ()) else disk.makeLast path
      | refused => refused

def ensureDirectory (disk : Disk) (path : Text) : Disk × Except Located Unit :=
  disk.makeDirectories path (path.length + 1)

def remove (disk : Disk) (path : Text) : Disk :=
  match disk.locate path with
  | .ok location => { disk with entries := disk.entries.filter fun entry => entry.1 != location }
  | .error _ => disk

-- A place given by its path alone, whether or not it exists.
def place (cwd : Location) (path : Text) : Location :=
  let normal := Path.absolute ('/' :: Text.joinWith ['/'] cwd) path
  (Path.components normal).filter (· ≠ [])

def add (disk : Disk) (path : Text) (entry : Entry) : Disk := disk.put (place disk.cwd path) entry

def pathOf (location : Location) : Text := '/' :: Text.joinWith ['/'] location

def Entry.bytes? : Entry → Option (List UInt8)
  | .text content => some (Utf8.encode content)
  | .bytes content => some content
  | .locked | .directory => none

-- The files whose content is not what it was before, by path.
def changes (before after : Disk) : List (Text × Text) :=
  let changed := after.entries.filterMap fun (location, entry) =>
    match entry with
    | .text content =>
      if (before.entryAt location).bind Entry.bytes? = some (Utf8.encode content) then none
      else some (pathOf location, content)
    | _ => none
  changed.mergeSort fun a b => Text.le a.1 b.1

end Disk
end ModuleBundler
