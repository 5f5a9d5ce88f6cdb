import ModuleBundler.Loader.Rule
import ModuleBundler.Path

/-!
An asset is one module after transpiling: its identity, where it lives, what it needs and its code.
The mapping tells which asset each specifier leads to; it is empty until the module graph fills it
in.
-/
namespace ModuleBundler

structure Asset where
  id : Int
  path : Text
  dependencies : List CodePoints
  code : Text
  mapping : Dictionary CodePoints Int
  deriving DecidableEq, Repr

-- A mapping is shown with the specifiers as texts.
instance : Coe (Dictionary CodePoints Int) (Dictionary Text Int) :=
  ⟨List.map fun (specifier, id) => (CodePoints.shown specifier, id)⟩

namespace Asset

open Schema

-- An asset given as plain data; members that do not belong to it are passed over.
def read : Json → Checked Asset
  | .object members =>
    (both (required members "id" fun value => atLeast 0 (readInt value))
      (both (required members "path" readText)
        (both (optional members "dependencies" [] (readList readCodes))
          (both (required members "code" readText)
            (optional members "mapping" [] (readDictionary readInt)))))).map
      fun (id, path, dependencies, code, mapping) =>
        ⟨id, path, dependencies, code,
          mapping.map fun (specifier, id) => (CodePoints.ofText specifier, id)⟩
  | _ => reject (.modelType "Asset")

end Asset

-- Makes code of a module's source; it is told the path too.
abbrev Transpiler := Text → Text → Except Failure Transpiled

def Transpiler.standard : Transpiler := fun source path =>
  (transpile source).mapError (Failure.refused (some path) source)

-- Where modules come from: the files, the rules for loading them and the transpiler.
structure Workshop where
  disk : Disk
  loaders : Loaders
  rules : List LoaderRule
  transpiler : Transpiler

namespace Workshop

def readFault : AccessFault → Text → Failure
  | .nullByte, _ => .nullByte
  | .system .noEntry, path => .unreadable path .missing
  | .system .isDirectory, path => .unreadable path .directory
  | .system fault, path => .unreadable path (.system fault)
  | .encoding fault, path => .unreadable path (.encoding fault.reason)

def read (workshop : Workshop) (path : Text) : Except Failure Text :=
  (workshop.disk.readText path).mapError (readFault · path)

def absolute (workshop : Workshop) (path : Text) : Text :=
  Path.absolute workshop.disk.cwdPath path

-- A file is read, loaded and transpiled, under its absolute path.
def produce (workshop : Workshop) (path : Text) : Except Failure Transpiled := do
  let source ← workshop.read path
  let loaded ← workshop.loaders.apply workshop.rules path source
  workshop.transpiler loaded path

def produceAsset (workshop : Workshop) (id : Nat) (path : Text) : Except Failure Asset := do
  let transpiled ← workshop.produce path
  pure ⟨id, path, transpiled.dependencies, transpiled.code, []⟩

end Workshop

-- What one series of assets shares: the next identity and the assets that were remembered.
structure BuildContext where
  nextId : Nat := 0
  remembered : Dictionary Text Asset := []
  deriving Repr

namespace BuildContext

def takeId (context : BuildContext) : Nat × BuildContext :=
  (context.nextId, { context with nextId := context.nextId + 1 })

def lookup (context : BuildContext) (path : Text) : Option Asset := context.remembered.lookup path

-- An asset takes the place of one with the same path.
def remember (context : BuildContext) (asset : Asset) : BuildContext :=
  { context with remembered := Dictionary.put context.remembered asset.path asset }

-- The identity is taken last, so that a failure uses none.
def build (context : BuildContext) (workshop : Workshop) (path : Text) :
    Except Failure (Asset × BuildContext) := do
  let asset ← workshop.produceAsset context.nextId (workshop.absolute path)
  pure (asset, context.takeId.2)

end BuildContext
end ModuleBundler
