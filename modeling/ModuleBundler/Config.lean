import ModuleBundler.Bundle.Basic

/-!
The configuration of a build, read from a JSON file. Paths in the file are relative to the file
itself.
-/
namespace ModuleBundler

structure Config where
  entry : Option Text
  -- Where the bundle goes; it is shown where there is no such place.
  output : Option Text
  format : BundleFormat
  banner : Bool
  rules : List LoaderRule
  deriving DecidableEq, Repr

namespace Config

open Schema

def defaultRules : List LoaderRule := [⟨"\\.json$".toList, "json".toList⟩]

def standard : Config := ⟨none, none, .function, true, defaultRules⟩

def names : List String := ["entry", "output", "format", "banner", "loaders"]

def readFormat : Json → Checked BundleFormat := readWord BundleFormat.byName

def readRules (loaders : Loaders) : Json → Checked (List LoaderRule) :=
  readList (LoaderRule.read loaders)

def read (loaders : Loaders) : Json → Checked Config
  | .object members =>
    (both (optional members "entry" none (readOptional readText))
      (both (optional members "output" none (readOptional readText))
        (both (optional members "format" .function readFormat)
          (both (optional members "banner" true readBool)
            (both (optional members "loaders" defaultRules (readRules loaders))
              (onlyNames names members)))))).map
      fun (entry, output, format, banner, rules, _) => ⟨entry, output, format, banner, rules⟩
  | _ => reject (.modelType "BuildConfig")

def fileName : Text := "minipack.json".toList

-- A relative path is taken from the directory of the configuration file.
def placed (directory : Text) (path : Option Text) : Option Text :=
  path.map fun path => if path.isEmpty then path else Path.join directory path

def placedBeside (config : Config) (directory : Text) : Config :=
  { config with
    entry := placed directory config.entry
    output := placed directory config.output }

def readFile (disk : Disk) (loaders : Loaders) (path : Text) : Except Failure Config := do
  let text ← (disk.readText path).mapError fun fault => .config path (.inaccessible fault)
  let value ← (Json.read text).mapError fun failure =>
    .config path (.malformed failure.fault (Json.placeOf text failure.rest))
  match read loaders value with
  | .ok config => .ok (config.placedBeside (Path.dirname (Path.absolute disk.cwdPath path)))
  | .error (.issues issues) => .error (.config path (.invalid issues))
  | .error (.interrupted fault) => .error (.regex fault)

-- An empty path asks for the file in the working directory.
def file (path : Option Text) : Text :=
  match path with
  | none | some [] => fileName
  | some path => path

-- The file in the working directory may be absent, one that is asked for may not.
def load (disk : Disk) (loaders : Loaders) (path : Option Text) : Except Failure Config :=
  if disk.pathExists (file path) then readFile disk loaders (file path)
  else if path.isSome then .error (.config (file path) .missing)
  else .ok standard

end Config
end ModuleBundler
