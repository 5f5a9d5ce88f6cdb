import ModuleBundler.Disk
import ModuleBundler.Hint
import ModuleBundler.Report
import ModuleBundler.Rewriting.Basic
import ModuleBundler.Schema

/-!
Everything that can go wrong, by cause. Faults of a build are reported with their place and advice;
the other failures have only a message.
-/
namespace ModuleBundler

-- Why a module was not read.
inductive ReadFault where
  | missing
  | entryMissing
  | directory
  | encoding (reason : Utf8.Reason)
  | system (fault : SystemFault)
  deriving DecidableEq, Repr

def ReadFault.message : ReadFault → String
  | missing => "Module not found"
  | entryMissing => "Entry file not found"
  | directory => "Module path is a directory"
  | encoding reason => "Module is not valid UTF-8: " ++ reason.message
  | system fault => "Cannot read module: " ++ fault.text

def ReadFault.suggestion? : ReadFault → Option String
  | directory => some "Import the file itself, e.g. './lib/index.js'"
  | _ => none

-- Which rule a module graph breaks.
inductive GraphFault where
  | empty
  | nothingToBundle
  | entryId (found : Int)
  | idOutOfPlace (position : Nat) (found : Int)
  | unmapped (specifiers : List Text)
  | unknownTarget (specifier : Text) (target : Int)
  deriving DecidableEq, Repr

def GraphFault.message : GraphFault → Text
  | empty => "Module graph is empty".toList
  | nothingToBundle => "Cannot bundle an empty module graph".toList
  | entryId found => "Entry module must have id 0, found ".toList ++ Json.intText found
  | idOutOfPlace position found =>
    "Module ids must be contiguous: position ".toList ++ Json.natText position
      ++ " has id ".toList ++ Json.intText found
  | unmapped specifiers =>
    "Unmapped specifiers: ".toList ++ Text.joinWith ", ".toList specifiers
  | unknownTarget specifier target =>
    '\'' :: specifier ++ "' maps to unknown module id ".toList ++ Json.intText target

-- Why there is no configuration.
inductive ConfigFault where
  | missing
  | inaccessible (fault : AccessFault)
  | malformed (fault : Json.Fault) (place : Json.Place)
  | invalid (issues : List Schema.Issue)
  deriving DecidableEq, Repr

def ConfigFault.suggestion? : ConfigFault → Option String
  | invalid _ => some "Allowed keys: entry, output, format, banner, loaders"
  | _ => none

-- A number with too many digits is no fault of the document, and its place is not told.
def malformedMessage (fault : Json.Fault) (place : Json.Place) : Text :=
  match fault with
  | .tooManyDigits _ => fault.message.toList
  | _ =>
    fault.message.toList ++ ": line ".toList ++ Json.natText place.line ++ " column ".toList
      ++ Json.natText place.column ++ " (char ".toList ++ Json.natText place.offset ++ [')']

def AccessFault.message (path : Text) : AccessFault → Text
  | system fault => fault.message path
  | nullByte => "embedded null byte".toList
  | encoding fault => fault.message

-- How many issues there are.
def issueCount (issues : List Schema.Issue) : Text :=
  Json.natText issues.length ++ " error(s)".toList

-- `details` words the issues of an invalid configuration.
def ConfigFault.message (details : List Schema.Issue → Text) (path : Text) : ConfigFault → Text
  | missing => "Config file not found".toList
  | inaccessible fault => "Cannot read config: ".toList ++ fault.message path
  | malformed fault place => "Cannot read config: ".toList ++ malformedMessage fault place
  | invalid issues => "Invalid config: ".toList ++ issueCount issues ++ '\n' :: details issues

inductive Failure where
  | unreadable (path : Text) (fault : ReadFault)
  | refused (path : Option Text) (source : Text) (fault : SourceFault)
  | malformedJson (path : Text) (fault : Json.Fault) (place : Json.Place)
  -- A specifier that leads nowhere; the path is missing where it names no path at all.
  | unresolved (specifier importer : Text) (resolved : Option Text)
  | graph (path : Option Text) (fault : GraphFault)
  | config (path : Text) (fault : ConfigFault)
  | invalid (issues : List Schema.Issue)
  -- Numbers that are too large to deal with, in an expression and in a document.
  | regex (fault : Regex.Fault)
  | hugeNumber (digits : Nat)
  | unknownLoader (name : Text) (available : List Text)
  | notALoader (name : Text)
  | unknownFormat (name : Text)
  | noEntry
  | system (path : Text) (fault : SystemFault)
  | nullByte
  -- A place in a module graph that holds no asset, asked for or to be dropped.
  | noAsset
  | nothingToDrop
  | notMapped (specifier : Text)
  deriving DecidableEq, Repr

-- The names that could have been meant.
def availableNames (names : List Text) : Text :=
  " (available: ".toList ++ Text.joinWith ", ".toList names ++ [')']

-- The advice for a source that was refused.
def SourceFault.suggestion (source : Text) : SourceFault → String
  | grammar fault =>
    match Hint.find source fault.account with
    | some hint => hint.message
    | none => "Check syntax around this line"
  | meaning _ => "Check the module's import and export declarations"

namespace Failure

def ofRejection : Schema.Rejection → Failure
  | .issues issues => invalid issues
  | .interrupted fault => regex fault

def message (details : List Schema.Issue → Text) : Failure → Text
  | unreadable _ fault => fault.message.toList
  | refused _ _ (.grammar fault) => fault.message
  | refused _ _ (.meaning fault) => fault.message
  | malformedJson _ fault _ => "Invalid JSON: ".toList ++ fault.message.toList
  | unresolved specifier _ none => "Cannot resolve '".toList ++ specifier ++ ['\'']
  | unresolved specifier _ (some path) =>
    "Cannot resolve '".toList ++ specifier ++ "' (looked for ".toList ++ path ++ [')']
  | graph _ fault => fault.message
  | config path fault => fault.message details path
  | invalid issues => issueCount issues
  | regex fault => fault.message []
  | hugeNumber digits => (Json.Fault.tooManyDigits digits).message.toList
  | unknownLoader name available =>
    "Unknown loader '".toList ++ name ++ '\'' :: availableNames available
  | notALoader name => "Loader '".toList ++ name ++ "' must be callable".toList
  | unknownFormat name =>
    "Unknown bundle format '".toList ++ name ++ "' (expected one of: function, string)".toList
  | noEntry => "No entry file given".toList
  | system path fault => fault.message path
  | nullByte => AccessFault.nullByte.message []
  | noAsset => "list index out of range".toList
  | nothingToDrop => "list assignment index out of range".toList
  | notMapped specifier => specifier

-- The file that would have to be there for this failure not to happen.
def missingFile? : Failure → Option Text
  | unreadable path .entryMissing | unreadable path .missing | unresolved _ _ (some path)
  | config path .missing => some path
  | _ => none

-- The report of a fault of the build itself.
def report? (details : List Schema.Issue → Text) (failure : Failure) : Option Report :=
  let report : Report := { message := failure.message details }
  match failure with
  | unreadable path fault =>
    some { report with
      filePath := some path
      suggestion := fault.suggestion?.map String.toList }
  | refused path source (.grammar fault) =>
    some { report with
      filePath := path
      line := some fault.line
      column := some fault.column
      context := lineContext? source fault.line
      suggestion := some ((SourceFault.grammar fault).suggestion source).toList }
  | refused path source (.meaning fault) =>
    some { report with
      filePath := path
      suggestion := some ((SourceFault.meaning fault).suggestion source).toList }
  | malformedJson path _ place =>
    some { report with
      filePath := some path
      line := some place.line
      column := some place.column
      suggestion := some "JSON modules must contain a single valid JSON document".toList }
  | unresolved _ importer resolved =>
    some { report with
      filePath := some importer
      suggestion :=
        if resolved.isSome then none
        else
          some ("Only relative specifiers ('./x.js', '../x.js') are supported; ".toList
            ++ "packages can't be looked up".toList) }
  | graph path _ => some { report with filePath := path }
  | config path fault =>
    some { report with
      filePath := some path
      suggestion := fault.suggestion?.map String.toList }
  | _ => none

end Failure
end ModuleBundler
