import ModuleBundler.Bundle.Script
import ModuleBundler.Graph.Basic
import ModuleBundler.Logged

/-!
The bundle of a module graph: a table of all modules, each with its mapping, handed to the script
that runs them. Code that could end the function it is wrapped in is embedded as a string instead,
and so is all code in the string format.
-/
namespace ModuleBundler

inductive BundleFormat where
  | function | string
  deriving DecidableEq, Repr

namespace BundleFormat

def name : BundleFormat → String
  | function => "function"
  | string => "string"

def byName : List (String × BundleFormat) := [function, string].map fun format => (format.name, format)

def ofName (name : Text) : Except Failure BundleFormat :=
  match byName.find? fun entry => entry.1.toList == name with
  | some (_, format) => .ok format
  | none => .error (.unknownFormat name)

end BundleFormat

namespace Bundle

-- Code on lines of its own.
def withFinalNewline (code : Text) : Text :=
  if Text.endsWith code ['\n'] then code else code ++ ['\n']

-- How the code of a module stands in the table.
inductive Body where
  | function (code : Text)
  | string (code : CodePoints)
  deriving DecidableEq, Repr

def body (format : BundleFormat) (code : Text) : Body :=
  let code := withFinalNewline code
  if format = .function && isWellFormed code then .function code else .string code

def parameters : List Text := ["require", "module", "exports"].map String.toList

def Body.render : Body → Text
  | .function code =>
    "function (".toList ++ Text.joinWith ", ".toList parameters ++ ") \x7b\n".toList ++ code
      ++ ['\x7d']
  | .string code =>
    "new Function(".toList
      ++ Text.joinWith ", ".toList (parameters.map Literal.write ++ [Literal.writeCodes code]) ++ [')']

def mappingText (mapping : Dictionary CodePoints Int) : Text :=
  Literal.guardClosers
    ('{' :: Text.joinWith ", ".toList (Graph.mappingMembers mapping) ++ ['}'])

-- One line of the module table.
def tableEntry (asset : Asset) (body : Body) : Text :=
  Literal.write (Json.intText asset.id) ++ ": [".toList ++ body.render ++ ", ".toList
    ++ mappingText asset.mapping ++ [']']

def fallbackNote (asset : Asset) : Text :=
  "Module ".toList ++ Json.intText asset.id
    ++ " can't be wrapped safely, embedding it as a string: ".toList ++ asset.path

-- A function that had to become a string is warned about.
def bodyOf (format : BundleFormat) (asset : Asset) : Logged Body := do
  let body := body format asset.code
  match format, body with
  | .function, .string _ => Logged.note .warning (fallbackNote asset)
  | _, _ => pure ()
  pure body

def tableEntries (format : BundleFormat) : Graph → Logged (List Text)
  | [] => pure []
  | asset :: graph => do
    let body ← bodyOf format asset
    let entries ← tableEntries format graph
    pure (tableEntry asset body :: entries)

-- The comment at the top; the name of the entry cannot end it.
def banner (count : Nat) (entry : Asset) : Text :=
  "/* minipack bundle: ".toList ++ Json.natText count
    ++ (if count = 1 then " module, entry " else " modules, entry ").toList
    ++ Text.replace "*/".toList "* /".toList (Path.basename entry.path) ++ " */\n".toList

def emit (format : BundleFormat) (hasBanner : Bool) (graph : Graph) : Logged Text :=
  match graph with
  | [] => Logged.fail (.graph none .nothingToBundle)
  | entry :: _ => do
    let entries ← tableEntries format graph
    pure ((if hasBanner then banner graph.length entry else []) ++ script ++ "(\x7b\n".toList
      ++ Text.joinWith ",\n".toList entries ++ "\n\x7d, 0);\n".toList)

end Bundle
end ModuleBundler
