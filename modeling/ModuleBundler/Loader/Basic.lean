import ModuleBundler.Failure
import ModuleBundler.Literal

/-!
Loaders turn the text of a file into module source before it is transpiled. They are registered by
name.
-/
namespace ModuleBundler

-- A loader is told the path of the file and its text.
abbrev Loader := Text → Text → Except Failure Text

namespace Loader

def defaultExport (expression : Text) : Text :=
  "export default ".toList ++ expression ++ ";\n".toList

-- A document becomes the value of the default export, as it is written.
def json : Loader := fun path source =>
  match Json.read source with
  | .ok _ => .ok (defaultExport (Text.strip source))
  | .error ⟨.tooManyDigits digits, _⟩ => .error (.hugeNumber digits)
  | .error ⟨fault, rest⟩ => .error (.malformedJson path fault (Json.placeOf source rest))

-- Any text becomes a string that is the default export.
def text : Loader := fun _ source => .ok (defaultExport (Literal.write source))

end Loader

abbrev Loaders := Dictionary Text Loader

namespace Loaders

def standard : Loaders := [("json".toList, Loader.json), ("text".toList, Loader.text)]

def names (loaders : Loaders) : List Text := Text.sortedSet loaders.keys

-- Only a loader can be registered; it takes the place of one with the same name.
def register (loaders : Loaders) (name : Text) (candidate : Option Loader) :
    Except Failure Loaders :=
  match candidate with
  | some loader => .ok (Dictionary.put loaders name loader)
  | none => .error (.notALoader name)

def get (loaders : Loaders) (name : Text) : Except Failure Loader :=
  match loaders.lookup name with
  | some loader => .ok loader
  | none => .error (.unknownLoader name loaders.names)

end Loaders
end ModuleBundler
