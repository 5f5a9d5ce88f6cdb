import ModuleBundler.Loader.Basic
import ModuleBundler.Regex.Matcher
import ModuleBundler.Regex.Parser

/-!
Loader rules say which loader runs for which files: the expression of a rule is looked for in the
path of the file. Every rule that applies runs, in order, on what the one before it made.
-/
namespace ModuleBundler

structure LoaderRule where
  test : Text
  loader : Text
  deriving DecidableEq, Repr

namespace LoaderRule

open Schema

-- Whether an expression can be used is decided when its rule is read.
def readTest (test : Text) : Checked Text :=
  match Regex.compile test with
  | .ok _ => .ok test
  | .error fault =>
    match fault with
    | .hugeRepeat | .hugeCode => .error (.interrupted fault)
    | .contradictoryFlags | .hugeNumber _ => reject (.value (fault.message test))
    | .malformed _ _ =>
      reject (.value ("invalid regex ".toList ++ Text.quoted test ++ ": ".toList
        ++ fault.message test))

def readLoader (loaders : Loaders) (name : Text) : Checked Text :=
  if (loaders.lookup name).isSome then .ok name
  else
    reject (.value ("unknown loader ".toList ++ Text.quoted name ++ availableNames loaders.names))

-- Members other than the two that make up a rule are passed over.
def read (loaders : Loaders) : Json → Checked LoaderRule
  | .object members =>
    (both (required members "test" fun value => readText value >>= readTest)
      (required members "use" fun value => readText value >>= readLoader loaders)).map
      fun (test, loader) => ⟨test, loader⟩
  | _ => reject (.modelType "LoaderRule")

-- Whether the expression is found anywhere in the path.
def applies (rule : LoaderRule) (path : Text) : Bool :=
  match Regex.compile rule.test with
  | .ok pattern => pattern.found path
  | .error _ => false

end LoaderRule

def Loaders.apply (loaders : Loaders) (rules : List LoaderRule) (path source : Text) :
    Except Failure Text :=
  rules.foldlM
    (fun source rule =>
      if rule.applies path then do
        let loader ← loaders.get rule.loader
        loader path source
      else pure source)
    source

end ModuleBundler
