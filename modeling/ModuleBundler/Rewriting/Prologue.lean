import ModuleBundler.Rewriting.Reference

/-!
The lines that run before the body of a module. Every specifier is required once, in the order of
first use; imported bindings become variables; exports become getters that are defined before
anything is required, so that a circular importer already sees them.
-/
namespace ModuleBundler

-- One line of a prologue.
inductive Statement where
  | require (index : Nat) (specifier : CodePoints)
  -- A module that is not made for default imports is its own default.
  | view (index : Nat)
  | declare (bindings : List (Text × Text))
  -- Copies every export that is not there yet, the default apart.
  | exportAll (index : Nat)
  | getter (name expression : Text)
  deriving DecidableEq, Repr

namespace Prologue

def dependencyVariable (index : Nat) : Text := "__dep".toList ++ Json.natText index

def viewVariable (index : Nat) : Text := "__mod".toList ++ Json.natText index

def indexed (object property : Text) : Text := object ++ '[' :: Literal.write property ++ [']']

def bindingExpression (index : Nat) : Imported → Text
  | .default => viewVariable index ++ "[\"default\"]".toList
  | .namespace => dependencyVariable index
  | .named name => indexed (dependencyVariable index) name

end Prologue

namespace Statement

open Prologue

def render : Statement → Text
  | require index specifier =>
    "var ".toList ++ dependencyVariable index ++ " = require(".toList ++ Literal.writeCodes specifier
      ++ ");".toList
  | view index =>
    let dependency := dependencyVariable index
    "var ".toList ++ viewVariable index ++ " = ".toList ++ dependency ++ " && ".toList ++ dependency
      ++ ".__esModule ? ".toList ++ dependency ++ " : \x7b \"default\": ".toList ++ dependency
      ++ " \x7d;".toList
  | declare bindings =>
    "var ".toList
      ++ Text.joinWith ", ".toList (bindings.map fun (name, expression) =>
          name ++ " = ".toList ++ expression)
      ++ ";".toList
  | exportAll index =>
    let dependency := dependencyVariable index
    "Object.keys(".toList ++ dependency
      ++ (").forEach(function (key) \x7b if (key === \"default\" || key === \"__esModule\" || "
        ++ "Object.prototype.hasOwnProperty.call(exports, key)) return; "
        ++ "Object.defineProperty(exports, key, \x7b enumerable: true, "
        ++ "get: function () \x7b return ").toList
      ++ dependency ++ "[key]; \x7d \x7d); \x7d);".toList
  | getter name expression =>
    "Object.defineProperty(exports, ".toList ++ Literal.write name
      ++ ", \x7b enumerable: true, get: function () \x7b return ".toList ++ expression
      ++ "; \x7d \x7d);".toList

end Statement

namespace Prologue

structure Imports where
  dependencies : List CodePoints := []
  -- The dependencies that have a view for default imports.
  viewed : List Nat := []
  statements : List Statement := []
  live : LiveBindings := []
  deriving Repr

-- The index of a specifier, with the statement that requires it at its first use.
def Imports.require (imports : Imports) (specifier : CodePoints) : Imports × Nat :=
  match imports.dependencies.findIdx? (· == specifier) with
  | some index => (imports, index)
  | none =>
    let index := imports.dependencies.length
    ({ imports with
        dependencies := imports.dependencies ++ [specifier]
        statements := imports.statements ++ [.require index specifier] }, index)

-- A name that the module declares again somewhere is not live and keeps its copied value.
def Imports.bind (localNames : List Text) (index : Nat) (imports : Imports)
    (binding : ImportBinding) : Imports :=
  let imports :=
    if binding.imported = .default && !imports.viewed.contains index then
      { imports with
        viewed := index :: imports.viewed
        statements := imports.statements ++ [.view index] }
    else imports
  if binding.imported = .namespace || localNames.contains binding.localName then imports
  else
    { imports with
      live := Dictionary.put imports.live binding.localName (bindingExpression index binding.imported) }

def Imports.add (localNames : List Text) (imports : Imports) (declaration : Declaration) :
    Imports :=
  match declaration.origin? with
  | none => imports
  | some specifier =>
    let (imports, index) := imports.require specifier
    match declaration.meaning with
    | .imports _ [] => imports
    | .imports _ bindings =>
      let imports := bindings.foldl (Imports.bind localNames index) imports
      { imports with
        statements := imports.statements ++ [.declare (bindings.map fun binding =>
          (binding.localName, bindingExpression index binding.imported))] }
    | .reexportsAll _ => { imports with statements := imports.statements ++ [.exportAll index] }
    | _ => imports

def imports (localNames : List Text) (declarations : List Declaration) : Imports :=
  declarations.foldl (Imports.add localNames) {}

-- The names that a declaration exports, each with the expression that its getter returns. The
-- value of a default expression has no getter, because the body assigns it.
def exports (imports : Imports) (declaration : Declaration) : List (Text × Option Text) :=
  let live (name : Text) : Option Text := some ((imports.live.lookup name).getD name)
  let index (specifier : CodePoints) : Nat :=
    (imports.dependencies.findIdx? (· == specifier)).getD imports.dependencies.length
  match declaration.meaning with
  | .imports _ _ | .reexportsAll _ => []
  | .assignsDefault _ _ => [(Keyword.default.spelling, none)]
  | .exportsLocal exported localName _ => [(exported, live localName)]
  | .exportsVariables names => names.map fun name => (name, live name)
  | .exportsNames bindings => bindings.map fun (exported, name) => (exported, live name)
  | .reexports specifier bindings =>
    bindings.map fun (exported, imported) =>
      (exported, some (indexed (dependencyVariable (index specifier)) imported))
  | .reexportsNamespace specifier name =>
    [(name, some (dependencyVariable (index specifier)))]

-- The first name, in order, that repeats an earlier one.
def firstRepeated? (seen : List Text) : List Text → Option Text
  | [] => none
  | name :: names => if seen.contains name then some name else firstRepeated? (name :: seen) names

def strictLine : Text := "\"use strict\";".toList

def markerLine : Text :=
  "Object.defineProperty(exports, \"__esModule\", \x7b value: true \x7d);".toList

-- The marker line stands only where something is exported.
def render (hasExports : Bool) (getters statements : List Statement) : Text :=
  Text.joinWith ['\n']
    ([strictLine] ++ (if hasExports then [markerLine] else [])
      ++ (getters ++ statements).map Statement.render)

end Prologue
end ModuleBundler
