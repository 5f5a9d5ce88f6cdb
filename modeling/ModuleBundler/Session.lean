import ModuleBundler.Bundle.Basic
import ModuleBundler.Graph.Builder
import ModuleBundler.Graph.Cycle

/-!
A session works on one file tree over many steps: files change, single assets are built in one
context, and a current graph is built, edited and bundled. A step that fails leaves the session as
it was.
-/
namespace ModuleBundler

structure Session where
  disk : Disk
  loaders : Loaders
  rules : List LoaderRule
  transpiler : Transpiler
  context : BuildContext
  graph : Graph

namespace Session

def workshop (session : Session) : Workshop :=
  ⟨session.disk, session.loaders, session.rules, session.transpiler⟩

-- New rules and a new transpiler begin a new context; the graph stays.
def configure (session : Session) (rules : List LoaderRule) (transpiler : Transpiler) : Session :=
  { session with rules, transpiler, context := {} }

def start (disk : Disk) (rules : List LoaderRule) (transpiler : Transpiler) : Session :=
  ⟨disk, Loaders.standard, rules, transpiler, {}, []⟩

def write (session : Session) (path : Text) (entry : Entry) : Session :=
  { session with disk := session.disk.add path entry }

def remove (session : Session) (path : Text) : Session :=
  { session with disk := session.disk.remove path }

def takeId (session : Session) : Nat × Session :=
  let (id, context) := session.context.takeId
  (id, { session with context })

def lookup (session : Session) (path : Text) : Option Asset := session.context.lookup path

def read (session : Session) (path : Text) : Except Failure Text := session.workshop.read path

def buildAsset (session : Session) (path : Text) (remembered : Bool) :
    Except Failure (Asset × Session) := do
  let (asset, context) ← session.context.build session.workshop path
  let context := if remembered then context.remember asset else context
  pure (asset, { session with context })

-- The graph is built with rules and a transpiler of its own, apart from the context.
def buildGraphWith (session : Session) (rules : List LoaderRule) (transpiler : Transpiler)
    (entry : Text) : Except Failure Session := do
  let graph ← (Graph.build { session.workshop with rules, transpiler } entry).outcome
  pure { session with graph }

def buildGraph (session : Session) (entry : Text) : Except Failure Session :=
  session.buildGraphWith session.rules session.transpiler entry

-- The position that an index stands for. A negative index counts from the end.
def position? (session : Session) (index : Int) : Option Nat :=
  let position := if index < 0 then index + session.graph.length else index
  if 0 ≤ position && position < session.graph.length then some position.toNat else none

def assetAt (session : Session) (index : Int) : Except Failure Asset :=
  match (session.position? index).bind fun position => session.graph[position]? with
  | some asset => .ok asset
  | none => .error .noAsset

def setAsset (session : Session) (index : Int) (asset : Asset) : Session :=
  match session.position? index with
  | some position => { session with graph := session.graph.set position asset }
  | none => session

def mapSpecifier (session : Session) (index : Int) (specifier : CodePoints) (target : Int) :
    Except Failure Session := do
  let asset ← session.assetAt index
  pure (session.setAsset index
    { asset with mapping := Dictionary.put asset.mapping specifier target })

-- Only a specifier that is mapped can be taken out.
def unmapSpecifier (session : Session) (index : Int) (specifier : CodePoints) :
    Except Failure Session := do
  let asset ← session.assetAt index
  if (asset.mapping.lookup specifier).isSome then
    pure (session.setAsset index
      { asset with mapping := Dictionary.erase asset.mapping specifier })
  else throw (.notMapped (CodePoints.shown specifier))

def setId (session : Session) (index : Int) (id : Int) : Except Failure Session := do
  let asset ← session.assetAt index
  pure (session.setAsset index { asset with id })

def drop (session : Session) (index : Int) : Except Failure Session :=
  match session.position? index with
  | some position => .ok { session with graph := session.graph.eraseIdx position }
  | none => .error .nothingToDrop

def swap (session : Session) (first second : Int) : Except Failure Session := do
  let earlier ← session.assetAt second
  let later ← session.assetAt first
  pure ((session.setAsset first earlier).setAsset second later)

def registerLoader (session : Session) (name : Text) (candidate : Option Loader) :
    Except Failure Session := do
  let loaders ← session.loaders.register name candidate
  pure { session with loaders }

def unregisterLoader (session : Session) (name : Text) : Session :=
  { session with loaders := Dictionary.erase session.loaders name }

def applyLoader (session : Session) (name path source : Text) : Except Failure Text := do
  let loader ← session.loaders.get name
  loader path source

end Session
end ModuleBundler
