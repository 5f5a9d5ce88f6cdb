import ModuleBundler.Graph.Basic
import ModuleBundler.Logged

/-!
Discovering the modules that an entry file needs. Modules are visited in the order in which they
were found; the specifiers of a module are followed in order, and each distinct path becomes one
asset. The first fault ends the discovery.
-/
namespace ModuleBundler.Graph

def entryNote (asset : Asset) : Text :=
  "Entry module ".toList ++ Json.intText asset.id ++ ": ".toList ++ asset.path

def foundNote (asset importer : Asset) (specifier : CodePoints) : Text :=
  "Module ".toList ++ Json.intText asset.id ++ ": ".toList ++ asset.path ++ " (from '".toList
    ++ CodePoints.shown specifier ++ "' in ".toList ++ Json.intText importer.id ++ [')']

def reusedNote (asset importer : Asset) (specifier : CodePoints) : Text :=
  "Reusing module ".toList ++ Json.intText asset.id ++ " for '".toList ++ CodePoints.shown specifier
    ++ "' in ".toList ++ Json.intText importer.id

def assetAt? (graph : Graph) (path : Text) : Option Asset :=
  graph.find? fun asset => asset.path == path

-- Produces the asset that comes next; its identity is its position.
def produceNext (workshop : Workshop) (graph : Graph) (path : Text) : Except Failure Asset :=
  workshop.produceAsset graph.length (workshop.absolute path)

-- Follows one specifier to the asset it leads to, which is added unless it is there already.
def follow (workshop : Workshop) (importer : Asset) (graph : Graph) (specifier : CodePoints) :
    Logged (Asset × Graph) := do
  let path ← Logged.ofExcept (resolve importer.path specifier)
  match graph.assetAt? path with
  | some asset =>
    Logged.note .debug (reusedNote asset importer specifier)
    pure (asset, graph)
  | none =>
    if workshop.disk.isFile path then
      let asset ← Logged.ofExcept (graph.produceNext workshop path)
      Logged.note .debug (foundNote asset importer specifier)
      pure (asset, graph ++ [asset])
    else Logged.fail (unresolved importer.path specifier)

-- Follows specifiers in order; their targets make up the mapping of the importer.
def followAll (workshop : Workshop) (importer : Asset) :
    List CodePoints → Dictionary CodePoints Int → Graph → Logged (Dictionary CodePoints Int × Graph)
  | [], mapping, graph => pure (mapping, graph)
  | specifier :: specifiers, mapping, graph => do
    let (target, graph) ← graph.follow workshop importer specifier
    followAll workshop importer specifiers (Dictionary.put mapping specifier target.id) graph

def setMapping (graph : Graph) (position : Nat) (mapping : Dictionary CodePoints Int) : Graph :=
  graph.modify position fun asset => { asset with mapping := mapping }

-- Visits the assets from a position on, those that are found on the way included. Fuel bounds the
-- number of visits.
def visitFrom (workshop : Workshop) : Nat → Nat → Graph → Logged Graph
  | 0, _, graph => pure graph
  | fuel + 1, position, graph =>
    match graph[position]? with
    | none => pure graph
    | some asset => do
      let (mapping, graph) ← graph.followAll workshop asset asset.dependencies []
      visitFrom workshop fuel (position + 1) (graph.setMapping position mapping)

-- Every asset is a file, and a file has at most two absolute paths: one with a slash at its start
-- and one with two.
def mostAssets (workshop : Workshop) : Nat := 2 * workshop.disk.entries.length

def produceEntry (workshop : Workshop) (entry : Text) : Logged Asset := do
  let path := workshop.absolute entry
  if workshop.disk.isFile path then
    let asset ← Logged.ofExcept (produceNext workshop [] path)
    Logged.note .debug (entryNote asset)
    pure asset
  else Logged.fail (.unreadable path .entryMissing)

-- The graph of all modules that an entry file needs.
def discover (workshop : Workshop) (entry : Text) : Logged Graph := do
  let asset ← produceEntry workshop entry
  let graph ← visitFrom workshop (mostAssets workshop + 1) 0 [asset]
  Logged.ofExcept graph.validate

end ModuleBundler.Graph
