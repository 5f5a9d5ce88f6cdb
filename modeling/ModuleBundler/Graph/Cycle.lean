import ModuleBundler.Graph.Basic

/-!
The import cycles of a graph. Each elementary cycle is found from its smallest identity, by walking
through larger ones only and through none twice.
-/
namespace ModuleBundler.Graph

-- Where the dependencies of an asset lead, each target once.
def targets (asset : Asset) : List Int :=
  asset.dependencies.foldl
    (fun found specifier =>
      match asset.mapping.lookup specifier with
      | some target => if found.contains target then found else found ++ [target]
      | none => found)
    []

-- Targets by identity; of two assets with one identity the later one counts.
def edges (graph : Graph) : Dictionary Int (List Int) :=
  graph.foldl (fun edges asset => Dictionary.put edges asset.id (targets asset)) []

def targetsOf (edges : Dictionary Int (List Int)) (id : Int) : List Int :=
  (edges.lookup id).getD []

-- The cycles that continue a path from `start` to `node`. Fuel bounds the length of a path.
def cyclesThrough (edges : Dictionary Int (List Int)) (start : Int) :
    Nat → List Int → Int → List (List Int)
  | 0, _, _ => []
  | fuel + 1, path, node =>
    (targetsOf edges node).flatMap fun target =>
      if target = start then [path]
      else if start < target && !path.contains target then
        cyclesThrough edges start fuel (path ++ [target]) target
      else []

-- The order of lists by their first difference; a list comes after its beginnings.
def pathLe : List Int → List Int → Bool
  | [], _ => true
  | _ :: _, [] => false
  | a :: s, b :: t => a < b || (a == b && pathLe s t)

-- A path has at most one node that is no asset, its last one.
def cycles (graph : Graph) : List (List Int) :=
  let edges := edges graph
  (edges.keys.flatMap fun start =>
    cyclesThrough edges start (edges.length + 1) [start] start).mergeSort pathLe

end ModuleBundler.Graph
