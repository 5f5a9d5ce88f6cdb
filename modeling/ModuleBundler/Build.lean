import ModuleBundler.Bundle.Basic
import ModuleBundler.Graph.Builder
import ModuleBundler.Graph.Cycle

/-!
A whole build: the graph is built, its import cycles are reported to those who follow the
build, and the bundle is put together.
-/
namespace ModuleBundler

namespace Build

def cycleNote (graph : Graph) (cycle : List Int) : Text :=
  let names := cycle.filterMap fun id => (graph[id.toNat]?).map fun asset =>
    Path.basename asset.path
  "Circular import: ".toList ++ Text.joinWith " -> ".toList (names ++ names.take 1)

def noteCycles (graph : Graph) : List (List Int) → Logged Unit
  | [] => pure ()
  | cycle :: cycles => do
    Logged.note .debug (cycleNote graph cycle)
    noteCycles graph cycles

-- Cycles are looked for only when somebody follows the build.
def graph (workshop : Workshop) (verbose : Bool) (entry : Text) : Logged Graph := do
  Logged.note .debug ("Building module graph from: ".toList ++ entry)
  let graph ← Graph.build workshop entry
  Logged.note .debug
    ("Discovered ".toList ++ Json.natText graph.length ++ " module(s)".toList)
  if verbose then noteCycles graph graph.cycles
  pure graph

def bundle (workshop : Workshop) (verbose : Bool) (format : BundleFormat) (hasBanner : Bool)
    (entry : Option Text) : Logged Text :=
  match entry with
  | none | some [] => Logged.fail .noEntry
  | some entry => do
    let graph ← graph workshop verbose entry
    Logged.note .debug
      ("Emitting bundle (format=".toList ++ format.name.toList ++ [')'])
    Bundle.emit format hasBanner graph

end Build
end ModuleBundler
