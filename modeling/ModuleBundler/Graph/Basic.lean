import ModuleBundler.Asset

/-!
A module graph is a list of assets, the entry first. In a valid graph the identity of an asset is its
position, and every specifier of a module leads to an asset of the graph.
-/
namespace ModuleBundler

abbrev Graph := List Asset

namespace Graph

-- How a specifier that names a path begins.
def pathBeginnings : List Text := ["./".toList, "../".toList, "/".toList]

-- The path that a specifier spells, if it spells one. No extensions are added and no packages looked
-- up.
def spelled? (importer specifier : Text) : Option Text :=
  if pathBeginnings.any (Text.startsWith specifier) then
    some (Path.normalize (Path.join (Path.dirname importer) specifier))
  else none

-- A specifier that leads nowhere, as it is shown.
def unresolved (importer : Text) (specifier : CodePoints) : Failure :=
  .unresolved (CodePoints.shown specifier) importer (spelled? importer (CodePoints.shown specifier))

-- Resolving follows the spelling alone.
def resolve (importer : Text) (specifier : CodePoints) : Except Failure Text :=
  match spelled? importer (CodePoints.named specifier) with
  | some path => .ok path
  | none => .error (unresolved importer specifier)

-- The first asset whose identity is not its position.
def firstOutOfPlace (position : Nat) : Graph → Option (Nat × Asset)
  | [] => none
  | asset :: rest =>
    if asset.id = position then firstOutOfPlace (position + 1) rest else some (position, asset)

-- What is wrong with the mapping of one asset.
def mappingFault (ids : List Int) (asset : Asset) : Option GraphFault :=
  match asset.dependencies.filter fun specifier => (asset.mapping.lookup specifier).isNone with
  | [] =>
    (asset.mapping.find? fun entry => !ids.contains entry.2).map fun (specifier, target) =>
      .unknownTarget (CodePoints.shown specifier) target
  | missing =>
    let inOrder := missing.eraseDups.mergeSort fun a b => !decide (b < a)
    some (.unmapped inOrder)

-- The first violation, and the path of the asset it was found in.
def fault? (graph : Graph) : Option (Option Text × GraphFault) :=
  match graph with
  | [] => some (none, .empty)
  | entry :: _ =>
    if entry.id ≠ 0 then some (some entry.path, .entryId entry.id)
    else
      match firstOutOfPlace 0 graph with
      | some (position, asset) => some (some asset.path, .idOutOfPlace position asset.id)
      | none =>
        graph.findSome? fun asset =>
          (mappingFault (graph.map Asset.id) asset).map fun fault => (some asset.path, fault)

def validate (graph : Graph) : Except Failure Graph :=
  match graph.fault? with
  | none => .ok graph
  | some (path, fault) => .error (.graph path fault)

-- A member of a written object.
def member (key : CodePoints) (value : Text) : Text := Json.quoteCodes key ++ ':' :: ' ' :: value

def mappingMembers (mapping : Dictionary CodePoints Int) : List Text :=
  mapping.map fun (specifier, id) => member specifier (Json.intText id)

-- The graph as an indented document, without the code of its modules.
def describe (graph : Graph) : Text :=
  Json.indented 0 '[' ']' (graph.map fun asset =>
    Json.indented 1 '{' '}' [
      member "id".toList (Json.intText asset.id),
      member "path".toList (Json.quote asset.path),
      member "dependencies".toList (Json.indented 2 '[' ']' (asset.dependencies.map Json.quoteCodes)),
      member "mapping".toList (Json.indented 2 '{' '}' (mappingMembers asset.mapping))])

end Graph
end ModuleBundler
