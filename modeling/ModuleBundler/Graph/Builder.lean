import ModuleBundler.Graph.Discovery

/-!
Building a graph with a context and a queue. The context gives the identities and remembers what was built; the
queue holds the assets that are still to be visited, in the order in which they were found.
-/
namespace ModuleBundler.Graph

structure Builder where
  context : BuildContext
  queue : List Asset
  graph : Graph

namespace Builder

-- A new asset is remembered, and is to be visited.
def add (builder : Builder) (asset : Asset) (context : BuildContext) : Builder :=
  ⟨context.remember asset, builder.queue ++ [asset], builder.graph ++ [asset]⟩

def start (workshop : Workshop) (entry : Text) : Logged Builder := do
  let path := workshop.absolute entry
  if workshop.disk.isFile path then
    let (asset, context) ← Logged.ofExcept (BuildContext.build {} workshop path)
    Logged.note .debug (entryNote asset)
    pure (add ⟨{}, [], []⟩ asset context)
  else Logged.fail (.unreadable path .entryMissing)

-- Follows one specifier to the asset it leads to, which is built unless the context knows its path.
def follow (workshop : Workshop) (importer : Asset) (builder : Builder) (specifier : CodePoints) :
    Logged (Asset × Builder) := do
  let path ← Logged.ofExcept (resolve importer.path specifier)
  match builder.context.lookup path with
  | some asset =>
    Logged.note .debug (reusedNote asset importer specifier)
    pure (asset, builder)
  | none =>
    if workshop.disk.isFile path then
      let (asset, context) ← Logged.ofExcept (builder.context.build workshop path)
      Logged.note .debug (foundNote asset importer specifier)
      pure (asset, builder.add asset context)
    else Logged.fail (unresolved importer.path specifier)

def followAll (workshop : Workshop) (importer : Asset) :
    List CodePoints → Dictionary CodePoints Int → Builder → Logged (Dictionary CodePoints Int × Builder)
  | [], mapping, builder => pure (mapping, builder)
  | specifier :: specifiers, mapping, builder => do
    let (target, builder) ← builder.follow workshop importer specifier
    followAll workshop importer specifiers (Dictionary.put mapping specifier target.id) builder

-- The asset with an identity is told where its specifiers lead.
def assign (builder : Builder) (id : Int) (mapping : Dictionary CodePoints Int) : Builder :=
  { builder with
    graph := builder.graph.map fun asset => if asset.id = id then { asset with mapping } else asset }

-- Visits what is in the queue, and what comes into it on the way. Fuel bounds the number of visits.
def drain (workshop : Workshop) : Nat → Builder → Logged Builder
  | 0, builder => pure builder
  | fuel + 1, builder =>
    match builder.queue with
    | [] => pure builder
    | asset :: queue => do
      let (mapping, builder) ← followAll workshop asset asset.dependencies [] { builder with queue }
      drain workshop fuel (builder.assign asset.id mapping)

end Builder

def build (workshop : Workshop) (entry : Text) : Logged Graph := do
  let builder ← Builder.start workshop entry
  let builder ← builder.drain workshop (mostAssets workshop + 1)
  Logged.ofExcept builder.graph.validate

end ModuleBundler.Graph
