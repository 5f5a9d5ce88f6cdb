import ModuleBundler.Graph.Discovery

/-!
The discovery with a record of the paths that modules are produced for. The record takes no part in
what is computed: leaving it out gives the discovery itself.
-/
namespace ModuleBundler

-- What has been produced stays recorded when a later step fails.
structure Recorded (α : Type) where
  produced : List Text
  step : Logged α

namespace Recorded

def lift (step : Logged α) : Recorded α := ⟨[], step⟩

def bind (first : Recorded α) (next : α → Recorded β) : Recorded β :=
  match first.step.outcome with
  | .error failure => ⟨first.produced, first.step.log, .error failure⟩
  | .ok value =>
    let rest := next value
    ⟨first.produced ++ rest.produced, first.step.log ++ rest.step.log, rest.step.outcome⟩

instance : Monad Recorded where
  pure value := lift (pure value)
  bind := bind

theorem step_bind (first : Recorded α) (next : α → Recorded β) :
    (first >>= next).step = first.step >>= fun value => (next value).step := by
  simp only [Bind.bind, bind, Logged.bind]
  cases first.step.outcome <;> rfl

theorem produced_bind (first : Recorded α) (next : α → Recorded β)
    (done : first.step.outcome = .ok value) :
    (first >>= next).produced = first.produced ++ (next value).produced := by
  simp only [Bind.bind, bind, done]

theorem outcome_bind (first : Recorded α) (next : α → Recorded β)
    (done : first.step.outcome = .ok value) :
    (first >>= next).step.outcome = (next value).step.outcome := by
  simp only [Bind.bind, bind, done]

-- A run of two steps that succeeds has a value between them.
theorem bind_parts (ran : (first >>= next : Recorded β).step.outcome = .ok result) :
    ∃ value, first.step.outcome = .ok value ∧ (next value).step.outcome = .ok result ∧
      (first >>= next).produced = first.produced ++ (next value).produced := by
  cases done : first.step.outcome with
  | error failure => simp only [Bind.bind, bind, done] at ran; cases ran
  | ok value => exact ⟨value, rfl, (outcome_bind first next done).symm.trans ran,
    produced_bind first next done⟩

end Recorded

namespace Graph

def recordNext (workshop : Workshop) (graph : Graph) (path : Text) : Recorded Asset :=
  ⟨[workshop.absolute path], Logged.ofExcept (graph.produceNext workshop path)⟩

def recordFollow (workshop : Workshop) (importer : Asset) (graph : Graph) (specifier : CodePoints) :
    Recorded (Asset × Graph) := do
  let path ← Recorded.lift (Logged.ofExcept (resolve importer.path specifier))
  match graph.assetAt? path with
  | some asset =>
    Recorded.lift (Logged.note .debug (reusedNote asset importer specifier))
    pure (asset, graph)
  | none =>
    if workshop.disk.isFile path then
      let asset ← graph.recordNext workshop path
      Recorded.lift (Logged.note .debug (foundNote asset importer specifier))
      pure (asset, graph ++ [asset])
    else Recorded.lift (Logged.fail (unresolved importer.path specifier))

def recordFollowAll (workshop : Workshop) (importer : Asset) :
    List CodePoints → Dictionary CodePoints Int → Graph → Recorded (Dictionary CodePoints Int × Graph)
  | [], mapping, graph => pure (mapping, graph)
  | specifier :: specifiers, mapping, graph => do
    let (target, graph) ← graph.recordFollow workshop importer specifier
    recordFollowAll workshop importer specifiers (Dictionary.put mapping specifier target.id) graph

def recordVisits (workshop : Workshop) : Nat → Nat → Graph → Recorded Graph
  | 0, _, graph => pure graph
  | fuel + 1, position, graph =>
    match graph[position]? with
    | none => pure graph
    | some asset => do
      let (mapping, graph) ← graph.recordFollowAll workshop asset asset.dependencies []
      recordVisits workshop fuel (position + 1) (graph.setMapping position mapping)

def recordEntry (workshop : Workshop) (entry : Text) : Recorded Asset := do
  let path := workshop.absolute entry
  if workshop.disk.isFile path then
    let asset ← recordNext workshop [] path
    Recorded.lift (Logged.note .debug (entryNote asset))
    pure asset
  else Recorded.lift (Logged.fail (.unreadable path .entryMissing))

def recordDiscovery (workshop : Workshop) (entry : Text) : Recorded Graph := do
  let asset ← recordEntry workshop entry
  let graph ← recordVisits workshop (mostAssets workshop + 1) 0 [asset]
  Recorded.lift (Logged.ofExcept graph.validate)

theorem step_recordFollow (workshop : Workshop) (importer : Asset) (graph : Graph)
    (specifier : CodePoints) :
    (graph.recordFollow workshop importer specifier).step
      = graph.follow workshop importer specifier := by
  unfold recordFollow follow
  rw [Recorded.step_bind]
  congr 1
  funext path
  cases known : graph.assetAt? path with
  | some asset => simp only [Recorded.step_bind]; rfl
  | none =>
    dsimp only
    split
    · simp only [Recorded.step_bind]; rfl
    · rfl

theorem step_recordFollowAll (workshop : Workshop) (importer : Asset) (specifiers : List CodePoints)
    (mapping : Dictionary CodePoints Int) (graph : Graph) :
    (graph.recordFollowAll workshop importer specifiers mapping).step
      = graph.followAll workshop importer specifiers mapping := by
  induction specifiers generalizing mapping graph with
  | nil => rfl
  | cons specifier specifiers ih =>
    simp only [recordFollowAll, followAll, Recorded.step_bind, step_recordFollow, ih]

theorem step_recordVisits (workshop : Workshop) (fuel position : Nat) (graph : Graph) :
    (recordVisits workshop fuel position graph).step = visitFrom workshop fuel position graph := by
  induction fuel generalizing position graph with
  | zero => rfl
  | succ fuel ih =>
    unfold recordVisits visitFrom
    cases graph[position]? with
    | none => rfl
    | some asset => simp only [Recorded.step_bind, step_recordFollowAll, ih]

theorem step_recordEntry (workshop : Workshop) (entry : Text) :
    (recordEntry workshop entry).step = produceEntry workshop entry := by
  unfold recordEntry produceEntry
  dsimp only
  split
  · simp only [Recorded.step_bind]; rfl
  · rfl

theorem step_recordDiscovery (workshop : Workshop) (entry : Text) :
    (recordDiscovery workshop entry).step = discover workshop entry := by
  simp only [recordDiscovery, discover, Recorded.step_bind, step_recordEntry, step_recordVisits]
  rfl

end Graph
end ModuleBundler
