import ModuleBundler.Proofs.Graph.Builder
import ModuleBundler.Session

/-!
Steps on one session, one behind the other, with files that change in between. The identities that are handed
out count up from zero, and a path leads to what was remembered under it last.
-/
namespace ModuleBundler
namespace Session

-- What a step has done to the session by the time that it fails stays done.
abbrev Step (α : Type) := ExceptT Failure (StateM Session) α

inductive Action where
  | takeId
  | build (rules : List LoaderRule) (transpiler : Transpiler) (path : Text)
  | remember (asset : Asset)
  | lookup (path : Text)
  | buildGraph (rules : List LoaderRule) (transpiler : Transpiler) (entry : Text)
  | write (path : Text) (entry : Entry)
  | remove (path : Text)
  | registerLoader (name : Text) (candidate : Option Loader)
  | unregisterLoader (name : Text)

inductive Answer where
  | id (id : Nat)
  | asset (asset : Asset)
  | found (asset : Option Asset)
  | graph (graph : Graph)
  | done

-- The parts of building one asset in the order in which they happen.
def makeAsset (rules : List LoaderRule) (transpiler : Transpiler) (path : Text) : Step Asset := do
  let session ← get
  let path := session.workshop.absolute path
  let source ← MonadExcept.ofExcept (session.read path)
  let loaded ← MonadExcept.ofExcept (session.loaders.apply rules path source)
  let transpiled ← MonadExcept.ofExcept (transpiler loaded path)
  let id ← modifyGet Session.takeId
  pure ⟨id, path, transpiled.dependencies, transpiled.code, []⟩

-- A step that answers with the session as it is then.
def replace (next : Session → Except Failure Session) : Step Session := do
  let session ← MonadExcept.ofExcept (next (← get))
  set session
  pure session

def Action.steps : Action → Step Answer
  | .takeId => do pure (.id (← modifyGet Session.takeId))
  | .build rules transpiler path => do pure (.asset (← makeAsset rules transpiler path))
  | .remember asset => do
    modify fun session => { session with context := session.context.remember asset }
    pure .done
  | .lookup path => do pure (.found ((← get).lookup path))
  | .buildGraph rules transpiler entry => do
    pure (.graph (← replace (·.buildGraphWith rules transpiler entry)).graph)
  | .write path entry => do
    modify (·.write path entry)
    pure .done
  | .remove path => do
    modify (·.remove path)
    pure .done
  | .registerLoader name candidate => do
    let _ ← replace (·.registerLoader name candidate)
    pure .done
  | .unregisterLoader name => do
    modify (·.unregisterLoader name)
    pure .done

def perform (session : Session) (action : Action) : Except Failure Answer × Session :=
  action.steps.run.run session

variable {session : Session} {action : Action}

section
variable (session : Session) (next : α → Step β)

theorem run_get_bind (next : Session → Step β) : (get >>= next).run.run session = (next session).run.run session := rfl

-- A failure ends the step with the session as it is by then.
theorem run_ofExcept_bind (outcome : Except Failure α) :
    (MonadExcept.ofExcept outcome >>= next).run.run session
      = match outcome with
        | .ok value => (next value).run.run session
        | .error failure => (.error failure, session) := by
  cases outcome with
  | ok => rfl
  | error => rfl

theorem ofExcept_bind (first : Except Failure α) (later : α → Except Failure β) (next : β → Step γ) :
    (MonadExcept.ofExcept first >>= fun value => MonadExcept.ofExcept (later value) >>= next)
      = (MonadExcept.ofExcept (first >>= later) >>= next) := by
  cases first with
  | ok => rfl
  | error => rfl

end

-- A step that fails leaves the session as it is.
def settle (session : Session) (outcome : Except Failure (Answer × Session)) : Except Failure Answer × Session :=
  match outcome with
  | .ok (answer, next) => (.ok answer, next)
  | .error failure => (.error failure, session)

theorem run_answer (step : Step α) (answer : α → β) (session : Session) :
    (step >>= fun value => pure (answer value)).run.run session
      = ((step.run.run session).1.map answer, (step.run.run session).2) := by
  simp
  rfl

theorem run_replace (next : Session → Except Failure Session) (answer : Session → Answer) (session : Session) :
    (replace next >>= fun session => pure (answer session)).run.run session
      = session.settle (do
          let next ← next session
          pure (answer next, next)) := by
  rw [run_answer, replace, run_get_bind, run_ofExcept_bind]
  cases next session with
  | ok => rfl
  | error => rfl

-- The file is read, loaded and transpiled for an asset of this session.
def produce (session : Session) (rules : List LoaderRule) (transpiler : Transpiler) (path : Text) :
    Except Failure Transpiled :=
  Workshop.produce { session.workshop with rules, transpiler } (session.workshop.absolute path)

-- Everything that can fail comes in front of the identity.
theorem perform_build (session : Session) (rules : List LoaderRule) (transpiler : Transpiler) (path : Text) :
    perform session (.build rules transpiler path)
      = session.settle (do
          let made ← session.produce rules transpiler path
          let asset := ⟨session.context.nextId, session.workshop.absolute path, made.dependencies,
            made.code, []⟩
          pure (.asset asset, session.takeId.2)) := by
  have produced : session.produce rules transpiler path
      = session.read (session.workshop.absolute path) >>= fun source =>
        session.loaders.apply rules (session.workshop.absolute path) source >>= fun loaded =>
        transpiler loaded (session.workshop.absolute path) := rfl
  rw [perform, Action.steps, run_answer]
  simp only [makeAsset, run_get_bind, ofExcept_bind, ← produced]
  rw [run_ofExcept_bind]
  cases session.produce rules transpiler path with
  | ok => rfl
  | error => rfl

-- With its own rules and its own transpiler a session builds what it builds in one step.
theorem perform_buildAsset (session : Session) (path : Text) :
    perform session (.build session.rules session.transpiler path)
      = session.settle (do
          let (asset, next) ← session.buildAsset path false
          pure (.asset asset, next)) := by
  have own : session.produce session.rules session.transpiler path
      = session.workshop.produce (session.workshop.absolute path) := rfl
  simp only [perform_build, own, buildAsset, BuildContext.build, Workshop.produceAsset]
  cases session.workshop.produce (session.workshop.absolute path) with
  | ok => rfl
  | error => rfl

theorem perform_buildGraph (session : Session) (rules : List LoaderRule) (transpiler : Transpiler) (entry : Text) :
    perform session (.buildGraph rules transpiler entry)
      = session.settle (do
          let next ← session.buildGraphWith rules transpiler entry
          pure (.graph next.graph, next)) :=
  run_replace (·.buildGraphWith rules transpiler entry) (fun next => .graph next.graph) session

theorem perform_registerLoader (session : Session) (name : Text) (candidate : Option Loader) :
    perform session (.registerLoader name candidate)
      = session.settle (do
          let next ← session.registerLoader name candidate
          pure (.done, next)) :=
  run_replace (·.registerLoader name candidate) (fun _ => .done) session

-- A step that was taken, with the session in front of it and behind it.
structure Event where
  before : Session
  action : Action
  outcome : Except Failure Answer
  after : Session

def step (session : Session) (action : Action) : Event :=
  ⟨session, action, (perform session action).1, (perform session action).2⟩

def history (session : Session) : List Action → List Event
  | [] => []
  | action :: actions => session.step action :: history (session.step action).after actions

-- The identity that a step hands out.
def Event.handed (event : Event) : Option Int :=
  match event.outcome with
  | .ok (.id id) => some id
  | .ok (.asset asset) => some asset.id
  | _ => none

def Event.remembered (event : Event) : Option Asset :=
  match event.action with
  | .remember asset => some asset
  | _ => none

-- What was remembered under a path by the last step that did.
def latest (path : Text) (events : List Event) : Option Asset :=
  (events.filterMap Event.remembered).reverse.find? fun asset => asset.path == path

-- What one step does to the identities and to what is remembered.
structure Event.Counts (event : Event) : Prop where
  handed : ∀ id, event.handed = some id → id = event.before.context.nextId
  counter : event.after.context.nextId = event.before.context.nextId + event.handed.toList.length
  cache : ∀ path, event.after.lookup path
    = (event.remembered.filter fun asset => asset.path == path).or (event.before.lookup path)

variable {event : Event} {events earlier later : List Event}

-- A step that changes neither.
theorem Event.Counts.still (same : event.after.context = event.before.context) (none_ : event.handed = none)
    (forgets : event.remembered = none) : event.Counts where
  handed := by simp [none_]
  counter := by simp [same, none_]
  cache := by simp [Session.lookup, same, forgets]

theorem Event.Counts.settled {outcome : Except Failure (Answer × Session)}
    (settles : perform session action = session.settle outcome) (forgets : (session.step action).remembered = none)
    (given : ∀ answer next, outcome = .ok (answer, next) → Event.Counts ⟨session, action, .ok answer, next⟩) :
    (session.step action).Counts := by
  unfold step at forgets ⊢
  rw [settles] at forgets ⊢
  cases outcome with
  | ok value => exact given value.1 value.2 rfl
  | error failure => exact .still rfl rfl forgets

theorem step_counts (session : Session) (action : Action) : (session.step action).Counts := by
  cases action with
  | takeId => exact ⟨fun _ given => (Option.some.inj given).symm, rfl, fun _ => rfl⟩
  | build rules transpiler path =>
    refine .settled (perform_build session rules transpiler path) rfl fun answer next made => ?_
    obtain ⟨transpiled, _, same⟩ := ok_of_bind made
    cases same
    exact ⟨fun _ given => (Option.some.inj given).symm, rfl, fun _ => rfl⟩
  | remember asset =>
    refine ⟨nofun, rfl, fun path => (Dictionary.lookup_put session.context.remembered asset.path path asset).trans ?_⟩
    have given : (session.step (.remember asset)).remembered = some asset := rfl
    rw [given, Option.filter_some, BEq.comm]
    split
    · rfl
    · rfl
  | lookup path => exact .still rfl rfl rfl
  | buildGraph rules transpiler entry =>
    refine .settled (perform_buildGraph session rules transpiler entry) rfl fun answer next built => ?_
    obtain ⟨found, discovered, same⟩ := ok_of_bind built
    cases same
    obtain ⟨graph, _, same⟩ := ok_of_bind discovered
    cases same
    exact .still rfl rfl rfl
  | write path entry => exact .still rfl rfl rfl
  | remove path => exact .still rfl rfl rfl
  | registerLoader name candidate =>
    refine .settled (perform_registerLoader session name candidate) rfl fun answer next registered => ?_
    obtain ⟨found, accepted, same⟩ := ok_of_bind registered
    cases same
    obtain ⟨loaders, _, same⟩ := ok_of_bind accepted
    cases same
    exact .still rfl rfl rfl
  | unregisterLoader name => exact .still rfl rfl rfl

theorem latest_cons (path : Text) (event : Event) (events : List Event) :
    latest path (event :: events)
      = (latest path events).or (event.remembered.filter fun asset => asset.path == path) := by
  unfold latest
  cases remembered : event.remembered with
  | none => simp [remembered]
  | some asset =>
    simp only [List.filterMap_cons, remembered, List.reverse_cons, List.find?_append,
      List.find?_singleton, Option.filter_some]

-- How many identities have been handed out when a step begins, and what is remembered then.
theorem history_split (parted : history session actions = earlier ++ event :: later) :
    event = event.before.step event.action ∧
      event.before.context.nextId = session.context.nextId + (earlier.filterMap Event.handed).length ∧
      ∀ path, event.before.lookup path = (latest path earlier).or (session.lookup path) := by
  induction earlier generalizing session actions with
  | nil =>
    cases actions with
    | nil => cases parted
    | cons action actions =>
      obtain ⟨rfl, _⟩ := List.cons.inj parted
      exact ⟨rfl, rfl, fun _ => rfl⟩
  | cons first earlier ih =>
    cases actions with
    | nil => cases parted
    | cons action actions =>
      obtain ⟨rfl, behind⟩ := List.cons.inj parted
      obtain ⟨taken, counted, found⟩ := ih behind
      have counts := step_counts session action
      refine ⟨taken, ?_, fun path => ?_⟩
      · have here : (session.step action).before = session := rfl
        rw [counted, counts.counter, here, List.filterMap_cons, Nat.add_assoc]
        cases (session.step action).handed with
        | none => simp
        | some => simp [Nat.add_comm]
      · rw [found, counts.cache, latest_cons, Option.or_assoc]
        rfl

theorem history_handed (session : Session) (actions : List Action) :
    ∃ count, (history session actions).filterMap Event.handed
      = (List.range' session.context.nextId count).map Int.ofNat := by
  induction actions generalizing session with
  | nil => exact ⟨0, rfl⟩
  | cons action actions ih =>
    obtain ⟨count, behind⟩ := ih (session.step action).after
    have counts := step_counts session action
    rw [history, List.filterMap_cons, behind, counts.counter]
    cases given : (session.step action).handed with
    | none => exact ⟨count, by simp; rfl⟩
    | some id =>
      refine ⟨count + 1, ?_⟩
      rw [counts.handed id given]
      rfl

-- A step behind others, by what those have handed out and remembered.
structure Event.Accounted (earlier : List Event) (event : Event) : Prop where
  counter : event.before.context.nextId = (earlier.filterMap Event.handed).length
  taken : event.action = .takeId → event.outcome = .ok (.id (earlier.filterMap Event.handed).length)
  built : ∀ rules transpiler path made, event.action = .build rules transpiler path →
    event.before.produce rules transpiler path = .ok made →
      event.outcome = .ok (.asset ⟨(earlier.filterMap Event.handed).length,
        event.before.workshop.absolute path,
        made.dependencies, made.code, []⟩) ∧ event.after.context.remembered = event.before.context.remembered
  own : ∀ path, event.action = .build event.before.rules event.before.transpiler path →
    (event.outcome, event.after) = event.before.settle (do
      let (asset, next) ← event.before.buildAsset path false
      pure (.asset asset, next))
  refused : ∀ rules transpiler path failure, event.action = .build rules transpiler path →
    event.before.produce rules transpiler path = .error failure →
      event.outcome = .error failure ∧ event.after.context = event.before.context
  isolated : ∀ rules transpiler entry, event.action = .buildGraph rules transpiler entry →
    event.outcome
        = (Graph.discover { event.before.workshop with rules, transpiler } entry).outcome.map
          Answer.graph ∧
      event.after.context = event.before.context
  found : ∀ path, event.action = .lookup path → event.outcome = .ok (.found (latest path earlier))

theorem buildGraph_kept (session : Session) (rules : List LoaderRule) (transpiler : Transpiler) (entry : Text) :
    (perform session (.buildGraph rules transpiler entry)).1
        = (Graph.discover { session.workshop with rules, transpiler } entry).outcome.map Answer.graph ∧
      (perform session (.buildGraph rules transpiler entry)).2.context = session.context := by
  rw [perform_buildGraph, buildGraphWith, Graph.build_eq_discover]
  cases (Graph.discover { session.workshop with rules, transpiler } entry).outcome with
  | ok => exact ⟨rfl, rfl⟩
  | error => exact ⟨rfl, rfl⟩

-- Whatever steps are taken, identities are handed out in order, and each is known from the steps before.
theorem history_accounted (session : Session) (actions : List Action) :
    (∃ count, (history { session with context := {} } actions).filterMap Event.handed
      = (List.range count).map Int.ofNat) ∧
    ∀ earlier event later, history { session with context := {} } actions = earlier ++ event :: later →
      event.Accounted earlier := by
  constructor
  · obtain ⟨count, handed⟩ := history_handed { session with context := {} } actions
    exact ⟨count, by rw [handed, List.range_eq_range']⟩
  · intro earlier event later parted
    obtain ⟨step, counter, found⟩ := history_split parted
    obtain ⟨before, action, outcome, after⟩ := event
    dsimp only at step counter found
    cases step
    rw [Nat.zero_add] at counter
    refine ⟨counter, ?_, ?_, ?_, ?_, ?_, ?_⟩
    · rintro rfl
      exact congrArg (fun id => Except.ok (Answer.id id)) counter
    · rintro rules transpiler path made rfl produced
      dsimp only at produced ⊢
      rw [perform_build, produced, ← counter]
      exact ⟨rfl, rfl⟩
    · intro path taken
      dsimp only at taken
      subst taken
      exact perform_buildAsset before path
    · rintro rules transpiler path failure rfl produced
      dsimp only at produced ⊢
      rw [perform_build, produced]
      exact ⟨rfl, rfl⟩
    · rintro rules transpiler entry rfl
      exact buildGraph_kept before rules transpiler entry
    · rintro path rfl
      have here : before.lookup path = latest path earlier := (found path).trans Option.or_none
      exact congrArg (fun asset => Except.ok (Answer.found asset)) here

end Session
end ModuleBundler
