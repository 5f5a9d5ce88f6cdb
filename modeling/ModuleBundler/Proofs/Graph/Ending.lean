import ModuleBundler.Proofs.Graph.Closure

/-!
How a discovery ends. The loop over the assets is described without a bound on its visits; it always
ends, with a graph exactly if every module that the entry reaches can be built, and otherwise with the
failure of the first step, in breadth-first order, that fails.
-/
namespace ModuleBundler

-- With distinct keys the look-up of a key is the one entry that it has.
theorem Dictionary.lookup_of_mem [BEq κ] [LawfulBEq κ] {entries : Dictionary κ α}
    (distinct : entries.keys.Nodup) (member : (key, value) ∈ entries) :
    entries.lookup key = some value := by
  induction entries with
  | nil => cases member
  | cons entry rest ih =>
    obtain ⟨k, v⟩ := entry
    obtain ⟨absent, later⟩ := List.nodup_cons.mp distinct
    rcases List.mem_cons.mp member with same | older
    · cases same
      simp
    · have different : key ≠ k := by
        rintro rfl
        exact absent (List.mem_map.mpr ⟨_, older, rfl⟩)
      simpa [List.lookup_cons, beq_false_of_ne different] using ih later older

namespace Graph

-- The loop over the assets from a position on. Nothing bounds the visits here, so that a derivation
-- is a run of the loop that ends.
inductive Visits (workshop : Workshop) : Nat → Graph → Except Failure Graph → Prop where
  | done (ended : graph[position]? = none) : Visits workshop position graph (.ok graph)
  | failed {failure : Failure} (at_ : graph[position]? = some asset)
      (ran : (graph.followAll workshop asset asset.dependencies []).outcome = .error failure) :
      Visits workshop position graph (.error failure)
  | visited (at_ : graph[position]? = some asset)
      (ran : (graph.followAll workshop asset asset.dependencies []).outcome = .ok (mapping, next))
      (rest : Visits workshop (position + 1) (next.setMapping position mapping) outcome) :
      Visits workshop position graph outcome

-- A whole build without the check of its graph.
inductive Builds (workshop : Workshop) (entry : Text) : Except Failure Graph → Prop where
  | stopped {failure : Failure} (ran : (produceEntry workshop entry).outcome = .error failure) :
      Builds workshop entry (.error failure)
  | entered (ran : (produceEntry workshop entry).outcome = .ok asset)
      (visits : Visits workshop 0 [asset] outcome) : Builds workshop entry outcome

-- The module at a path can be read, loaded and transpiled, and each of its specifiers leads to a file.
def Buildable (workshop : Workshop) (path : Text) : Prop :=
  ∃ source loaded transpiled, workshop.read path = .ok source ∧
    workshop.loaders.apply workshop.rules path source = .ok loaded ∧
    workshop.transpiler loaded path = .ok transpiled ∧
    ∀ specifier ∈ transpiled.dependencies, ∃ target,
      resolve path specifier = .ok target ∧ workshop.disk.isFile target = true

-- Why a file does not yield a module.
inductive Refuses (workshop : Workshop) (path : Text) : Failure → Prop where
  | unread {failure : Failure} (fault : workshop.read path = .error failure) :
      Refuses workshop path failure
  | unloaded {failure : Failure} (read : workshop.read path = .ok source)
      (fault : workshop.loaders.apply workshop.rules path source = .error failure) :
      Refuses workshop path failure
  | untranspiled {failure : Failure} (read : workshop.read path = .ok source)
      (loads : workshop.loaders.apply workshop.rules path source = .ok loaded)
      (fault : workshop.transpiler loaded path = .error failure) : Refuses workshop path failure

-- Why one specifier cannot be followed: it names no path, or a path without a file, or a file that
-- does not yield a module.
inductive Fails (workshop : Workshop) (importer : Text) (specifier : CodePoints) : Failure → Prop where
  | spelling {failure : Failure} (unresolved : resolve importer specifier = .error failure) :
      Fails workshop importer specifier failure
  | missing (resolved : resolve importer specifier = .ok path)
      (absent : workshop.disk.isFile path = false) :
      Fails workshop importer specifier (Graph.unresolved importer specifier)
  | broken {failure : Failure} (resolved : resolve importer specifier = .ok path)
      (file : workshop.disk.isFile path = true) (refused : Refuses workshop path failure) :
      Fails workshop importer specifier failure

-- The first step that fails. In front of a specifier the graph holds what the places before it lead
-- to, in breadth-first order, so that none of these has failed.
inductive FirstFailure (workshop : Workshop) (entry : Text) : Failure → Prop where
  | absent (absent : workshop.disk.isFile entry = false) :
      FirstFailure workshop entry (.unreadable entry .entryMissing)
  | entry {failure : Failure} (file : workshop.disk.isFile entry = true)
      (refused : Refuses workshop entry failure) :
      FirstFailure workshop entry failure
  | specifier {failure : Failure} (found : Found workshop entry (position, count) graph)
      (importerAt : graph[position]? = some importer)
      (specifierAt : importer.dependencies[count]? = some specifier)
      (fails : Fails workshop importer.path specifier failure) : FirstFailure workshop entry failure

variable {workshop : Workshop} {graph next : Graph} {asset importer : Asset} {place front : Place}
  {position count : Nat} {path entry : Text} {specifier : CodePoints} {failure : Failure}

theorem produce_ok_iff : workshop.produce path = .ok transpiled ↔
    ∃ source loaded, workshop.read path = .ok source ∧
      workshop.loaders.apply workshop.rules path source = .ok loaded ∧
      workshop.transpiler loaded path = .ok transpiled := by
  unfold Workshop.produce
  cases workshop.read path with
  | error fault => simp [bind, Except.bind]
  | ok source =>
    cases loads : workshop.loaders.apply workshop.rules path source <;> simp [bind, Except.bind, loads]

theorem produce_error_iff :
    workshop.produce path = .error failure ↔ Refuses workshop path failure := by
  unfold Workshop.produce
  constructor
  · intro fails
    cases read : workshop.read path with
    | error fault =>
      rw [read] at fails
      cases fails
      exact .unread read
    | ok source =>
      simp only [read, bind, Except.bind] at fails
      cases loads : workshop.loaders.apply workshop.rules path source with
      | error fault =>
        rw [loads] at fails
        cases fails
        exact .unloaded read loads
      | ok loaded =>
        rw [loads] at fails
        exact .untranspiled read loads fails
  · intro refuses
    cases refuses with
    | unread fault => rw [fault]; rfl
    | unloaded read fault => simp only [read, bind, Except.bind, fault]
    | untranspiled read loads fault => simp only [read, bind, Except.bind, loads, fault]

theorem produceNext_refused (canonical : Path.Canonical path)
    (refused : produceNext workshop graph path = .error failure) :
    Refuses workshop path failure := by
  rw [← produce_error_iff]
  unfold produceNext Workshop.produceAsset at refused
  rw [show workshop.absolute path = path from canonical.absolute _] at refused
  cases yielded : workshop.produce path with
  | error fault => rw [yielded] at refused; cases refused; rfl
  | ok transpiled => rw [yielded] at refused; cases refused

theorem follow_fails (canonical : Path.Canonical importer.path)
    (ran : (graph.follow workshop importer specifier).outcome = .error failure) :
    Fails workshop importer.path specifier failure := by
  unfold follow at ran
  rw [Logged.outcome_bind, Logged.outcome_ofExcept] at ran
  cases resolved : resolve importer.path specifier with
  | error fault =>
    rw [resolved] at ran
    cases ran
    exact .spelling resolved
  | ok path =>
    simp only [resolved, bind, Except.bind] at ran
    split at ran
    · cases ran
    · split at ran
      · rename_i file
        have refused : produceNext workshop graph path = .error failure := by
          cases made : produceNext workshop graph path with
          | error fault => rw [made] at ran; cases ran; rfl
          | ok asset => rw [made] at ran; cases ran
        exact .broken resolved file (produceNext_refused (resolve_canonical canonical.isAbsolute resolved) refused)
      · rename_i absent
        cases ran
        exact .missing resolved (Bool.eq_false_iff.mpr absent)

-- The specifiers of one module: the first one that cannot be followed is the first failure.
theorem followAll_stops (specifiers : List CodePoints) (mapping : Dictionary CodePoints Int) (graph : Graph)
    (valid : Found workshop entry (position, count) graph)
    (importerAt : graph[position]? = some importer)
    (rest : importer.dependencies.drop count = specifiers)
    (leads : Leads graph importer.path (importer.dependencies.take count) mapping)
    (ran : (graph.followAll workshop importer specifiers mapping).outcome = .error failure) :
    FirstFailure workshop entry failure := by
  induction specifiers generalizing count mapping graph with
  | nil => cases ran
  | cons specifier specifiers ih =>
    obtain ⟨specifierAt, later⟩ := drop_parts rest
    rw [followAll, Logged.outcome_bind] at ran
    cases followed : (graph.follow workshop importer specifier).outcome with
    | error fault =>
      rw [followed] at ran
      cases ran
      have canonical := (valid.made position importer importerAt).canonical
      exact .specifier valid importerAt specifierAt (follow_fails canonical followed)
    | ok reached =>
      obtain ⟨target, middle⟩ := reached
      rw [followed] at ran
      rw [← step_recordFollow] at followed
      obtain ⟨validMiddle, leadsMiddle, grown⟩ :=
        follow_found valid importerAt specifierAt leads followed
      exact ih _ middle validMiddle (grown.kept _ _ importerAt) later leadsMiddle ran

-- What one visit leaves behind, where it succeeds.
theorem followAll_advances (valid : Found workshop entry (position, 0) graph)
    (importerAt : graph[position]? = some importer)
    (ran : (graph.followAll workshop importer importer.dependencies []).outcome = .ok (mapping, next)) :
    Found workshop entry (position + 1, 0) (next.setMapping position mapping) ∧ position < next.length := by
  rw [← step_recordFollowAll] at ran
  obtain ⟨validNext, _, grown⟩ := followAll_found importer.dependencies [] graph valid importerAt
    (by simp) ⟨by simp [Dictionary.keys], by simp [Dictionary.keys], by simp⟩ ran
  have there := grown.kept position importer importerAt
  exact ⟨(validNext.advance there).bare (setMapping_bare next position mapping),
    (List.getElem?_eq_some_iff.mp there).1⟩

theorem Visits.stops (visits : Visits workshop position graph (.error failure))
    (valid : Found workshop entry (position, 0) graph) : FirstFailure workshop entry failure := by
  generalize same : Except.error failure = outcome at visits
  induction visits with
  | done ended => cases same
  | failed at_ ran =>
    cases same
    exact followAll_stops _ [] _ valid at_ (by simp)
      ⟨by simp [Dictionary.keys], by simp [Dictionary.keys], by simp⟩ ran
  | visited at_ ran rest ih => exact ih (followAll_advances valid at_ ran).1 same

theorem Visits.unique (visits : Visits workshop position graph outcome)
    (others : Visits workshop position graph other) : outcome = other := by
  induction visits with
  | done ended =>
    cases others with
    | done => rfl
    | failed at_ | visited at_ => rw [ended] at at_; cases at_
  | failed at_ ran =>
    cases others with
    | done ended => cases ended.symm.trans at_
    | failed there ran' =>
      cases at_.symm.trans there
      cases ran.symm.trans ran'
      rfl
    | visited there ran' =>
      cases at_.symm.trans there
      cases ran.symm.trans ran'
  | visited at_ ran rest ih =>
    cases others with
    | done ended => cases ended.symm.trans at_
    | failed there ran' =>
      cases at_.symm.trans there
      cases ran.symm.trans ran'
    | visited there ran' rest' =>
      cases at_.symm.trans there
      cases ran.symm.trans ran'
      exact ih rest'

-- A visit moves on in a list that cannot grow past the files there are, so that the fuel outlasts
-- the loop: what is computed with it is what the loop ends with.
theorem visitFrom_visits (fuel position : Nat) (graph : Graph)
    (valid : Found workshop entry (position, 0) graph)
    (enough : mostAssets workshop < fuel + position) (bounded : position ≤ graph.length) :
    Visits workshop position graph (visitFrom workshop fuel position graph).outcome := by
  induction fuel generalizing position graph with
  | zero =>
    have most := valid.length_le
    omega
  | succ fuel ih =>
    unfold visitFrom
    cases at_ : graph[position]? with
    | none => exact .done at_
    | some importer =>
      simp only [Logged.outcome_bind]
      cases ran : (graph.followAll workshop importer importer.dependencies []).outcome with
      | error fault => exact .failed at_ ran
      | ok reached =>
        obtain ⟨mapping, middle⟩ := reached
        obtain ⟨advanced, inside⟩ := followAll_advances valid at_ ran
        refine .visited at_ ran (ih (position + 1) _ advanced (by omega) ?_)
        simp only [setMapping, List.length_modify]
        omega

theorem firstOutOfPlace_eq_none (start : Nat) (graph : Graph)
    (placed : ∀ (position : Nat) (asset : Asset), graph[position]? = some asset →
      asset.id = ((start + position : Nat) : Int)) : firstOutOfPlace start graph = none := by
  induction graph generalizing start with
  | nil => rfl
  | cons asset rest ih =>
    have here : asset.id = (start : Int) := placed 0 asset rfl
    rw [firstOutOfPlace, if_pos here]
    refine ih (start + 1) fun position other at_ => ?_
    rw [placed (position + 1) other at_, Nat.add_assoc, Nat.add_comm 1]

theorem mappingFault_eq_none (leads : Leads graph path asset.dependencies asset.mapping)
    (placed : ∀ (position : Nat) (asset : Asset), graph[position]? = some asset →
      asset.id = Int.ofNat position) : mappingFault (graph.map Asset.id) asset = none := by
  have mapped : asset.dependencies.filter (fun specifier => (asset.mapping.lookup specifier).isNone) = [] := by
    rw [List.filter_eq_nil_iff]
    intro specifier member
    obtain ⟨position, target, found, _⟩ := leads.targets specifier member
    simp [found]
  unfold mappingFault
  rw [mapped]
  rw [Option.map_eq_none_iff, List.find?_eq_none]
  rintro ⟨specifier, id⟩ member
  have key : specifier ∈ asset.mapping.keys := List.mem_map.mpr ⟨_, member, rfl⟩
  obtain ⟨position, target, found, at_, _⟩ := leads.targets specifier ((leads.keys specifier).mp key)
  rw [Dictionary.lookup_of_mem leads.distinct member] at found
  cases found
  have listed : target.id ∈ graph.map Asset.id := List.mem_map_of_mem (List.mem_of_getElem? at_)
  rw [placed position target at_] at listed
  simpa using listed

-- Nothing is wrong with a graph whose visits are over.
theorem Found.validates (valid : Found workshop entry front graph)
    (mapped : ∀ (position : Nat) (asset : Asset), graph[position]? = some asset →
      Leads graph asset.path asset.dependencies asset.mapping) : graph.validate = .ok graph := by
  have placed : ∀ (position : Nat) (asset : Asset), graph[position]? = some asset →
      asset.id = Int.ofNat position := fun position asset at_ => (valid.made position asset at_).id
  have sound : graph.fault? = none := by
    obtain ⟨start, startAt, _⟩ := valid.first
    cases graph with
    | nil => cases startAt
    | cons entry rest =>
      have zero : entry.id = 0 := placed 0 entry rfl
      have inPlace : firstOutOfPlace 0 (entry :: rest) = none :=
        firstOutOfPlace_eq_none 0 _ fun position asset at_ => by
          rw [placed position asset at_, Nat.zero_add]
          rfl
      unfold fault?
      dsimp only
      rw [if_neg (not_not_intro zero), inPlace]
      rw [List.findSome?_eq_none_iff]
      intro asset member
      obtain ⟨position, at_, _⟩ := valid.numbered member
      rw [mappingFault_eq_none (mapped position asset at_) placed]
      rfl
  rw [validate, sound]

-- The visits of a build end with what is computed, and a graph that they end with is valid.
theorem entry_visits (ran : (produceEntry workshop entry).outcome = .ok asset) :
    Found workshop (workshop.absolute entry) (0, 0) [asset] ∧
      Visits workshop 0 [asset] (visitFrom workshop (mostAssets workshop + 1) 0 [asset]).outcome := by
  rw [← step_recordEntry] at ran
  have valid := (entry_found ran).1
  exact ⟨valid, visitFrom_visits _ 0 [asset] valid (by omega) (by simp)⟩

theorem visits_valid (ran : (produceEntry workshop entry).outcome = .ok asset)
    (visits : Visits workshop 0 [asset] (.ok graph)) : graph.validate = .ok graph := by
  obtain ⟨valid, computed⟩ := entry_visits ran
  have visited := computed.unique visits
  rw [← step_recordVisits] at visited
  obtain ⟨validLast, mapped, _⟩ := visits_found _ 0 [asset] valid
    (fun _ _ less => absurd less (Nat.not_lt_zero _)) (by omega) (by simp) visited
  exact validLast.validates mapped

-- A discovery is the build that the unbounded loop makes: the fuel does not cut it short, and the
-- check of its graph does not reject it.
theorem discover_builds (workshop : Workshop) (entry : Text) :
    Builds workshop entry (discover workshop entry).outcome := by
  rw [discover, Logged.outcome_bind]
  cases ran : (produceEntry workshop entry).outcome with
  | error fault => exact .stopped ran
  | ok asset =>
    have visits := (entry_visits ran).2
    refine .entered ran ?_
    simp only [bind, Except.bind]
    rw [show ∀ step : Logged Graph, ∀ next, (Logged.bind step next).outcome
      = step.outcome >>= fun value => (next value).outcome from Logged.outcome_bind]
    cases visited : (visitFrom workshop (mostAssets workshop + 1) 0 [asset]).outcome with
    | error fault =>
      rw [visited] at visits
      exact visits
    | ok graph =>
      rw [visited] at visits
      have checked := visits_valid ran visits
      simp only [bind, Except.bind, Logged.outcome_ofExcept, checked]
      exact visits

theorem Builds.unique (builds : Builds workshop entry outcome)
    (others : Builds workshop entry other) : outcome = other := by
  cases builds with
  | stopped ran =>
    cases others with
    | stopped ran' => rw [ran] at ran'; cases ran'; rfl
    | entered ran' => rw [ran] at ran'; cases ran'
  | entered ran visits =>
    cases others with
    | stopped ran' => rw [ran] at ran'; cases ran'
    | entered ran' visits' =>
      rw [ran] at ran'
      cases ran'
      exact visits.unique visits'

theorem produceEntry_stops (ran : (produceEntry workshop entry).outcome = .error failure) :
    FirstFailure workshop (workshop.absolute entry) failure := by
  have canonical : Path.Canonical (workshop.absolute entry) :=
    Path.absolute_canonical (by simp [Path.isAbsolute, Disk.cwdPath]) entry
  unfold produceEntry at ran
  dsimp only at ran
  split at ran
  · rename_i file
    rw [Logged.outcome_bind, Logged.outcome_ofExcept] at ran
    cases made : produceNext workshop [] (workshop.absolute entry) with
    | error fault =>
      rw [made] at ran
      cases ran
      exact .entry file (produceNext_refused canonical made)
    | ok asset => rw [made] at ran; cases ran
  · rename_i absent
    cases ran
    exact .absent (Bool.eq_false_iff.mpr absent)

theorem Builds.stops (builds : Builds workshop entry (.error failure)) :
    FirstFailure workshop (workshop.absolute entry) failure := by
  cases builds with
  | stopped ran => exact produceEntry_stops ran
  | entered ran visits => exact visits.stops (entry_visits ran).1

theorem Refuses.unique (refuses : Refuses workshop path failure)
    (others : Refuses workshop path other) : failure = other := by
  rw [← produce_error_iff] at refuses others
  exact Except.error.inj (refuses.symm.trans others)

theorem Fails.unique (fails : Fails workshop path specifier failure)
    (others : Fails workshop path specifier other) : failure = other := by
  cases fails with
  | spelling unresolved =>
    cases others with
    | spelling unresolved' => rw [unresolved] at unresolved'; cases unresolved'; rfl
    | missing resolved | broken resolved => rw [unresolved] at resolved; cases resolved
  | missing resolved absent =>
    cases others with
    | spelling unresolved => rw [resolved] at unresolved; cases unresolved
    | missing => rfl
    | broken resolved' file =>
      rw [resolved] at resolved'
      cases resolved'
      rw [absent] at file
      cases file
  | broken resolved file refused =>
    cases others with
    | spelling unresolved => rw [resolved] at unresolved; cases unresolved
    | missing resolved' absent =>
      rw [resolved] at resolved'
      cases resolved'
      rw [absent] at file
      cases file
    | broken resolved' _ refused' =>
      rw [resolved] at resolved'
      cases resolved'
      exact refused.unique refused'

-- What has been followed has not failed.
theorem Found.followed (valid : Found workshop entry front graph) (before : place.Before front)
    (importerAt : graph[place.1]? = some importer)
    (specifierAt : importer.dependencies[place.2]? = some specifier) :
    ¬ Fails workshop importer.path specifier failure := by
  intro fails
  obtain ⟨target, member, leads⟩ := valid.closed place before importer specifier importerAt specifierAt
  obtain ⟨position, at_, _⟩ := valid.numbered member
  have made := valid.made position target at_
  obtain ⟨transpiled, produced, _⟩ := made.produced
  cases fails with
  | spelling unresolved => rw [leads] at unresolved; cases unresolved
  | missing resolved absent =>
    rw [leads] at resolved
    cases resolved
    have file := made.file
    rw [absent] at file
    cases file
  | broken resolved _ refused =>
    rw [leads] at resolved
    cases resolved
    rw [← produce_error_iff, produced] at refused
    cases refused

theorem Found.position_unique (valid : Found workshop entry front graph)
    (at_ : graph[position]? = some asset) (there : graph[count]? = some importer)
    (same : asset.path = importer.path) : position = count := by
  have inside : position < (graph.map Asset.path).length := by
    rw [List.length_map]
    exact (List.getElem?_eq_some_iff.mp at_).1
  refine (List.getElem?_inj inside valid.distinct).mp ?_
  rw [List.getElem?_map, List.getElem?_map, at_, there]
  exact congrArg some same

-- Two graphs with the same modules in front of a bound, mappings apart.
def Agree (bound : Nat) (graph next : Graph) : Prop :=
  ∀ position < bound, graph[position]?.map bare = next[position]?.map bare

theorem Agree.symm (agree : Agree bound graph next) : Agree bound next graph :=
  fun position less => (agree position less).symm

theorem Agree.at (agree : Agree bound graph next) (inside : position < bound)
    (at_ : graph[position]? = some asset) :
    ∃ later, next[position]? = some later ∧ bare later = bare asset := by
  have same := agree position inside
  rw [at_, Option.map_some] at same
  exact Option.map_eq_some_iff.mp same.symm

theorem Agree.refers (agree : Agree bound graph next) (inside : place.1 < bound)
    (refers : Refers graph place path) : Refers next place path := by
  obtain ⟨asset, at_, specifier, specifierAt, resolved⟩ := refers
  obtain ⟨later, laterAt, same⟩ := agree.at inside at_
  obtain ⟨_, samePath, sameDependencies, _⟩ := bare_fields same
  exact ⟨later, laterAt, specifier, sameDependencies ▸ specifierAt, samePath ▸ resolved⟩

theorem Agree.firstRefers (agree : Agree bound graph next) (inside : place.1 < bound)
    (refers : FirstRefers graph place path) : FirstRefers next place path := by
  refine ⟨agree.refers inside refers.1, fun earlier before there => ?_⟩
  have below : earlier.1 < bound := by
    simp only [Place.Before] at before
    omega
  exact refers.2 earlier before (agree.symm.refers below there)

-- An asset is determined by its position and its path.
theorem Made.bare_eq (made : Made workshop position asset) (other : Made workshop position importer)
    (same : asset.path = importer.path) : bare asset = bare importer := by
  obtain ⟨transpiled, produced, dependencies, code⟩ := made.produced
  obtain ⟨transpiled', produced', dependencies', code'⟩ := other.produced
  rw [same, produced'] at produced
  cases produced
  simp only [bare, made.id, other.id, same, dependencies, dependencies', code, code']

-- The order of discovery leaves no choice: what has been found up to a front is the beginning of what
-- has been found up to a later one.
theorem Found.agree (valid : Found workshop entry front graph)
    (later : Found workshop entry place next) (ahead : front = place ∨ front.Before place) :
    Agree graph.length graph next := by
  have followed : ∀ {place' : Place}, place'.Before front → place'.Before place := by
    intro place' before
    rcases ahead with rfl | ahead
    · exact before
    · exact before.trans ahead
  intro position inside
  induction position using Nat.strongRecOn with
  | ind position ih =>
    have agree : Agree position graph next := fun earlier less => ih earlier less (by omega)
    obtain ⟨asset, at_⟩ : ∃ asset, graph[position]? = some asset := ⟨_, List.getElem?_eq_getElem inside⟩
    obtain ⟨other, there, samePath⟩ : ∃ other, next[position]? = some other ∧ other.path = asset.path := by
      rcases Nat.eq_zero_or_pos position with rfl | positive
      · obtain ⟨start, startAt, startPath⟩ := valid.first
        obtain ⟨start', startAt', startPath'⟩ := later.first
        rw [startAt] at at_
        cases at_
        exact ⟨start', startAt', startPath'.trans startPath.symm⟩
      · obtain ⟨met, before, below, refers⟩ := valid.found position asset at_ positive
        have refersNext := agree.firstRefers below refers
        obtain ⟨target, member, targetPath⟩ := later.listed (followed before) refersNext.1
        obtain ⟨known, knownAt, _⟩ := later.numbered member
        rcases Nat.lt_trichotomy known position with less | rfl | more
        · obtain ⟨old, oldAt, same⟩ := agree.symm.at less knownAt
          have clash := valid.position_unique oldAt at_ ((bare_fields same).2.1.trans targetPath)
          omega
        · exact ⟨target, knownAt, targetPath⟩
        · -- The later graph would have met another path first, which the earlier one has met too.
          obtain ⟨other, otherAt⟩ : ∃ other, next[position]? = some other := by
            have limit := (List.getElem?_eq_some_iff.mp knownAt).1
            exact ⟨_, List.getElem?_eq_getElem (by omega)⟩
          obtain ⟨met', _, below', refersOther⟩ := later.found position other otherAt positive
          have earlier := later.ordered position known other target otherAt knownAt positive more
            met' met refersOther (targetPath.symm ▸ refersNext)
          have refersHere := agree.symm.firstRefers below' refersOther
          obtain ⟨target', member', otherPath⟩ := valid.listed (earlier.trans before) refersHere.1
          obtain ⟨known', knownAt', _⟩ := valid.numbered member'
          rcases Nat.lt_trichotomy known' position with less' | rfl | more'
          · obtain ⟨old, oldAt, same⟩ := agree.at less' knownAt'
            have clash := later.position_unique oldAt otherAt
              ((bare_fields same).2.1.trans otherPath)
            omega
          · rw [at_] at knownAt'
            cases knownAt'
            exact ⟨other, otherAt, otherPath.symm⟩
          · have backwards := valid.ordered position known' asset target' at_ knownAt' positive more'
              met met' refers (otherPath.symm ▸ refersHere)
            exact absurd (earlier.trans backwards) (Place.Before.irrefl _)
    rw [at_, there]
    exact congrArg some ((valid.made position asset at_).bare_eq (later.made position other there)
      samePath.symm)

-- A specifier that fails at its place is in front of every other that does.
theorem Found.fails_at (valid : Found workshop entry front graph)
    (importerAt : graph[front.1]? = some importer)
    (specifierAt : importer.dependencies[front.2]? = some specifier)
    (fails : Fails workshop importer.path specifier failure)
    (later : Found workshop entry place next) : ¬ front.Before place := by
  intro ahead
  have inside := (List.getElem?_eq_some_iff.mp importerAt).1
  obtain ⟨other, otherAt, same⟩ := (valid.agree later (.inr ahead)).at inside importerAt
  obtain ⟨_, samePath, sameDependencies, _⟩ := bare_fields same
  rw [← sameDependencies] at specifierAt
  rw [← samePath] at fails
  exact later.followed ahead otherAt specifierAt fails

theorem FirstFailure.unique (first : FirstFailure workshop entry failure)
    (other : FirstFailure workshop entry failure') : failure = failure' := by
  have entered : ∀ {front graph}, Found workshop entry front graph →
      workshop.disk.isFile entry = true ∧ ∃ transpiled, workshop.produce entry = .ok transpiled := by
    intro front graph found
    obtain ⟨start, startAt, rfl⟩ := found.first
    have made := found.made 0 start startAt
    obtain ⟨transpiled, produced, _⟩ := made.produced
    exact ⟨made.file, transpiled, produced⟩
  cases first with
  | absent absent =>
    cases other with
    | absent => rfl
    | entry file => rw [absent] at file; cases file
    | specifier found =>
      have file := (entered found).1
      rw [absent] at file
      cases file
  | entry file refused =>
    cases other with
    | absent absent => rw [absent] at file; cases file
    | entry _ refused' => exact refused.unique refused'
    | specifier found =>
      obtain ⟨_, transpiled, produced⟩ := entered found
      rw [produce_error_iff.mpr refused] at produced
      cases produced
  | specifier found importerAt specifierAt fails =>
    cases other with
    | absent absent =>
      have file := (entered found).1
      rw [absent] at file
      cases file
    | entry _ refused =>
      obtain ⟨_, transpiled, produced⟩ := entered found
      rw [produce_error_iff.mpr refused] at produced
      cases produced
    | specifier found' importerAt' specifierAt' fails' =>
      rename_i position count graph importer specifier position' count' graph' importer' specifier'
      rcases Place.Before.total (position, count) (position', count') with ahead | same | behind
      · exact absurd ahead (found.fails_at importerAt specifierAt fails found')
      · cases same
        have inside := (List.getElem?_eq_some_iff.mp importerAt).1
        obtain ⟨other, otherAt, alike⟩ := (found.agree found' (.inl rfl)).at inside importerAt
        rw [importerAt'] at otherAt
        cases otherAt
        obtain ⟨_, samePath, sameDependencies, _⟩ := bare_fields alike
        rw [sameDependencies, specifierAt] at specifierAt'
        cases specifierAt'
        exact fails.unique (samePath ▸ fails')
      · exact absurd behind (found'.fails_at importerAt' specifierAt' fails' found)

-- Where a first step fails, some module that the entry reaches cannot be built.
theorem FirstFailure.not_buildable (first : FirstFailure workshop entry failure)
    (file : workshop.disk.isFile entry = true)
    (buildable : ∀ path, Reachable workshop entry path → Buildable workshop path) : False := by
  cases first with
  | absent absent => rw [absent] at file; cases file
  | entry _ refused =>
    obtain ⟨source, loaded, transpiled, read, loads, done, _⟩ := buildable entry .entry
    have produced := produce_ok_iff.mpr ⟨source, loaded, read, loads, done⟩
    rw [produce_error_iff.mpr refused] at produced
    cases produced
  | specifier found importerAt specifierAt fails =>
    have reachable := found.reached (List.mem_of_getElem? importerAt)
    obtain ⟨source, loaded, transpiled, read, loads, done, leads⟩ := buildable _ reachable
    have produced := produce_ok_iff.mpr ⟨source, loaded, read, loads, done⟩
    obtain ⟨transpiled', produced', dependencies, _⟩ := (found.made _ _ importerAt).produced
    rw [produced] at produced'
    cases produced'
    have member := List.mem_of_getElem? specifierAt
    rw [dependencies] at member
    obtain ⟨target, resolved, there⟩ := leads _ member
    cases fails with
    | spelling unresolved => rw [resolved] at unresolved; cases unresolved
    | missing resolved' absent =>
      rw [resolved] at resolved'
      cases resolved'
      rw [absent] at there
      cases there
    | broken resolved' _ refused =>
      rw [resolved] at resolved'
      cases resolved'
      obtain ⟨_, _, _, read', loads', done', _⟩ :=
        buildable target (.next reachable ⟨transpiled, produced, _, member, resolved⟩)
      have yields := produce_ok_iff.mpr ⟨_, _, read', loads', done'⟩
      rw [produce_error_iff.mpr refused] at yields
      cases yields

-- What is reached in a finished graph can be built.
theorem Found.buildable (valid : Found workshop entry (graph.length, 0) graph)
    (reachable : Reachable workshop entry path) : Buildable workshop path := by
  obtain ⟨asset, member, rfl⟩ := List.mem_map.mp ((valid.reachable path).mpr reachable)
  obtain ⟨position, at_, _⟩ := valid.numbered member
  obtain ⟨transpiled, produced, dependencies, _⟩ := (valid.made position asset at_).produced
  obtain ⟨source, loaded, read, loads, done⟩ := produce_ok_iff.mp produced
  refine ⟨source, loaded, transpiled, read, loads, done, fun specifier listed => ?_⟩
  obtain ⟨target, targetMember, leads⟩ := valid.leads member (dependencies ▸ listed)
  obtain ⟨known, knownAt, _⟩ := valid.numbered targetMember
  exact ⟨target.path, leads, (valid.made known target knownAt).file⟩

-- What a discovery that succeeds has reached can be built.
theorem discover_buildable (ran : (discover workshop entry).outcome = .ok graph) :
    workshop.disk.isFile (workshop.absolute entry) = true ∧
      ∀ path, Reachable workshop (workshop.absolute entry) path → Buildable workshop path := by
  rw [← step_recordDiscovery] at ran
  have valid := (discovery_found ran).1
  obtain ⟨start, startAt, startPath⟩ := valid.first
  exact ⟨startPath ▸ (valid.made 0 start startAt).file, fun path => valid.buildable⟩

-- The failure of a discovery is that of the first step that fails.
theorem discover_error_iff (workshop : Workshop) (entry : Text) (failure : Failure) :
    (discover workshop entry).outcome = .error failure ↔
      FirstFailure workshop (workshop.absolute entry) failure := by
  have stops : ∀ failure, (discover workshop entry).outcome = .error failure →
      FirstFailure workshop (workshop.absolute entry) failure :=
    fun failure ran => (ran ▸ discover_builds workshop entry).stops
  constructor
  · exact stops failure
  · intro first
    cases ran : (discover workshop entry).outcome with
    | error other => rw [(stops other ran).unique first]
    | ok graph =>
      obtain ⟨file, buildable⟩ := discover_buildable ran
      exact (first.not_buildable file buildable).elim

-- A discovery always ends as the unbounded loop does. It ends with a graph exactly if the entry is a
-- file and every module that it reaches can be built, otherwise with the failure of the first step
-- that fails; and the check of the graph never finds anything wrong.
theorem discover_ends (workshop : Workshop) (entry : Text) :
    (∀ outcome, Builds workshop entry outcome ↔ (discover workshop entry).outcome = outcome) ∧
    ((∃ graph, (discover workshop entry).outcome = .ok graph) ↔
      workshop.disk.isFile (workshop.absolute entry) = true ∧
        ∀ path, Reachable workshop (workshop.absolute entry) path → Buildable workshop path) ∧
    (∀ failure, (discover workshop entry).outcome = .error failure ↔
      FirstFailure workshop (workshop.absolute entry) failure) ∧
    ∀ graph, Builds workshop entry (.ok graph) → graph.validate = .ok graph := by
  have builds := discover_builds workshop entry
  have failed := discover_error_iff workshop entry
  refine ⟨fun outcome => ⟨builds.unique, fun same => same ▸ builds⟩, ?_, failed, ?_⟩
  · constructor
    · rintro ⟨graph, ran⟩
      exact discover_buildable ran
    · rintro ⟨file, buildable⟩
      cases ran : (discover workshop entry).outcome with
      | error failure => exact (((failed failure).mp ran).not_buildable file buildable).elim
      | ok graph => exact ⟨graph, rfl⟩
  · intro graph built
    cases built with
    | entered ran visits => exact visits_valid ran visits

end Graph
end ModuleBundler
