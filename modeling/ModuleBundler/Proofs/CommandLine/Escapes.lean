import ModuleBundler.Proofs.Bundle.Table
import ModuleBundler.Proofs.CommandLine.Effects
import ModuleBundler.Proofs.CommandLine.Limits
import ModuleBundler.Proofs.Configuration
import ModuleBundler.Proofs.Graph.Builder
import ModuleBundler.Proofs.Graph.Ending

/-!
Which failures are told to the user and which escape. With the loaders that there are, and within the limits of
a situation, a run ends in a failure that nobody reports for three reasons only: the expression of a rule or a
JSON module has a number that is too large, or the output path has a NUL character or a surrogate. Every other
failure is reported.
-/
namespace ModuleBundler

-- Faults of the build itself and those of the system are reported.
def Failure.isReported : Failure → Bool
  | unreadable _ _ | refused _ _ _ | malformedJson _ _ _ | unresolved _ _ _ | graph _ _
  | config _ _ | system _ _ => true
  | _ => false

variable {failure : Failure}

theorem Loader.json_error (refused : Loader.json path source = .error failure) :
    failure.isReported = true ∨ ∃ digits rest,
      failure = .hugeNumber digits ∧ Json.read source = .error ⟨.tooManyDigits digits, rest⟩ := by
  unfold Loader.json at refused
  split at refused
  · cases refused
  · cases refused
    exact .inr ⟨_, _, rfl, ‹_›⟩
  · cases refused
    exact .inl rfl

namespace Loaders

-- A rule whose turn comes, and whose loader finds an integer with too many digits in what the rules
-- before it have made.
def Overlong (rules : List LoaderRule) (path source : Text) (digits : Nat) : Prop :=
  ∃ before rule later loaded rest, rules = before ++ rule :: later ∧
    standard.apply before path source = .ok loaded ∧ rule.applies path = true ∧
    rule.loader = "json".toList ∧ Json.read loaded = .error ⟨.tooManyDigits digits, rest⟩

theorem apply_append (before later : List LoaderRule) (path source : Text) :
    standard.apply (before ++ later) path source
      = standard.apply before path source >>= standard.apply later path :=
  List.foldlM_append

theorem apply_passed (absent : rule.applies path = false) (source : Text) :
    standard.apply [rule] path source = .ok source := by
  simp only [apply, List.foldlM_cons, absent]
  rfl

theorem apply_loaded (applies : rule.applies path = true)
    (found : standard.lookup rule.loader = some loader) (source : Text) :
    standard.apply [rule] path source = loader path source := by
  simp only [apply, List.foldlM_cons, List.foldlM_nil, applies, get, found]
  exact bind_pure _

theorem lookup_standard (found : standard.lookup name = some loader) :
    (name = "json".toList ∧ loader = Loader.json) ∨ loader = Loader.text := by
  unfold standard at found
  rw [List.lookup_cons] at found
  split at found
  · rename_i same
    exact .inl ⟨eq_of_beq same, (Option.some.inj found).symm⟩
  · rw [List.lookup_cons] at found
    split at found
    · exact .inr (Option.some.inj found).symm
    · cases found

-- One rule fails only where a document is malformed.
theorem apply_one_error (registered : (standard.lookup rule.loader).isSome = true)
    (refused : standard.apply [rule] path source = .error failure) :
    rule.applies path = true ∧ rule.loader = "json".toList ∧
      Loader.json path source = .error failure := by
  obtain ⟨loader, found⟩ := Option.isSome_iff_exists.mp registered
  cases applies : rule.applies path with
  | false =>
    rw [apply_passed applies] at refused
    cases refused
  | true =>
    rw [apply_loaded applies found] at refused
    obtain ⟨name, rfl⟩ | rfl := lookup_standard found
    · exact ⟨rfl, name, refused⟩
    · cases refused

-- The induction is on the rules, with the text that those before them have made.
theorem apply_error {rules : List LoaderRule}
    (registered : ∀ rule ∈ rules, (standard.lookup rule.loader).isSome = true)
    (refused : standard.apply rules path source = .error failure) :
    failure.isReported = true ∨ ∃ digits, failure = .hugeNumber digits ∧
      Overlong rules path source digits := by
  induction rules generalizing source with
  | nil => cases refused
  | cons rule rules ih =>
    rw [← List.singleton_append, apply_append] at refused
    cases made : standard.apply [rule] path source with
    | error fault =>
      rw [made] at refused
      cases refused
      obtain ⟨applies, loader, refused⟩ := apply_one_error (registered rule List.mem_cons_self) made
      obtain reported | ⟨digits, rest, rfl, long⟩ := Loader.json_error refused
      · exact .inl reported
      · exact .inr ⟨digits, rfl, [], rule, rules, source, rest, rfl, rfl, applies, loader, long⟩
    | ok next =>
      rw [made] at refused
      obtain reported | ⟨digits, rfl, before, rule', later, loaded, rest, rfl, passed, found⟩ :=
        ih (fun rule' member => registered rule' (List.mem_cons_of_mem _ member)) refused
      · exact .inl reported
      · refine .inr ⟨digits, rfl, rule :: before, rule', later, loaded, rest, rfl, ?_, found⟩
        rw [← List.singleton_append, apply_append, made]
        exact passed

theorem apply_overlong (long : Overlong rules path source digits) :
    standard.apply rules path source = .error (.hugeNumber digits) := by
  obtain ⟨before, rule, later, loaded, rest, rfl, passed, applies, loader, long⟩ := long
  have found : standard.lookup rule.loader = some Loader.json := by
    rw [loader]
    rfl
  have refused : standard.apply [rule] path loaded = .error (.hugeNumber digits) := by
    rw [apply_loaded applies found, Loader.json, long]
  rw [apply_append, passed, ← List.singleton_append]
  show standard.apply ([rule] ++ later) path loaded = _
  rw [apply_append, refused]
  rfl

end Loaders

-- The module at a path is, for the loader of documents, one with an integer of too many digits.
def Workshop.Overlong (workshop : Workshop) (path : Text) (digits : Nat) : Prop :=
  ∃ source, workshop.read path = .ok source ∧ Loaders.Overlong workshop.rules path source digits

-- A workshop as the command line sets it up: its loaders and its transpiler are the usual ones, and
-- each of its rules names one of them.
structure Workshop.Usual (workshop : Workshop) : Prop where
  loaders : workshop.loaders = .standard
  transpiler : workshop.transpiler = .standard
  registered : ∀ rule ∈ workshop.rules, (Loaders.standard.lookup rule.loader).isSome = true

namespace Graph

variable {workshop : Workshop} {entry : Text}

theorem Refuses.reported_or (usual : workshop.Usual) (file : workshop.disk.isFile path = true)
    (refuses : Refuses workshop path failure) : failure.isReported = true ∨
      ∃ digits, failure = .hugeNumber digits ∧ workshop.Overlong path digits := by
  cases refuses with
  | unread fault =>
    unfold Workshop.read at fault
    cases read : workshop.disk.readText path with
    | ok source =>
      rw [read] at fault
      cases fault
    | error reason =>
      rw [read] at fault
      cases fault
      refine .inl ?_
      match reason with
      | .nullByte => exact absurd (Disk.readText_nullByte read) (Disk.isFile_clean file)
      | .encoding _ => rfl
      | .system fault => cases fault <;> rfl
  | unloaded read fault =>
    rw [usual.loaders] at fault
    obtain reported | ⟨digits, rfl, long⟩ := Loaders.apply_error usual.registered fault
    · exact .inl reported
    · exact .inr ⟨digits, rfl, _, read, long⟩
  | untranspiled _ _ fault =>
    rw [usual.transpiler] at fault
    unfold Transpiler.standard at fault
    rename_i loaded _ _
    cases result : transpile loaded with
    | ok transpiled =>
      rw [result] at fault
      cases fault
    | error fault' =>
      rw [result] at fault
      cases fault
      exact .inl rfl

-- A document is refused for its digits exactly if an integer in it has too many.
theorem refuses_overlong_iff (usual : workshop.Usual) (file : workshop.disk.isFile path = true)
    (digits : Nat) :
    Refuses workshop path (.hugeNumber digits) ↔ workshop.Overlong path digits := by
  constructor
  · intro refuses
    obtain reported | ⟨digits', same, long⟩ := refuses.reported_or usual file
    · cases reported
    · cases same
      exact long
  · rintro ⟨source, read, long⟩
    refine .unloaded read ?_
    rw [usual.loaders]
    exact Loaders.apply_overlong long

-- Of all that can stop a discovery only an integer with too many digits is not reported.
theorem FirstFailure.reported_or (usual : workshop.Usual)
    (first : FirstFailure workshop entry failure) : failure.isReported = true ∨
      ∃ digits path, failure = .hugeNumber digits ∧ workshop.disk.isFile path = true ∧
        workshop.Overlong path digits := by
  cases first with
  | absent => exact .inl rfl
  | entry file refuses =>
    obtain reported | ⟨digits, rfl, long⟩ := refuses.reported_or usual file
    · exact .inl reported
    · exact .inr ⟨digits, _, rfl, file, long⟩
  | specifier _ _ _ fails =>
    cases fails with
    | spelling unresolved =>
      unfold resolve at unresolved
      split at unresolved
      · cases unresolved
      · cases unresolved
        exact .inl rfl
    | missing => exact .inl rfl
    | broken _ file refuses =>
      obtain reported | ⟨digits, rfl, long⟩ := refuses.reported_or usual file
      · exact .inl reported
      · exact .inr ⟨digits, _, rfl, file, long⟩

end Graph

namespace Build

theorem noteCycles_outcome (graph : Graph) (cycles : List (List Int)) :
    (noteCycles graph cycles).outcome = .ok () := by
  induction cycles with
  | nil => rfl
  | cons cycle cycles ih =>
    rw [noteCycles, Logged.outcome_bind, Logged.outcome_note]
    exact ih

-- What a build tells about itself changes nothing about how it ends.
theorem graph_outcome (workshop : Workshop) (verbose : Bool) (entry : Text) :
    (graph workshop verbose entry).outcome = (Graph.discover workshop entry).outcome := by
  unfold graph
  rw [Graph.build_eq_discover]
  simp only [Logged.outcome_bind, Logged.outcome_note]
  cases (Graph.discover workshop entry).outcome with
  | error failure => rfl
  | ok found =>
    cases verbose with
    | false => rfl
    | true =>
      simp only [bind, Except.bind]
      exact (Logged.outcome_bind _ _).trans (by rw [noteCycles_outcome]; rfl)

-- Nothing fails behind the discovery: there is always a module to bundle.
theorem bundle_error_iff (workshop : Workshop) (verbose : Bool) (format : BundleFormat)
    (hasBanner : Bool) {entry : Text} (named : entry ≠ []) (failure : Failure) :
    (bundle workshop verbose format hasBanner (some entry)).outcome = .error failure ↔
      (Graph.discover workshop entry).outcome = .error failure := by
  have opened : bundle workshop verbose format hasBanner (some entry) = (do
      let graph ← graph workshop verbose entry
      Logged.note .debug ("Emitting bundle (format=".toList ++ format.name.toList ++ [')'])
      Bundle.emit format hasBanner graph) := by
    cases entry with
    | nil => exact absurd rfl named
    | cons => rfl
  rw [opened]
  simp only [Logged.outcome_bind, Logged.outcome_note, graph_outcome]
  cases discovered : (Graph.discover workshop entry).outcome with
  | error fault => simp [bind, Except.bind]
  | ok found =>
    have some_ : found ≠ [] := by
      rw [← Graph.step_recordDiscovery] at discovered
      obtain ⟨start, startAt, _⟩ := (Graph.discovery_found discovered).1.first
      rintro rfl
      cases startAt
    have emitted := Bundle.emit_rows format hasBanner some_
    simp only [bind, Except.bind, emitted, reduceCtorEq]

end Build

namespace CommandLine
open Command

-- A path that the system is never asked about: it has a NUL character, which stands for a surrogate too, and no
-- directory in front of the character is refused first.
def Barred (disk : Disk) (path : Text) : Prop :=
  '\x00' ∈ path ∧ ((Path.dirname path).isEmpty = true ∨ ∀ fault at_,
    (disk.ensureDirectory (Path.dirname path)).2 = .error (fault, at_) → fault = .nullByte)

theorem ends_ensureDirectory_error
    (ended : Ends (ensureDirectory directory) before after (.error failure)) :
    ∃ fault at_, (before.disk.ensureDirectory directory).2 = .error (fault, at_) ∧
      failure = accessFailure at_ fault := by
  obtain ⟨_, failed⟩ := ended
  simp only [ensureDirectory, Logged.ofExcept] at failed
  cases made : (before.disk.ensureDirectory directory).2 with
  | ok done =>
    rw [made] at failed
    cases failed
  | error fault =>
    rw [made] at failed
    cases failed
    exact ⟨fault.1, fault.2, rfl, rfl⟩

theorem ends_makeRoom_error (ended : Ends (makeRoom path) before after (.error failure)) :
    ∃ fault at_, (Path.dirname path).isEmpty = false ∧
      (before.disk.ensureDirectory (Path.dirname path)).2 = .error (fault, at_) ∧
      failure = accessFailure at_ fault := by
  unfold makeRoom at ended
  split at ended
  · cases ended.2
  · rename_i named
    obtain ⟨fault, at_, refused, same⟩ := ends_ensureDirectory_error ended
    exact ⟨fault, at_, by simpa using named, refused, same⟩

theorem writeFile_broken (broken : '\x00' ∈ path) (text : Text) (before : Effects) :
    writeFile path text before = (before, Logged.fail .nullByte) := by
  rw [writeFile, (Disk.writeText_nullByte before.disk path text).mpr broken]
  rfl

theorem deliver_barred (before : Effects) (barred : Barred before.disk path) (text : Text) :
    (deliver text (some path) before).2.outcome = .error .nullByte := by
  obtain ⟨broken, reached⟩ := barred
  have ended : Ends (deliver text (some path)) before (deliver text (some path) before).1
      (deliver text (some path) before).2.outcome := ⟨rfl, rfl⟩
  generalize (deliver text (some path) before).1 = after at ended
  generalize (deliver text (some path) before).2.outcome = outcome at ended ⊢
  unfold deliver at ended
  obtain ⟨failure, stopped, rfl⟩ | ⟨_, between, _, rest⟩ := ends_bind.mp ended
  · obtain ⟨fault, at_, named, refused, rfl⟩ := ends_makeRoom_error stopped
    obtain bare | only := reached
    · rw [bare] at named
      cases named
    · rw [only fault at_ refused]
      rfl
  · obtain ⟨failure, stopped, rfl⟩ | ⟨_, _, written, _⟩ := ends_bind.mp rest
    · have same := stopped.2
      rw [writeFile_broken broken] at same
      cases same
      rfl
    · have same := written.2
      rw [writeFile_broken broken] at same
      cases same

-- What a command is about to work on: a valid configuration with an entry, and for a run a program
-- to run the bundle with.
structure Asked (surroundings : Surroundings) (arguments : Arguments) (config : Config)
    (entry : Text) : Prop where
  configured : configure surroundings arguments surroundings.disk = .ok config
  given : config.entry = some entry
  named : entry ≠ []
  able : arguments.graph = true ∨ arguments.run = false ∨ surroundings.interpreter.isSome = true

-- Why a run ends in a failure that nobody reports: a rule of the configuration file has an
-- overlarge expression, the first step of the discovery that fails is a document with an integer
-- of too many digits, or the whole text cannot be written to a path that is barred.
inductive Unreported (surroundings : Surroundings) (arguments : Arguments) : Prop where
  | expression (there : surroundings.disk.pathExists (Config.file arguments.config) = true)
      (read : surroundings.disk.readText (Config.file arguments.config) = .ok text)
      (document : Json.read text = .ok value) (overlarge : Config.Overlarge value)
  | number (asked : Asked surroundings arguments config entry)
      (first : Graph.FirstFailure (workshop surroundings.loaders config surroundings.disk)
        ((workshop surroundings.loaders config surroundings.disk).absolute entry)
        (.hugeNumber digits))
      (file : surroundings.disk.isFile path = true)
      (long : (workshop surroundings.loaders config surroundings.disk).Overlong path digits)
  | output (asked : Asked surroundings arguments config entry)
      (shown : arguments.graph = true ∨ arguments.run = false)
      (worked : (wanted surroundings arguments config entry).outcome = .ok text)
      (given : config.output = some path) (barred : Barred surroundings.disk path)

variable {surroundings : Surroundings} {arguments : Arguments} {config : Config} {entry : Text}

theorem wanted_error_iff (asked : Asked surroundings arguments config entry) (failure : Failure) :
    (wanted surroundings arguments config entry).outcome = .error failure ↔
      Graph.FirstFailure (workshop surroundings.loaders config surroundings.disk)
        ((workshop surroundings.loaders config surroundings.disk).absolute entry) failure := by
  rw [← Graph.discover_error_iff]
  unfold wanted
  dsimp only
  split
  · unfold graphText
    rw [Logged.outcome_bind, Build.graph_outcome]
    cases (Graph.discover (workshop surroundings.loaders config surroundings.disk) entry).outcome with
    | error fault => simp [Bind.bind, Except.bind]
    | ok graph => simp [Bind.bind, Except.bind, Logged.outcome_pure]
  · rw [bundleText, asked.given]
    exact Build.bundle_error_iff _ _ _ _ asked.named failure

theorem configure_error_iff (failure : Failure) :
    configure surroundings arguments disk = .error failure ↔
      Config.load disk surroundings.loaders arguments.config = .error failure := by
  unfold configure
  cases Config.load disk surroundings.loaders arguments.config <;> simp [Bind.bind, Except.bind,
    Pure.pure, Except.pure]

-- The work comes first: where it fails the command fails with it, and where it does not a command
-- that delivers ends as the delivery does.
theorem ends_deliverWork_asked
    (same : (work (workshop surroundings.loaders config surroundings.disk)).outcome = wished)
    (ended : Ends (deliverWork surroundings.loaders config work) surroundings.effects after outcome) :
    (∀ failure, wished = .error failure → outcome = .error failure) ∧
      ∀ text path, wished = .ok text → config.output = some path → Barred surroundings.disk path →
        outcome = .error .nullByte := by
  obtain ⟨failure', failed, _, rfl⟩ | ⟨text, worked, delivery⟩ := ends_deliverWork_iff.mp ended
  · have unworked := failed.symm.trans same
    refine ⟨fun failure refused => ?_, fun text path worked => ?_⟩
    · cases unworked.trans refused
      rfl
    · cases unworked.trans worked
  · have done := worked.symm.trans same
    refine ⟨fun failure refused => ?_, fun text' path worked' given barred => ?_⟩
    · cases done.trans refused
    · have refused := deliver_barred surroundings.effects barred text
      obtain ⟨failure, stopped, rfl⟩ | ⟨delivered, _⟩ := delivery
      · have failed := stopped.2
        rw [given, refused] at failed
        cases failed
        rfl
      · have failed := delivered.2
        rw [given, refused] at failed
        cases failed

-- With an entry and a program to run the bundle with, what is served is the command itself.
theorem serve_asked (asked : Asked surroundings arguments config entry) :
    serve surroundings arguments config =
      if arguments.graph then
        deliverWork surroundings.loaders config fun workshop =>
          graphText workshop arguments.verbose entry
      else if arguments.run then runBundle surroundings arguments.verbose config
      else
        deliverWork surroundings.loaders config fun workshop =>
          bundleText workshop arguments.verbose config := by
  unfold serve
  rw [asked.given]
  cases entry with
  | nil => exact absurd rfl asked.named
  | cons => rfl

-- A run comes to the bundle before it comes to anything else.
theorem ends_runBundle_asked (able : surroundings.interpreter.isSome = true)
    (failed : (bundleText (workshop surroundings.loaders config surroundings.disk) verbose config).outcome
      = .error failure)
    (ended : Ends (runBundle surroundings verbose config) surroundings.effects after outcome) :
    outcome = .error failure := by
  obtain ⟨interpreter, found⟩ := Option.isSome_iff_exists.mp able
  unfold runBundle at ended
  rw [found] at ended
  obtain ⟨failure', stopped, rfl⟩ | ⟨text, _, read, _⟩ := ends_bind.mp ended
  · cases (ends_reading.mp stopped).2.symm.trans failed
    rfl
  · cases (ends_reading.mp read).2.symm.trans failed

theorem ends_serve_asked (asked : Asked surroundings arguments config entry)
    (ended : Ends (serve surroundings arguments config) surroundings.effects after outcome) :
    (∀ failure, (wanted surroundings arguments config entry).outcome = .error failure →
      outcome = .error failure) ∧
    ∀ text path, (wanted surroundings arguments config entry).outcome = .ok text →
      arguments.graph = true ∨ arguments.run = false → config.output = some path →
      Barred surroundings.disk path → outcome = .error .nullByte := by
  rw [serve_asked asked] at ended
  unfold wanted
  split at ended
  · rename_i graph
    rw [if_pos graph]
    obtain ⟨fails, barred⟩ := ends_deliverWork_asked rfl ended
    exact ⟨fails, fun text path worked _ => barred text path worked⟩
  · rename_i noGraph
    rw [if_neg noGraph]
    split at ended
    · rename_i run
      refine ⟨fun failure failed => ?_, fun text path _ shown => ?_⟩
      · obtain graph | noRun | able := asked.able
        · exact absurd graph noGraph
        · rw [run] at noRun
          cases noRun
        · exact ends_runBundle_asked able failed ended
      · obtain graph | noRun := shown
        · exact absurd graph noGraph
        · rw [run] at noRun
          cases noRun
    · obtain ⟨fails, barred⟩ := ends_deliverWork_asked rfl ended
      exact ⟨fails, fun text path worked _ => barred text path worked⟩

-- Each of these reasons ends the run in a failure that is not reported.
theorem Unreported.ends (unreported : Unreported surroundings arguments)
    (ended : Ends (perform surroundings arguments) surroundings.effects after outcome) :
    ∃ failure, outcome = .error failure ∧ failure.isReported = false := by
  have served : ∀ {config entry}, Asked surroundings arguments config entry →
      Ends (serve surroundings arguments config) surroundings.effects after outcome := by
    intro config entry asked
    obtain ⟨failure, failed, _, _⟩ | ⟨config', configured, rest⟩ := ends_perform_iff.mp ended
    · cases failed.symm.trans asked.configured
    · cases configured.symm.trans asked.configured
      exact rest
  cases unreported with
  | expression there read document overlarge =>
    obtain ⟨fault, loaded⟩ := (Config.load_interrupted surroundings.disk surroundings.loaders
      arguments.config).mpr ⟨there, _, _, read, document, overlarge⟩
    have failed := (configure_error_iff _).mpr loaded
    obtain ⟨failure, failed', _, rfl⟩ | ⟨config, configured, _⟩ := ends_perform_iff.mp ended
    · cases failed'.symm.trans failed
      exact ⟨_, rfl, rfl⟩
    · cases configured.symm.trans failed
  | number asked first =>
    exact ⟨_, (ends_serve_asked asked (served asked)).1 _ ((wanted_error_iff asked _).mpr first), rfl⟩
  | output asked shown worked given barred =>
    exact ⟨_, (ends_serve_asked asked (served asked)).2 _ _ worked shown given barred, rfl⟩

end CommandLine
end ModuleBundler
