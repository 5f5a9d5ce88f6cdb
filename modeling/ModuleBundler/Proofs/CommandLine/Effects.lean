import ModuleBundler.CommandLine.Basic
import ModuleBundler.Proofs.Disk

/-!
What a run leaves behind. A step that can fail comes before the one step that shows or writes the text: a run
that fails has touched nothing, one that succeeds has put the whole text in one place. Only the program that a
bundle is written for can be refused by the system behind that step; the bundle stays.
-/
namespace ModuleBundler

-- No file was created or changed, nothing was shown, and no program was started. Directories may
-- have been made, and complaints told.
structure Untouched (before after : Effects) : Prop where
  files : ∀ location, after.disk.fileAt location = before.disk.fileAt location
  stdout : after.stdout = before.stdout
  started : after.started = before.started

theorem Untouched.refl (effects : Effects) : Untouched effects effects :=
  ⟨fun _ => rfl, rfl, rfl⟩

-- Complaints are no part of what was touched.
theorem Untouched.complained {complaint : Text} (untouched : Untouched before after)
    (left : finished = { after with complaint }) : Untouched before finished :=
  left ▸ ⟨untouched.files, untouched.stdout, untouched.started⟩

-- The whole text is in one place: behind what was shown, or in the file that the output path leads
-- to. Every other file is as it was.
def Delivered (text : Text) (output : Option Text) (before after : Effects) : Prop :=
  after.started = before.started ∧
  match output with
  | none =>
    after.stdout = before.stdout ++ text ∧
      ∀ location, after.disk.fileAt location = before.disk.fileAt location
  | some path =>
    after.stdout = before.stdout ∧ ∃ location, after.disk.locate path = .ok location ∧
      after.disk.fileAt location = some (.text text) ∧
      ∀ other, other ≠ location → after.disk.fileAt other = before.disk.fileAt other

theorem Delivered.behind (delivered : Delivered text output between after)
    (untouched : Untouched before between) : Delivered text output before after := by
  obtain ⟨started, placed⟩ := delivered
  refine ⟨started.trans untouched.started, ?_⟩
  cases output with
  | none =>
    obtain ⟨shown, files⟩ := placed
    exact ⟨untouched.stdout ▸ shown, fun location => (files location).trans (untouched.files location)⟩
  | some path =>
    obtain ⟨shown, location, leads, there, others⟩ := placed
    exact ⟨shown.trans untouched.stdout, location, leads, there, fun other apart =>
      (others other apart).trans (untouched.files other)⟩

namespace Command

-- From one state a command comes to another with an outcome.
def Ends (command : Command α) (before after : Effects) (outcome : Except Failure α) : Prop :=
  (command before).1 = after ∧ (command before).2.outcome = outcome

theorem ends_pure : Ends (Pure.pure value) before after outcome ↔
    before = after ∧ .ok value = outcome := Iff.rfl

theorem ends_bind {first : Command α} {next : α → Command β} :
    Ends (first >>= next) before after outcome ↔
      (∃ failure, Ends first before after (.error failure) ∧ outcome = .error failure) ∨
      ∃ value between, Ends first before between (.ok value) ∧
        Ends (next value) between after outcome := by
  cases reached : first before with
  | mk between finished =>
  obtain ⟨log, failure | value⟩ := finished
  · simp only [Ends, Bind.bind, Command.bind, reached]
    constructor
    · rintro ⟨rfl, rfl⟩
      exact .inl ⟨failure, ⟨rfl, rfl⟩, rfl⟩
    · rintro (⟨_, ⟨rfl, ⟨⟩⟩, rfl⟩ | ⟨_, _, ⟨_, ⟨⟩⟩, _⟩)
      exact ⟨rfl, rfl⟩
  · simp only [Ends, Bind.bind, Command.bind, reached]
    constructor
    · rintro ended
      exact .inr ⟨value, between, ⟨rfl, rfl⟩, ended⟩
    · rintro (⟨_, ⟨_, ⟨⟩⟩, _⟩ | ⟨_, _, ⟨rfl, ⟨⟩⟩, ended⟩)
      exact ended

theorem ends_reading : Ends (reading work) before after outcome ↔
    before = after ∧ (work before.disk).outcome = outcome := Iff.rfl

theorem ends_note : Ends (note severity text) before after outcome ↔
    before = after ∧ .ok () = outcome := Iff.rfl

theorem ends_complain : Ends (complain text) before after outcome ↔
    { before with complaint := before.complaint ++ text } = after ∧ .ok () = outcome := Iff.rfl

theorem ends_launch : Ends (launch arguments) before after outcome ↔
    { before with started := before.started ++ [arguments] } = after ∧ .ok () = outcome := Iff.rfl

theorem ends_ensureDirectory (ended : Ends (ensureDirectory directory) before after outcome) :
    Untouched before after := by
  obtain ⟨rfl, _⟩ := ended
  exact ⟨Disk.ensureDirectory_files _ _, rfl, rfl⟩

theorem ends_writeFile (ended : Ends (writeFile path text) before after outcome) :
    (before = after ∧ ∃ failure, outcome = .error failure) ∨
      outcome = .ok () ∧ Delivered text (some path) before after := by
  obtain ⟨rfl, rfl⟩ := ended
  unfold writeFile
  cases written : before.disk.writeText path text with
  | error fault => exact .inl ⟨rfl, _, rfl⟩
  | ok disk =>
    obtain ⟨location, rfl, leads⟩ := Disk.writeText_put written
    exact .inr ⟨rfl, rfl, rfl, location, leads, Disk.fileAt_put _ _ _, fun other apart =>
      Disk.fileAt_put_other _ _ apart⟩

end Command

namespace CommandLine
open Command

theorem ends_makeRoom (ended : Ends (makeRoom path) before after outcome) :
    Untouched before after := by
  unfold makeRoom at ended
  split at ended
  · exact ended.1 ▸ Untouched.refl _
  · exact ends_ensureDirectory ended

theorem ends_deliver (ended : Ends (deliver text output) before after outcome) :
    (Untouched before after ∧ ∃ failure, outcome = .error failure) ∨
      outcome = .ok () ∧ Delivered text output before after := by
  cases output with
  | none =>
    obtain ⟨rfl, rfl⟩ := ended
    exact .inr ⟨rfl, rfl, rfl, fun _ => rfl⟩
  | some path =>
    unfold deliver at ended
    obtain ⟨failure, stopped, rfl⟩ | ⟨_, between, made, rest⟩ := ends_bind.mp ended
    · exact .inl ⟨ends_makeRoom stopped, failure, rfl⟩
    have untouched := ends_makeRoom made
    obtain ⟨failure, stopped, rfl⟩ | ⟨_, _, written, noted⟩ := ends_bind.mp rest
    · obtain ⟨rfl, _⟩ | ⟨written, _⟩ := ends_writeFile stopped
      · exact .inl ⟨untouched, failure, rfl⟩
      · cases written
    · obtain ⟨rfl, rfl⟩ := ends_note.mp noted
      obtain ⟨_, _, stopped⟩ | ⟨_, delivered⟩ := ends_writeFile written
      · cases stopped
      · exact .inr ⟨rfl, delivered.behind untouched⟩

theorem ends_deliverWork_iff : Ends (deliverWork loaders config work) before after outcome ↔
    (∃ failure, (work (workshop loaders config before.disk)).outcome = .error failure ∧
      before = after ∧ outcome = .error failure) ∨
    ∃ text, (work (workshop loaders config before.disk)).outcome = .ok text ∧
      ((∃ failure, Ends (deliver text config.output) before after (.error failure) ∧
        outcome = .error failure) ∨
      Ends (deliver text config.output) before after (.ok ()) ∧ outcome = .ok 0) := by
  unfold deliverWork
  rw [ends_bind]
  constructor
  · rintro (⟨failure, stopped, rfl⟩ | ⟨text, _, read, rest⟩)
    · obtain ⟨rfl, failed⟩ := ends_reading.mp stopped
      exact .inl ⟨failure, failed, rfl, rfl⟩
    · obtain ⟨rfl, worked⟩ := ends_reading.mp read
      obtain ⟨failure, stopped, rfl⟩ | ⟨_, _, delivery, last⟩ := ends_bind.mp rest
      · exact .inr ⟨text, worked, .inl ⟨failure, stopped, rfl⟩⟩
      · obtain ⟨rfl, rfl⟩ := ends_pure.mp last
        exact .inr ⟨text, worked, .inr ⟨delivery, rfl⟩⟩
  · rintro (⟨failure, failed, rfl, rfl⟩ | ⟨text, worked, ⟨failure, stopped, rfl⟩ | ⟨delivery, rfl⟩⟩)
    · exact .inl ⟨failure, ends_reading.mpr ⟨rfl, failed⟩, rfl⟩
    · exact .inr ⟨text, before, ends_reading.mpr ⟨rfl, worked⟩, ends_bind.mpr (.inl ⟨failure, stopped, rfl⟩)⟩
    · exact .inr ⟨text, before, ends_reading.mpr ⟨rfl, worked⟩,
        ends_bind.mpr (.inr ⟨(), after, delivery, ends_pure.mpr ⟨rfl, rfl⟩⟩)⟩

theorem ends_deliverWork (ended : Ends (deliverWork loaders config work) before after outcome) :
    (Untouched before after ∧ ∃ failure, outcome = .error failure) ∨
      outcome = .ok 0 ∧ ∃ text, (work (workshop loaders config before.disk)).outcome = .ok text ∧
        Delivered text config.output before after := by
  obtain ⟨failure, _, rfl, rfl⟩ | ⟨text, worked, ⟨failure, stopped, rfl⟩ | ⟨delivery, rfl⟩⟩ :=
    ends_deliverWork_iff.mp ended
  · exact .inl ⟨Untouched.refl _, failure, rfl⟩
  · obtain ⟨untouched, _⟩ | ⟨delivered, _⟩ := ends_deliver stopped
    · exact .inl ⟨untouched, failure, rfl⟩
    · cases delivered
  · obtain ⟨_, _, stopped⟩ | ⟨_, delivered⟩ := ends_deliver delivery
    · cases stopped
    · exact .inr ⟨rfl, text, worked, delivered⟩

-- Where nothing can be done a complaint is all that is left.
theorem ends_complained_iff : Ends (do complain text; Pure.pure status) before after outcome ↔
    after = { before with complaint := before.complaint ++ text } ∧ outcome = .ok status := by
  constructor
  · intro ended
    obtain ⟨_, ⟨_, stopped⟩, _⟩ | ⟨_, _, told, last⟩ := ends_bind.mp ended
    · cases stopped
    · obtain ⟨rfl, _⟩ := ends_complain.mp told
      obtain ⟨rfl, rfl⟩ := ends_pure.mp last
      exact ⟨rfl, rfl⟩
  · rintro ⟨rfl, rfl⟩
    exact ⟨rfl, rfl⟩

theorem ends_complained (ended : Ends (do complain text; Pure.pure status) before after outcome) :
    Untouched before after ∧ outcome = .ok status := by
  obtain ⟨rfl, rfl⟩ := ends_complained_iff.mp ended
  exact ⟨⟨fun _ => rfl, rfl, rfl⟩, rfl⟩

theorem ends_startProgram (ended : Ends (startProgram interpreter arguments) before after outcome) :
    (∃ status, interpreter.start = .ended status ∧ outcome = .ok status ∧
      after = { before with started := before.started ++ [interpreter.path :: arguments] }) ∨
    ∃ fault, interpreter.start = .refused fault ∧ outcome = .ok 1 ∧
      after = { before with complaint := before.complaint ++ refusalText interpreter fault } := by
  unfold startProgram at ended
  split at ended
  · obtain ⟨_, ⟨_, stopped⟩, _⟩ | ⟨_, _, launched, last⟩ := ends_bind.mp ended
    · cases stopped
    · obtain ⟨rfl, _⟩ := ends_launch.mp launched
      obtain ⟨rfl, rfl⟩ := ends_pure.mp last
      exact .inl ⟨_, ‹_›, rfl, rfl⟩
  · obtain ⟨rfl, rfl⟩ := ends_complained_iff.mp ended
    exact .inr ⟨_, ‹_›, rfl, rfl⟩

variable {surroundings : Surroundings}

-- A bundle that was written for a program that the system then refuses to start. The refusal is told last.
structure Stranded (surroundings : Surroundings) (verbose : Bool) (config : Config)
    (interpreter : Interpreter) (fault : StartFault) (before after : Effects) : Prop where
  found : surroundings.interpreter = some interpreter
  refused : interpreter.start = .refused fault
  told : refusalText interpreter fault <:+ after.complaint
  left : ∃ text,
    (bundleText (workshop surroundings.loaders config before.disk) verbose config).outcome = .ok text ∧
      Delivered text (some bundleFile) before after

theorem ends_runBundle (ended : Ends (runBundle surroundings verbose config) before after outcome) :
    (Untouched before after ∧ outcome ≠ .ok 0) ∨
      (∃ status arguments, outcome = .ok status ∧ after.started = before.started ++ [arguments]) ∨
      ∃ interpreter fault, outcome = .ok 1 ∧
        Stranded surroundings verbose config interpreter fault before after := by
  unfold runBundle at ended
  split at ended
  · obtain ⟨untouched, rfl⟩ := ends_complained ended
    exact .inl ⟨untouched, by simp⟩
  · rename_i interpreter found
    obtain ⟨failure, stopped, rfl⟩ | ⟨text, _, read, rest⟩ := ends_bind.mp ended
    · obtain ⟨rfl, _⟩ := ends_reading.mp stopped
      exact .inl ⟨Untouched.refl _, nofun⟩
    obtain ⟨rfl, worked⟩ := ends_reading.mp read
    obtain ⟨failure, stopped, rfl⟩ | ⟨_, between, made, rest⟩ := ends_bind.mp rest
    · exact .inl ⟨ends_ensureDirectory stopped, nofun⟩
    have untouched := ends_ensureDirectory made
    obtain ⟨failure, stopped, rfl⟩ | ⟨_, _, written, launched⟩ := ends_bind.mp rest
    · obtain ⟨rfl, _⟩ | ⟨written, _⟩ := ends_writeFile stopped
      · exact .inl ⟨untouched, nofun⟩
      · cases written
    obtain ⟨_, _, stopped⟩ | ⟨_, delivered⟩ := ends_writeFile written
    · cases stopped
    have placed := delivered.behind untouched
    obtain ⟨status, _, rfl, rfl⟩ | ⟨fault, refused, rfl, rfl⟩ := ends_startProgram launched
    · exact .inr (.inl ⟨status, _, rfl, by rw [placed.1]⟩)
    · exact .inr (.inr ⟨interpreter, fault, rfl, found, refused, List.suffix_append _ _, text,
        worked, placed⟩)

-- The whole text that a command without a run is asked for.
def wanted (surroundings : Surroundings) (arguments : Arguments) (config : Config) (entry : Text) :
    Logged Text :=
  let workshop := workshop surroundings.loaders config surroundings.disk
  if arguments.graph then graphText workshop arguments.verbose entry
  else bundleText workshop arguments.verbose config

-- The wanted text of a valid configuration is in one place.
def Served (surroundings : Surroundings) (arguments : Arguments) (after : Effects) : Prop :=
  ∃ config entry text, configure surroundings arguments surroundings.disk = .ok config ∧
    config.entry = some entry ∧ (wanted surroundings arguments config entry).outcome = .ok text ∧
    Delivered text config.output surroundings.effects after

theorem ends_perform_iff : Ends (perform surroundings arguments) before after outcome ↔
    (∃ failure, configure surroundings arguments before.disk = .error failure ∧ before = after ∧
      outcome = .error failure) ∨
    ∃ config, configure surroundings arguments before.disk = .ok config ∧
      Ends (serve surroundings arguments config) before after outcome := by
  unfold perform
  rw [ends_bind]
  constructor
  · rintro (⟨failure, stopped, rfl⟩ | ⟨config, _, read, rest⟩)
    · obtain ⟨rfl, failed⟩ := ends_reading.mp stopped
      exact .inl ⟨failure, failed, rfl, rfl⟩
    · obtain ⟨rfl, configured⟩ := ends_reading.mp read
      exact .inr ⟨config, configured, rest⟩
  · rintro (⟨failure, failed, rfl, rfl⟩ | ⟨config, configured, rest⟩)
    · exact .inl ⟨failure, ends_reading.mpr ⟨rfl, failed⟩, rfl⟩
    · exact .inr ⟨config, before, ends_reading.mpr ⟨rfl, configured⟩, rest⟩

-- What comes of a command that is to run its bundle: the program was started, or the system refused to start it.
structure Launched (surroundings : Surroundings) (arguments : Arguments) (after : Effects)
    (outcome : Except Failure Int) : Prop where
  noGraph : arguments.graph = false
  asked : arguments.run = true
  launched : (after.started ≠ [] ∧ ∃ status, outcome = .ok status) ∨
    ∃ config interpreter fault, configure surroundings arguments surroundings.disk = .ok config ∧
      outcome = .ok 1 ∧
      Stranded surroundings arguments.verbose config interpreter fault surroundings.effects after

theorem ends_serve (configured : configure surroundings arguments surroundings.disk = .ok config)
    (ended : Ends (serve surroundings arguments config) surroundings.effects after outcome) :
    (Untouched surroundings.effects after ∧ outcome ≠ .ok 0) ∨
      (outcome = .ok 0 ∧ Served surroundings arguments after) ∨
      Launched surroundings arguments after outcome := by
  unfold serve at ended
  split at ended
  · obtain ⟨untouched, rfl⟩ := ends_complained ended
    exact .inl ⟨untouched, by simp⟩
  · obtain ⟨untouched, rfl⟩ := ends_complained ended
    exact .inl ⟨untouched, by simp⟩
  · rename_i entry _ given
    split at ended
    · rename_i graph
      obtain ⟨untouched, failure, rfl⟩ | ⟨rfl, text, worked, delivered⟩ := ends_deliverWork ended
      · exact .inl ⟨untouched, nofun⟩
      · refine .inr (.inl ⟨rfl, config, entry, text, configured, given, ?_, delivered⟩)
        rw [wanted, if_pos graph]
        exact worked
    · rename_i noGraph
      split at ended
      · rename_i asked
        have noGraph' : arguments.graph = false := by simpa using noGraph
        obtain quiet | ⟨status, command, rfl, started⟩ | ⟨interpreter, fault, rfl, stranded⟩ :=
          ends_runBundle ended
        · exact .inl quiet
        · exact .inr (.inr ⟨noGraph', asked, .inl ⟨by simp [started], status, rfl⟩⟩)
        · exact .inr (.inr ⟨noGraph', asked, .inr ⟨config, interpreter, fault, configured, rfl, stranded⟩⟩)
      · obtain ⟨untouched, failure, rfl⟩ | ⟨rfl, text, worked, delivered⟩ := ends_deliverWork ended
        · exact .inl ⟨untouched, nofun⟩
        · refine .inr (.inl ⟨rfl, config, entry, text, configured, given, ?_, delivered⟩)
          rw [wanted, if_neg noGraph]
          exact worked

theorem ends_perform
    (ended : Ends (perform surroundings arguments) surroundings.effects after outcome) :
    (Untouched surroundings.effects after ∧ outcome ≠ .ok 0) ∨
      (outcome = .ok 0 ∧ Served surroundings arguments after) ∨
      Launched surroundings arguments after outcome := by
  obtain ⟨failure, _, rfl, rfl⟩ | ⟨config, configured, rest⟩ := ends_perform_iff.mp ended
  · exact .inl ⟨Untouched.refl _, nofun⟩
  · exact ends_serve configured rest

-- A run that does not end well: a status other than zero, or a failure that nobody reports.
def Ending.isBad : Ending → Bool
  | .status code | .usage code => code != 0
  | .escaped _ => true

theorem conclude_effects (surroundings : Surroundings) (verbose : Bool) (effects : Effects)
    (finished : Logged Int) : ∃ complaint,
      (conclude surroundings verbose effects finished).toEffects = { effects with complaint } := by
  unfold conclude
  dsimp only
  split
  · exact ⟨_, rfl⟩
  · split
    · exact ⟨_, rfl⟩
    · exact ⟨_, rfl⟩

theorem conclude_ending (surroundings : Surroundings) (verbose : Bool) (effects : Effects)
    (finished : Logged Int) :
    (∃ status, finished.outcome = .ok status ∧
      (conclude surroundings verbose effects finished).ending = .status status) ∨
    ∃ failure, finished.outcome = .error failure ∧
      (conclude surroundings verbose effects finished).ending
        = if (complaint? surroundings.details failure).isSome then .status 1
          else .escaped failure := by
  unfold conclude
  cases outcome : finished.outcome with
  | ok status => exact .inl ⟨status, rfl, rfl⟩
  | error failure =>
    refine .inr ⟨failure, rfl, ?_⟩
    cases told : complaint? surroundings.details failure with
    | none => simp [told]
    | some complaint => simp [told]

-- Complaints are no part of what was delivered.
theorem Served.complained {complaint : Text} (served : Served surroundings arguments after)
    (left : finished = { after with complaint }) : Served surroundings arguments finished := by
  subst left
  exact served

-- How a run ends whose program the system refuses to start.
structure Abandoned (surroundings : Surroundings) (request : Arguments) (run : Run) : Prop where
  noGraph : request.graph = false
  asked : request.run = true
  status : run.ending = .status 1
  stranded : ∃ config interpreter fault, configure surroundings request surroundings.disk = .ok config ∧
    Stranded surroundings request.verbose config interpreter fault surroundings.effects run.toEffects

theorem conclude_ok (surroundings : Surroundings) (verbose : Bool) (effects : Effects)
    {finished : Logged Int} (done : finished.outcome = .ok status) :
    (conclude surroundings verbose effects finished).ending = .status status ∧
      (conclude surroundings verbose effects finished).toEffects = effects := by
  rw [conclude, done]
  exact ⟨rfl, rfl⟩

-- Nothing was started only where the system refused to start it.
theorem Launched.abandoned {finished : Logged Int}
    (launched : Launched surroundings request after finished.outcome)
    (quiet : (conclude surroundings request.verbose after finished).started = [] ∨
      ∃ failure, (conclude surroundings request.verbose after finished).ending = .escaped failure) :
    Abandoned surroundings request (conclude surroundings request.verbose after finished) := by
  obtain ⟨noGraph, asked, ⟨started, status, done⟩ |
    ⟨config, interpreter, fault, configured, done, stranded⟩⟩ := launched
  · obtain ⟨ending, left⟩ := conclude_ok surroundings request.verbose after done
    obtain none_ | ⟨failure, escaped⟩ := quiet
    · exact absurd (left ▸ none_) started
    · cases ending.symm.trans escaped
  · obtain ⟨ending, left⟩ := conclude_ok surroundings request.verbose after done
    refine ⟨noGraph, asked, ending, config, interpreter, fault, configured, ?_⟩
    rw [left]
    exact stranded

-- A run ends with zero only if what it did does.
theorem conclude_zero {finished : Logged Int}
    (zero : (conclude surroundings verbose after finished).ending = .status 0) :
    finished.outcome = .ok 0 := by
  obtain ⟨status, outcome, told⟩ | ⟨failure, _, told⟩ := conclude_ending surroundings verbose after finished
  · rw [told] at zero
    cases zero
    exact outcome
  · rw [told] at zero
    split at zero <;> cases zero

theorem run_build (parsed : parse words = .ok (.build request)) :
    run surroundings words = conclude surroundings request.verbose
      (perform surroundings request surroundings.effects).1
      (perform surroundings request surroundings.effects).2 := by
  rw [run, parsed]

-- What a step ends with.
theorem ends_self (command : Command α) (before : Effects) :
    Ends command before (command before).1 (command before).2.outcome := ⟨rfl, rfl⟩

-- A run that does not end well has touched nothing if it has started nothing, but for a bundle whose program
-- the system refused to start. One that ends with zero has put the text that it was asked for in one place.
theorem run_all_or_nothing (surroundings : Surroundings) (words : List Text) :
    let run := CommandLine.run surroundings words
    (run.ending.isBad = true → run.started = [] ∨ (∃ failure, run.ending = .escaped failure) →
      Untouched surroundings.effects run.toEffects ∨
        ∃ request, parse words = .ok (.build request) ∧ Abandoned surroundings request run) ∧
    (∀ request, parse words = .ok (.build request) → request.graph = true ∨ request.run = false →
      run.ending = .status 0 → Served surroundings request run.toEffects) := by
  intro run
  cases parsed : parse words with
  | error fault =>
    have left : run.toEffects = { surroundings.effects with complaint := faultText fault } := by
      simp only [run, CommandLine.run, parsed]
    exact ⟨fun _ _ => .inl ((Untouched.refl _).complained left), nofun⟩
  | ok request =>
  cases request with
  | help =>
    have ending : run.ending = .usage 0 := by simp only [run, CommandLine.run, parsed]
    exact ⟨fun bad => (by rw [ending] at bad; cases bad), nofun⟩
  | build request =>
    rw [show run = _ from run_build parsed]
    have ended := ends_self (perform surroundings request) surroundings.effects
    obtain ⟨complaint, left⟩ := conclude_effects surroundings request.verbose
      (perform surroundings request surroundings.effects).1
      (perform surroundings request surroundings.effects).2
    obtain ⟨untouched, bad⟩ | ⟨zero, served⟩ | launched := ends_perform ended
    · exact ⟨fun _ _ => .inl (untouched.complained left),
        fun _ _ _ zero => absurd (conclude_zero zero) bad⟩
    · refine ⟨fun bad => ?_, fun request' same _ _ => ?_⟩
      · rw [(conclude_ok _ _ _ zero).1] at bad
        cases bad
      · cases same
        exact served.complained left
    · refine ⟨fun _ quiet => .inr ⟨request, rfl, launched.abandoned quiet⟩, fun request' same => ?_⟩
      cases same
      rintro (graph | noRun)
      · cases launched.noGraph.symm.trans graph
      · cases launched.asked.symm.trans noRun

-- One module, a file in the place of a directory, and a configuration without loaders.
def desk : Surroundings :=
  ⟨⟨[['w']], [([['w'], "a.js".toList], .text "export default 1;\n".toList), ([['w'], ['f']], .text ['f']),
    ([['w'], Config.fileName], .text "\x7b\"loaders\": []\x7d".toList)]⟩, Loaders.standard, none, fun _ => []⟩

def refusedArguments : List Text := ["a.js".toList, "-o".toList, "f/b.js".toList]

def writtenArguments : List Text := ["a.js".toList, "-o".toList, "d/b.js".toList]

-- A program that is there and cannot be executed.
def lockedDesk : Surroundings :=
  { desk with interpreter := some ⟨"/bin/node".toList, .refused ⟨8, "Exec format error".toList⟩⟩ }

def runArguments : List Text := ["a.js".toList, "--run".toList]

-- The bundle is there, and its program was not started.
theorem lockedDesk_run :
    (run lockedDesk runArguments).ending = .status 1 ∧ (run lockedDesk runArguments).started = [] ∧
      ((run lockedDesk runArguments).disk.fileAt
        [['w'], buildDirectory, "bundle.js".toList]).isSome = true := by
  decide +kernel

theorem locked_abandoned :
    (run lockedDesk runArguments).ending = .status 1 ∧ (run lockedDesk runArguments).started = [] ∧
      ¬ Untouched lockedDesk.effects (run lockedDesk runArguments).toEffects := by
  obtain ⟨one, started, written⟩ := lockedDesk_run
  refine ⟨one, started, fun untouched => ?_⟩
  rw [untouched.files] at written
  cases written

theorem desk_all_or_nothing :
    (run desk refusedArguments).ending = .status 1 ∧
      Untouched desk.effects (run desk refusedArguments).toEffects ∧
    (run desk writtenArguments).ending = .status 0 ∧
      Served desk { entry := some "a.js".toList, output := some "d/b.js".toList }
        (run desk writtenArguments).toEffects ∧
    Abandoned lockedDesk { entry := some "a.js".toList, run := true } (run lockedDesk runArguments) := by
  have ⟨refused, started, written⟩ : (run desk refusedArguments).ending = .status 1 ∧
      (run desk refusedArguments).started = [] ∧ (run desk writtenArguments).ending = .status 0 := by
    decide +kernel
  obtain ⟨one, unstarted, left⟩ := lockedDesk_run
  have request : parse writtenArguments
      = .ok (.build { entry := some "a.js".toList, output := some "d/b.js".toList }) :=
    ok_of_toOption (by decide +kernel)
  have run_ : parse runArguments = .ok (.build { entry := some "a.js".toList, run := true }) :=
    ok_of_toOption (by decide +kernel)
  have refused_ : parse refusedArguments
      = .ok (.build { entry := some "a.js".toList, output := some "f/b.js".toList }) :=
    ok_of_toOption (by decide +kernel)
  have quiet := (run_all_or_nothing desk refusedArguments).1 (by rw [refused]; rfl) (.inl started)
  have served := (run_all_or_nothing desk writtenArguments).2 _ request (.inr rfl) written
  have behind := (run_all_or_nothing lockedDesk runArguments).1 (by rw [one]; rfl) (.inl unstarted)
  refine ⟨refused, quiet.resolve_right ?_, written, served, ?_⟩
  · rintro ⟨_, same, abandoned⟩
    cases refused_.symm.trans same
    cases abandoned.asked
  · obtain untouched | ⟨_, same, abandoned⟩ := behind
    · rw [untouched.files] at left
      cases left
    · cases run_.symm.trans same
      exact abandoned

end CommandLine
end ModuleBundler
