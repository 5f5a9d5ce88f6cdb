import ModuleBundler.Syntax.Machine

/-!
What the parser can do with a token. Inside a group the token adds to it or closes it. At the top level it
begins an item, or the declaration under way goes on with it, is completed by it, is complete without it, or
opens a group that belongs to it. The parser takes a token exactly in these ways, so that what is kept by each
of them is kept by the parser, and two parsers are compared by comparing these.
-/
namespace ModuleBundler.Syntax

namespace Progress

-- The declaration under way goes on with the token.
inductive Takes (token : Token) : Progress → Progress → Prop where
  | importDefault (lexed : token.terminal = .leaf .name) : Takes token (.importing word) (.importDefault word token)
  | importStar (lexed : token.terminal = .mark .star) : Takes token (.importing word) (.importStar word none token)
  | importMeta (lexed : token.terminal = .mark .dot) : Takes token (.importing word) (.importMeta word token)
  | importNames (lexed : token.terminal = .opener .brace) :
      Takes token (.importing word) (.importNames word none { opener := token })
  | importComma (lexed : token.terminal = .mark .comma) :
      Takes token (.importDefault word name) (.importDefaultComma word ⟨name, token⟩)
  | importDefaultFrom (lexed : token.terminal = .keyword .from_) :
      Takes token (.importDefault word name) (.importFrom word (.defaultOnly name) token)
  | importHeadStar (lexed : token.terminal = .mark .star) :
      Takes token (.importDefaultComma word head) (.importStar word (some head) token)
  | importHeadNames (lexed : token.terminal = .opener .brace) :
      Takes token (.importDefaultComma word head) (.importNames word (some head) { opener := token })
  | importStarAs {star : Token} (lexed : token.terminal = .keyword .as_) :
      Takes token (.importStar word head star) (.importStarAs word head star token)
  | importNamespace {star : Token} (lexed : token.terminal = .leaf .name) :
      Takes token (.importStarAs word head star asWord) (.importClause word (.namespace head star asWord token))
  | importList (step : list.feed false token = some (.open longer)) :
      Takes token (.importNames word head list) (.importNames word head longer)
  | importListEnd (step : list.feed false token = some (.closed whole)) :
      Takes token (.importNames word head list) (.importClause word (.named head whole))
  | importFrom (lexed : token.terminal = .keyword .from_) :
      Takes token (.importClause word clause) (.importFrom word clause token)
  | exportDefault (lexed : token.terminal = .keyword .default) :
      Takes token (.exporting word) (.exportDefault word token)
  | exportAsync (lexed : token.terminal = .keyword .async) : Takes token (.exporting word) (.exportAsync word token)
  | exportFunction (lexed : token.terminal = .keyword .function) :
      Takes token (.exporting word) (.exportFunction word ⟨none, token, none⟩)
  | exportClass (lexed : token.terminal = .keyword .class_) : Takes token (.exporting word) (.exportClass word token)
  | exportVariable (lexed : token.terminal ∈ [.keyword .const, .keyword .let_, .keyword .var]) :
      Takes token (.exporting word) (.exportVariable word token)
  | exportNames (lexed : token.terminal = .opener .brace) :
      Takes token (.exporting word) (.exportNames word { opener := token })
  | exportStar (lexed : token.terminal = .mark .star) : Takes token (.exporting word) (.exportStar word token)
  | defaultAsync (lexed : token.terminal = .keyword .async) :
      Takes token (.exportDefault word defaultWord) (.exportDefaultAsync word defaultWord token)
  | defaultFunction (lexed : token.terminal = .keyword .function) :
      Takes token (.exportDefault word defaultWord) (.exportDefaultFunction word defaultWord ⟨none,
        token, none⟩)
  | defaultClass (lexed : token.terminal = .keyword .class_) :
      Takes token (.exportDefault word defaultWord) (.exportDefaultClass word defaultWord token)
  | defaultAsyncFunction (lexed : token.terminal = .keyword .function) :
      Takes token (.exportDefaultAsync word defaultWord asyncWord)
        (.exportDefaultFunction word defaultWord ⟨some asyncWord, token, none⟩)
  | defaultFunctionStar (lexed : token.terminal = .mark .star) (starless : ¬head.star.isSome) :
      Takes token (.exportDefaultFunction word defaultWord head)
        (.exportDefaultFunction word defaultWord { head with star := some token })
  | asyncFunction (lexed : token.terminal = .keyword .function) :
      Takes token (.exportAsync word asyncWord) (.exportFunction word ⟨some asyncWord, token, none⟩)
  | functionStar (lexed : token.terminal = .mark .star) (starless : ¬head.star.isSome) :
      Takes token (.exportFunction word head) (.exportFunction word { head with star := some token })
  | exportNamesMore (step : list.feed true token = some (.open longer)) :
      Takes token (.exportNames word list) (.exportNames word longer)
  | exportNamesEnd (step : list.feed true token = some (.closed whole)) :
      Takes token (.exportNames word list) (.exportList word whole)
  | exportListFrom (lexed : token.terminal = .keyword .from_) :
      Takes token (.exportList word whole) (.exportListFrom word whole token)
  | exportStarFrom {star : Token} (lexed : token.terminal = .keyword .from_) :
      Takes token (.exportStar word star) (.exportStarFrom word star token)
  | exportStarAs {star : Token} (lexed : token.terminal = .keyword .as_) :
      Takes token (.exportStar word star) (.exportStarAs word star token)
  | exportNamespace {star : Token} (lexed : token.terminal = .leaf .name) :
      Takes token (.exportStarAs word star asWord) (.exportNamespace word star asWord token)
  | exportNamespaceFrom {star : Token} (lexed : token.terminal = .keyword .from_) :
      Takes token (.exportNamespace word star asWord name) (.exportNamespaceFrom word star asWord name token)

-- The token is the last one of the declaration.
inductive Completes (token : Token) : Progress → Item → Prop where
  | importBare (lexed : token.terminal = .leaf .string) : Completes token (.importing word) (.importBare word token)
  | importMeta (lexed : token.terminal = .leaf .name) :
      Completes token (.importMeta word dot) (.importMeta word dot token)
  | importFrom (lexed : token.terminal = .leaf .string) :
      Completes token (.importFrom word clause fromWord) (.importFrom word clause fromWord token)
  | defaultFunction (lexed : token.terminal = .leaf .name) :
      Completes token (.exportDefaultFunction word defaultWord head)
        (.export word (.default defaultWord (.namedFunction head token)))
  | defaultClass (lexed : token.terminal = .leaf .name) :
      Completes token (.exportDefaultClass word defaultWord classWord)
        (.export word (.default defaultWord (.namedClass classWord token)))
  | derivedClass (lexed : token.terminal = .keyword .extends_) :
      Completes token (.exportDefaultClass word defaultWord classWord)
        (.export word (.default defaultWord (.derivedClass classWord token)))
  | function (lexed : token.terminal = .leaf .name) :
      Completes token (.exportFunction word head) (.export word (.function head token))
  | «class» (lexed : token.terminal = .leaf .name) :
      Completes token (.exportClass word classWord) (.export word (.class classWord token))
  | «variable» (lexed : token.terminal = .leaf .name) :
      Completes token (.exportVariable word kind) (.export word (.variable kind (.leaf token)))
  | namesFrom (lexed : token.terminal = .leaf .string) :
      Completes token (.exportListFrom word whole fromWord) (.export word (.namesFrom whole fromWord token))
  | all {star : Token} (lexed : token.terminal = .leaf .string) :
      Completes token (.exportStarFrom word star fromWord) (.export word (.all star fromWord token))
  | «namespace» {star : Token} (lexed : token.terminal = .leaf .string) :
      Completes token (.exportNamespaceFrom word star asWord name fromWord)
        (.export word (.namespace star asWord name fromWord token))

-- What is under way is a declaration as it stands, and the next token may begin an item.
inductive Complete : Progress → Item → Prop where
  | expression : Complete (.exportDefault word defaultWord) (.export word (.default defaultWord .expression))
  | async : Complete (.exportDefaultAsync word defaultWord asyncWord)
      (.export word (.default defaultWord (.async asyncWord)))
  | names : Complete (.exportList word whole) (.export word (.names whole))

-- The declaration under way goes on with a group.
inductive Opens : Progress → Bracket → Prop where
  | importCall : Opens (.importing word) .paren
  | defaultFunction : Opens (.exportDefaultFunction word defaultWord head) .paren
  | defaultClass : Opens (.exportDefaultClass word defaultWord classWord) .brace
  | objectPattern : Opens (.exportVariable word kind) .brace
  | arrayPattern : Opens (.exportVariable word kind) .square

end Progress

-- The group of a frame that the token closes.
def Frame.closed (frame : Frame) (token : Token) : Node :=
  .group frame.bracket (.leaf token :: frame.children).reverse

namespace Machine

-- The token begins an item.
inductive Begins (machine : Machine) (token : Token) : Machine → Prop where
  | leaf (lexed : token.terminal = .leaf kind) : Begins machine token (machine.addNode (.leaf token))
  | group (lexed : token.terminal = .opener bracket) :
      Begins machine token ({ machine with progress := .idle true }.opened bracket token)
  | «import» (lexed : token.terminal = .keyword .import_) :
      Begins machine token { machine with progress := .importing token }
  | «export» (lexed : token.terminal = .keyword .export_) :
      Begins machine token { machine with progress := .exporting token }

inductive Step (machine : Machine) (token : Token) : Machine → Prop where
  | leaf (within : machine.frames = frame :: outers) (lexed : token.terminal = .leaf kind) :
      Step machine token { machine with frames := { frame with children := .leaf token :: frame.children } :: outers }
  | group (within : machine.frames = frame :: outers) (lexed : token.terminal = .opener bracket) :
      Step machine token (machine.opened bracket token)
  | closesInner (within : machine.frames = frame :: outer :: outers)
      (lexed : token.terminal = .closer frame.bracket) : Step machine token { machine with
        frames := { outer with children := frame.closed token :: outer.children } :: outers }
  | closes (within : machine.frames = [frame]) (lexed : token.terminal = .closer frame.bracket) :
      Step machine token ({ machine with frames := [] }.attach (frame.closed token))
  | begins (outside : machine.frames = []) (idle : machine.progress = .idle afterNode)
      (begun : machine.Begins token next) : Step machine token next
  | takes (outside : machine.frames = []) (taken : machine.progress.Takes token longer) :
      Step machine token { machine with progress := longer }
  | completes (outside : machine.frames = []) (completed : machine.progress.Completes token item) :
      Step machine token (machine.finish item false)
  | follows (outside : machine.frames = []) (complete : machine.progress.Complete item)
      (begun : (machine.finish item false).Begins token next) : Step machine token next
  | opens (outside : machine.frames = []) (awaited : machine.progress.Opens bracket)
      (lexed : token.terminal = .opener bracket) : Step machine token (machine.opened bracket token)

variable {machine next : Machine} {token : Token}

theorem feedItem_begins (fed : machine.feedItem token = some next) : machine.Begins token next := by
  unfold feedItem at fed
  split at fed
  · rename_i lexed
    cases fed
    exact .leaf lexed
  · rename_i lexed
    cases fed
    exact .group lexed
  · rename_i lexed
    cases fed
    exact .import lexed
  · rename_i lexed
    cases fed
    exact .export lexed
  · cases fed

theorem feedInner_step (within : machine.frames = frame :: outers)
    (fed : machine.feedInner frame outers token = some next) : machine.Step token next := by
  unfold feedInner at fed
  split at fed
  · rename_i lexed
    cases fed
    exact .leaf within lexed
  · rename_i lexed
    cases fed
    exact .group within lexed
  · rename_i bracket lexed
    split at fed
    · rename_i own
      subst own
      dsimp only at fed
      split at fed
      · cases fed
        exact .closes within lexed
      · cases fed
        exact .closesInner within lexed
    · cases fed
  · cases fed

theorem feedOuter_step (outside : machine.frames = []) (fed : machine.feedOuter token = some next) :
    machine.Step token next := by
  obtain ⟨items, progress, frames⟩ := machine
  cases outside
  unfold feedOuter at fed
  dsimp only at fed
  split at fed
  all_goals try split at fed
  all_goals first
    | exact .begins rfl rfl (feedItem_begins fed)
    | exact .follows rfl (by constructor) (feedItem_begins fed)
    | cases fed
  -- Each of the others is the constructor that leads from the one progress to the other.
  all_goals first
    | refine .takes rfl ?_
      constructor
      all_goals first
        | assumption
        | simp [*]
    | refine .completes rfl ?_
      constructor
      assumption
    | refine .opens rfl ?_ (by assumption)
      constructor

theorem feed_step (fed : machine.feed token = some next) : machine.Step token next := by
  unfold feed at fed
  split at fed
  · rename_i within
    exact feedInner_step within fed
  · rename_i outside
    exact feedOuter_step outside fed

-- The other way round, each of the ways is one that the parser goes.
theorem Begins.fed (begun : machine.Begins token next) : machine.feedItem token = some next := by
  cases begun with
  | leaf lexed | group lexed | «import» lexed | «export» lexed => simp only [feedItem, lexed]

theorem takes_fed (outside : machine.frames = []) (taken : machine.progress.Takes token longer) :
    machine.feedOuter token = some { machine with progress := longer } := by
  obtain ⟨items, progress, frames⟩ := machine
  obtain ⟨terminal, text, start, line, column⟩ := token
  cases outside
  cases taken with
  | importList step | importListEnd step | exportNamesMore step | exportNamesEnd step =>
    simp only [feedOuter, step]
  | defaultFunctionStar lexed starless | functionStar lexed starless =>
    cases lexed
    exact if_neg starless
  | exportVariable lexed =>
    simp only [List.mem_cons, List.not_mem_nil, or_false] at lexed
    rcases lexed with rfl | rfl | rfl <;> rfl
  | _ lexed =>
    cases lexed
    rfl

theorem completes_fed (outside : machine.frames = []) (completed : machine.progress.Completes token item) :
    machine.feedOuter token = some (machine.finish item false) := by
  obtain ⟨items, progress, frames⟩ := machine
  obtain ⟨terminal, text, start, line, column⟩ := token
  cases outside
  cases completed with
  | _ lexed =>
    cases lexed
    rfl

theorem follows_fed (outside : machine.frames = []) (complete : machine.progress.Complete item)
    (begun : (machine.finish item false).Begins token next) : machine.feedOuter token = some next := by
  obtain ⟨items, progress, frames⟩ := machine
  obtain ⟨terminal, text, start, line, column⟩ := token
  cases outside
  cases complete
  all_goals cases begun with
    | leaf lexed | group lexed | «import» lexed | «export» lexed =>
      cases lexed
      rfl

theorem opens_fed (outside : machine.frames = []) (awaited : machine.progress.Opens bracket)
    (lexed : token.terminal = .opener bracket) :
    machine.feedOuter token = some (machine.opened bracket token) := by
  obtain ⟨items, progress, frames⟩ := machine
  obtain ⟨terminal, text, start, line, column⟩ := token
  cases outside
  cases lexed
  cases awaited
  all_goals rfl

theorem feed_outside (outside : machine.frames = []) : machine.feed token = machine.feedOuter token := by
  simp only [feed, outside]

theorem Step.fed (step : machine.Step token next) : machine.feed token = some next := by
  cases step with
  | leaf within lexed | group within lexed => simp only [feed, within, feedInner, lexed]
  | closesInner within lexed | closes within lexed =>
    simp only [feed, within, feedInner, lexed, if_true]
    rfl
  | begins outside idle begun =>
    simp only [feed_outside outside, feedOuter, idle]
    exact begun.fed
  | takes outside taken =>
    rw [feed_outside outside]
    exact takes_fed outside taken
  | completes outside completed =>
    rw [feed_outside outside]
    exact completes_fed outside completed
  | follows outside complete begun =>
    rw [feed_outside outside]
    exact follows_fed outside complete begun
  | opens outside awaited lexed =>
    rw [feed_outside outside]
    exact opens_fed outside awaited lexed

theorem feed_iff : machine.feed token = some next ↔ machine.Step token next := ⟨feed_step, Step.fed⟩

end Machine
end ModuleBundler.Syntax
