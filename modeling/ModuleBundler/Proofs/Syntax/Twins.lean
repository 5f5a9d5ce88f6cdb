import ModuleBundler.Proofs.Syntax.Moved
import ModuleBundler.Proofs.Syntax.Places

/-!
Two parsers that have passed different code and stand in the same declaration take the same tokens from there
on, to the end of the text.
-/
namespace ModuleBundler

namespace Lexer

theorem startsWith_behind (passed earlier earlier' : Text) (apart : c ∉ word) :
    Text.startsWith (passed ++ c :: earlier) word = Text.startsWith (passed ++ c :: earlier') word := by
  induction passed generalizing word with
  | nil =>
    cases word with
    | nil => simp [Text.startsWith]
    | cons d word =>
      simp only [List.mem_cons, not_or] at apart
      simp [Text.startsWith, List.isPrefixOf, beq_false_of_ne (Ne.symm apart.1)]
  | cons d passed ih =>
    cases word with
    | nil => simp [Text.startsWith]
    | cons d word =>
      simp only [List.mem_cons, not_or] at apart
      have later := ih apart.2
      simp only [Text.startsWith] at later
      simp only [Text.startsWith, List.cons_append, List.isPrefixOf, later]

-- What has been passed at two places in front of the same text agrees from a backtick on.
def SinceQuote (before before' : Text) : Prop :=
  ∃ passed earlier earlier', before = passed ++ '\x60' :: earlier ∧ before' = passed ++ '\x60' :: earlier'

variable {before before' : Text}

theorem SinceQuote.append (since : SinceQuote before before') (text : Text) :
    SinceQuote (text ++ before) (text ++ before') := by
  obtain ⟨passed, earlier, earlier', rfl, rfl⟩ := since
  exact ⟨text ++ passed, earlier, earlier', by simp, by simp⟩

-- No reader looks back past a backtick.
theorem operandExpected_quote (passed earlier earlier' : Text) :
    operandExpected (passed ++ '\x60' :: earlier) = operandExpected (passed ++ '\x60' :: earlier') := by
  cases passed with
  | nil => rfl
  | cons c passed =>
    rw [List.cons_append, List.cons_append]
    by_cases blank : c = ' '
    · have apart : ∀ word ∈ operandWordsReversed, '\x60' ∉ word := by decide
      have words : operandWordsReversed.any (Text.startsWith (passed ++ '\x60' :: earlier))
          = operandWordsReversed.any (Text.startsWith (passed ++ '\x60' :: earlier')) := by
        rw [Bool.eq_iff_iff, List.any_eq_true, List.any_eq_true]
        refine exists_congr fun word => and_congr_right fun among => ?_
        rw [startsWith_behind passed earlier earlier' (apart word among)]
      have head : (passed ++ '\x60' :: earlier).head? = (passed ++ '\x60' :: earlier').head? := by simp
      rw [blank, operandExpected_blank, operandExpected_blank, words, head]
    · rw [operandExpected_visible blank, operandExpected_visible blank]

theorem SinceQuote.lexeme? (since : SinceQuote before before') (expected : List Terminal) (rest : Text) :
    lexeme? expected before rest = lexeme? expected before' rest := by
  obtain ⟨passed, earlier, earlier', rfl, rfl⟩ := since
  refine lexeme?_before ?_ ?_
  · simp only [regex?, operandExpected_quote passed earlier earlier']
  · simp [ignored?]

end Lexer

namespace Syntax

-- The same declaration is under way, and as many groups are open, which hold as many nodes.
structure Machine.Twins (machine other : Machine) : Prop where
  progress : machine.progress = other.progress
  frames : List.Forall₂ Frame.Alike machine.frames other.frames

variable {machine other next : Machine} {token : Token}

namespace Machine

theorem Twins.expected (twins : Twins machine other) : machine.expected = other.expected := by
  obtain ⟨items, progress, frames⟩ := machine
  obtain ⟨others, _, otherFrames⟩ := other
  obtain ⟨rfl, open_⟩ := twins
  cases open_ with
  | nil => rfl
  | cons alike => exact alike.expected

theorem Twins.outside (twins : Twins machine other) (outside : machine.frames = []) : other.frames = [] :=
  List.forall₂_nil_left_iff.mp (outside ▸ twins.frames)

-- What the one can do with a token the other can do with it.
theorem Begins.twins (twins : Twins machine other) (begun : machine.Begins token next) :
    ∃ otherNext, other.Begins token otherNext ∧ Twins next otherNext := by
  cases begun with
  | leaf lexed => exact ⟨_, .leaf lexed, rfl, twins.frames⟩
  | group lexed => exact ⟨_, .group lexed, rfl, .cons ⟨rfl, rfl⟩ twins.frames⟩
  | «import» lexed => exact ⟨_, .import lexed, rfl, twins.frames⟩
  | «export» lexed => exact ⟨_, .export lexed, rfl, twins.frames⟩

theorem attach_twins (twins : Twins machine other) (group otherGroup : Node)
    (waits : machine.progress.takesGroup = true) : Twins (machine.attach group) (other.attach otherGroup) := by
  obtain ⟨items, progress, frames⟩ := machine
  obtain ⟨others, _, otherFrames⟩ := other
  obtain ⟨rfl, open_⟩ := twins
  cases progress
  case idle | importing | exportDefaultFunction | exportDefaultClass | exportVariable => exact ⟨rfl, open_⟩
  all_goals cases waits

theorem finish_twins (twins : Twins machine other) (item : Item) :
    Twins (machine.finish item false) (other.finish item false) := ⟨rfl, twins.frames⟩

theorem Step.twins (twins : Twins machine other) (ready : machine.Ready) (step : machine.Step token next) :
    ∃ otherNext, other.Step token otherNext ∧ Twins next otherNext := by
  have open_ := twins.frames
  cases step with
  | leaf within lexed =>
    rw [within] at open_
    obtain ⟨frame, outers, ⟨bracket, children⟩, outside, otherWithin⟩ := List.forall₂_cons_left_iff.mp open_
    exact ⟨_, .leaf otherWithin lexed, twins.progress, .cons ⟨bracket, congrArg (· + 1) children⟩ outside⟩
  | group within lexed =>
    rw [within] at open_
    obtain ⟨frame, outers, _, _, otherWithin⟩ := List.forall₂_cons_left_iff.mp open_
    exact ⟨_, .group otherWithin lexed, twins.progress, .cons ⟨rfl, rfl⟩ twins.frames⟩
  | closesInner within lexed =>
    rw [within] at open_
    obtain ⟨frame, _, ⟨bracket, _⟩, behind, otherWithin⟩ := List.forall₂_cons_left_iff.mp open_
    obtain ⟨outer, outers, ⟨outerBracket, children⟩, outside, rfl⟩ := List.forall₂_cons_left_iff.mp behind
    exact ⟨_, .closesInner otherWithin (bracket ▸ lexed), twins.progress,
      .cons ⟨outerBracket, congrArg (· + 1) children⟩ outside⟩
  | closes within lexed =>
    rw [within] at open_
    obtain ⟨frame, _, ⟨bracket, _⟩, behind, otherWithin⟩ := List.forall₂_cons_left_iff.mp open_
    rw [List.forall₂_nil_left_iff.mp behind] at otherWithin
    have closed : Twins { machine with frames := [] } { other with frames := [] } := ⟨twins.progress, .nil⟩
    exact ⟨_, .closes otherWithin (bracket ▸ lexed), attach_twins closed _ _ (ready (by simp [within]))⟩
  | begins outside idle begun =>
    obtain ⟨otherNext, otherBegun, alike⟩ := begun.twins twins
    exact ⟨_, .begins (twins.outside outside) (twins.progress ▸ idle) otherBegun, alike⟩
  | takes outside taken =>
    exact ⟨_, .takes (twins.outside outside) (twins.progress ▸ taken), rfl, twins.frames⟩
  | completes outside completed =>
    exact ⟨_, .completes (twins.outside outside) (twins.progress ▸ completed), rfl, twins.frames⟩
  | follows outside complete begun =>
    obtain ⟨otherNext, otherBegun, alike⟩ := begun.twins (finish_twins twins _)
    exact ⟨_, .follows (twins.outside outside) (twins.progress ▸ complete) otherBegun, alike⟩
  | opens outside awaited lexed =>
    exact ⟨_, .opens (twins.outside outside) (twins.progress ▸ awaited) lexed, twins.progress,
      .cons ⟨rfl, rfl⟩ twins.frames⟩

theorem feed_twins (twins : Twins machine other) (ready : machine.Ready) (fed : machine.feed token = some next) :
    ∃ otherNext, other.feed token = some otherNext ∧ Twins next otherNext := by
  obtain ⟨otherNext, step, alike⟩ := (feed_step fed).twins twins ready
  exact ⟨otherNext, step.fed, alike⟩

theorem result?_twins (twins : Twins machine other) (ended : machine.result? = some parsed) :
    ∃ otherParsed, other.result? = some otherParsed := by
  obtain ⟨items, progress, frames⟩ := machine
  obtain ⟨others, _, otherFrames⟩ := other
  obtain ⟨rfl, open_⟩ := twins
  cases open_ with
  | cons => cases ended
  | nil =>
    cases progress
    case idle | exportDefault | exportDefaultAsync | exportList => exact ⟨_, rfl⟩
    all_goals cases ended

end Machine

-- Two places in front of the same text: the same parsers stand there, behind texts that agree from a backtick on.
structure Level (cursor other : Cursor) : Prop where
  beside : Beside 0 cursor other
  recalls : Lexer.SinceQuote cursor.before other.before

variable {cursor otherCursor : Cursor}

theorem Level.same (level : Level cursor otherCursor) (terminal : Terminal) (size : Nat) :
    otherCursor.token terminal size = cursor.token terminal size := level.beside.token terminal size

theorem Level.advance (level : Level cursor otherCursor) (size : Nat) :
    Level (cursor.advance size) (otherCursor.advance size) where
  beside := level.beside.advance size
  recalls := by
    rw [Cursor.before_advance, Cursor.before_advance, level.beside.rest]
    exact level.recalls.append _

theorem Level.lexeme? (level : Level cursor otherCursor) (twins : machine.Twins other)
    (read : Lexer.lexeme? machine.expected cursor.before cursor.rest = some lexed) :
    Lexer.lexeme? other.expected otherCursor.before otherCursor.rest = some lexed := by
  rw [← twins.expected, level.beside.rest, ← level.recalls.lexeme?]
  exact read

-- From such places on the same tokens are taken.
theorem parseFrom_twins (twins : machine.Twins other) (level : Level cursor otherCursor) (ready : machine.Ready)
    (otherReady : other.Ready) (enough : cursor.rest.length ≤ otherFuel)
    (accepted : parseFrom fuel machine cursor previous = .ok parsed) :
    ∃ otherParsed tokens, parseFrom otherFuel other otherCursor otherPrevious = .ok otherParsed ∧
      parsed.items.flatMap Item.tokens = machine.tokens ++ tokens ∧
      otherParsed.items.flatMap Item.tokens = other.tokens ++ tokens := by
  fun_induction parseFrom fuel machine cursor previous generalizing other otherCursor otherFuel otherPrevious with
  | case1 fuel machine cursor previous ended module ending =>
    cases accepted
    obtain ⟨otherParsed, otherEnding⟩ := Machine.result?_twins twins ending
    refine ⟨otherParsed, [], ?_, ?_, ?_⟩
    · rw [parseFrom.eq_def]
      simp only [level.beside.rest, ended, otherEnding]
    · rw [Machine.result?_tokens ending, List.append_nil]
    · rw [Machine.result?_tokens otherEnding, List.append_nil]
  | case2 | case3 | case4 | case7 => cases accepted
  | case5 machine cursor previous first tail remaining size fuel read ih =>
    have remains : cursor.rest ≠ [] := by simp [remaining]
    have positive := List.length_pos_iff.mpr remains
    have otherRead := level.lexeme? twins read
    obtain ⟨less, rfl⟩ := Nat.exists_eq_succ_of_ne_zero (Nat.ne_of_gt (Nat.lt_of_lt_of_le positive enough))
    rw [parseFrom_skipped (level.beside.rest ▸ remains) otherRead]
    exact ih twins (level.advance size) ready otherReady (rest_shorter enough (Lexer.lexeme?_skipped_pos read)) accepted
  | case6 machine cursor previous first tail remaining terminal size fuel read token next fed =>
    rename_i ih
    have remains : cursor.rest ≠ [] := by simp [remaining]
    have positive := List.length_pos_iff.mpr remains
    have otherRead := level.lexeme? twins read
    obtain ⟨less, rfl⟩ := Nat.exists_eq_succ_of_ne_zero (Nat.ne_of_gt (Nat.lt_of_lt_of_le positive enough))
    obtain ⟨otherNext, otherFed, nextTwins⟩ := Machine.feed_twins twins ready fed
    obtain ⟨taken, nextReady⟩ := Machine.feed_tokens ready fed
    obtain ⟨otherTaken, otherNextReady⟩ := Machine.feed_tokens otherReady otherFed
    have same : otherCursor.token terminal size = token := level.same terminal size
    rw [parseFrom_token (level.beside.rest ▸ remains) otherRead (same ▸ otherFed)]
    obtain ⟨otherParsed, tokens, goes, own,
      others⟩ := ih nextTwins (level.advance size) nextReady otherNextReady
      (rest_shorter enough (Lexer.lexeme?_token_pos read)) accepted
    exact ⟨otherParsed, token :: tokens, goes, by simp [own, taken], by simp [others, otherTaken]⟩

end Syntax
end ModuleBundler
