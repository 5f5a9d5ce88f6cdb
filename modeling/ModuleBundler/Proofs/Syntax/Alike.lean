import Mathlib.Data.List.Forall2
import ModuleBundler.Proofs.Lookback
import ModuleBundler.Proofs.Syntax.Undeclared

/-!
Two machines that have passed different code, and stand alike, accept the same texts.
-/
namespace ModuleBundler

theorem Cursor.before_advance (cursor : Cursor) (count : Nat) :
    (cursor.advance count).before = (cursor.rest.take count).reverse ++ cursor.before := by
  induction count generalizing cursor with
  | zero => rfl
  | succ count ih =>
    rw [advance, ih, rest_step]
    unfold step
    split
    · rename_i ended
      simp [ended]
    · rename_i c rest read
      split <;> simp [read]

namespace Syntax

variable {machine other next : Machine} {cursor otherCursor : Cursor} {token otherToken : Token}

-- Where the parser stands, apart from the code it has passed.
def Progress.Alike : Progress → Progress → Prop
  | .idle _, .idle _ | .importing _, .importing _ | .importMeta _ _, .importMeta _ _ => True
  | _, _ => False

def Frame.Alike (frame other : Frame) : Prop :=
  frame.bracket = other.bracket ∧ frame.children.length = other.children.length

theorem Frame.Alike.expected {frame other : Frame} (alike : Frame.Alike frame other) :
    frame.expected = other.expected := by
  obtain ⟨bracket, children⟩ := frame
  obtain ⟨_, otherChildren⟩ := other
  obtain ⟨rfl, size⟩ := alike
  dsimp only at size
  unfold Frame.expected
  match children, otherChildren, size with
  | [], [], _ => rfl
  | [_], [_], _ => rfl
  | _ :: _ :: _, _ :: _ :: _, _ => rfl

namespace Machine

structure Alike (machine other : Machine) : Prop where
  code : machine.items.all Item.isCode = true
  otherCode : other.items.all Item.isCode = true
  progress : Progress.Alike machine.progress other.progress
  frames : List.Forall₂ Frame.Alike machine.frames other.frames
  ready : machine.Ready
  otherReady : other.Ready

-- The same token leads on from both, to machines that are alike or that both declare something, or from neither.
def Follow (step other : Option Machine) : Prop :=
  match step, other with
  | none, none => True
  | some next, some otherNext => Alike next otherNext ∨ next.isCode = false ∧ otherNext.isCode = false
  | _, _ => False

theorem feedOuter_alike (alike : Alike machine other) (closed : machine.frames = [])
    (same : token.terminal = otherToken.terminal) :
    Follow (machine.feedOuter token) (other.feedOuter otherToken) := by
  obtain ⟨items, progress, frames⟩ := machine
  obtain ⟨otherItems, otherProgress, otherFrames⟩ := other
  obtain ⟨terminal, text, start, line, column⟩ := token
  obtain ⟨otherTerminal, otherText, otherStart, otherLine, otherColumn⟩ := otherToken
  obtain ⟨code, otherCode, standing, open_, ready, otherReady⟩ := alike
  cases same
  cases closed
  cases open_
  dsimp only at code otherCode standing
  cases progress <;> cases otherProgress <;> try cases standing
  · cases terminal with
    | keyword word =>
      cases word
      all_goals try trivial
      · exact .inl ⟨code, otherCode, trivial, .nil, ready_closed rfl, ready_closed rfl⟩
      · exact .inr ⟨rfl, rfl⟩
    | opener bracket => exact .inl ⟨code, otherCode, trivial, .cons ⟨rfl, rfl⟩ .nil, fun _ => rfl,
      fun _ => rfl⟩
    | closer bracket => trivial
    | mark mark => trivial
    | leaf leaf =>
      refine .inl ⟨?_, ?_, trivial, .nil, ready_closed rfl, ready_closed rfl⟩
      · simpa [feedItem, addNode, Item.isCode] using code
      · simpa [feedItem, addNode, Item.isCode] using otherCode
  · cases terminal with
    | keyword word => trivial
    | closer bracket => trivial
    | opener bracket =>
      cases bracket
      · exact .inr ⟨rfl, rfl⟩
      · exact .inl ⟨code, otherCode, trivial, .cons ⟨rfl, rfl⟩ .nil, fun _ => rfl, fun _ => rfl⟩
      · trivial
    | mark mark =>
      cases mark
      · trivial
      · exact .inr ⟨rfl, rfl⟩
      · exact .inl ⟨code, otherCode, trivial, .nil, ready_closed rfl, ready_closed rfl⟩
    | leaf leaf =>
      cases leaf
      all_goals try trivial
      · exact .inr ⟨rfl, rfl⟩
      · exact .inr ⟨rfl, rfl⟩
  · cases terminal with
    | keyword word => trivial
    | closer bracket => trivial
    | opener bracket => trivial
    | mark mark => trivial
    | leaf leaf =>
      cases leaf
      all_goals try trivial
      refine .inl ⟨?_, ?_, trivial, .nil, ready_closed rfl, ready_closed rfl⟩
      · simpa [feedOuter, finish, Item.isCode] using code
      · simpa [feedOuter, finish, Item.isCode] using otherCode

theorem attach_alike (alike : Alike machine other) (group otherGroup : Node)
    (waits : machine.progress.takesGroup = true) (closed : machine.frames = [])  :
    Alike (machine.attach group) (other.attach otherGroup) := by
  obtain ⟨items, progress, frames⟩ := machine
  obtain ⟨otherItems, otherProgress, otherFrames⟩ := other
  obtain ⟨code, otherCode, standing, open_, ready, otherReady⟩ := alike
  cases closed
  cases open_
  dsimp only at code otherCode standing
  cases progress <;> cases otherProgress <;> try cases standing
  · refine ⟨?_, ?_, trivial, .nil, ready_closed rfl, ready_closed rfl⟩
    · simpa [attach, addNode, Item.isCode] using code
    · simpa [attach, addNode, Item.isCode] using otherCode
  · refine ⟨?_, ?_, trivial, .nil, ready_closed rfl, ready_closed rfl⟩
    · simpa [attach, finish, Item.isCode] using code
    · simpa [attach, finish, Item.isCode] using otherCode
  · cases waits

theorem feedInner_alike {outers otherOuters : List Frame} (alike : Alike machine other)
    (within : machine.frames = frame :: outers) (otherWithin : other.frames = otherFrame :: otherOuters)
    (same : token.terminal = otherToken.terminal) :
    Follow (machine.feedInner frame outers token) (other.feedInner otherFrame otherOuters otherToken) := by
  have waits : machine.progress.takesGroup = true := alike.ready (by simp [within])
  have otherWaits : other.progress.takesGroup = true := alike.otherReady (by simp [otherWithin])
  have open_ := alike.frames
  rw [within, otherWithin] at open_
  obtain ⟨⟨bracket, children⟩, outside⟩ := List.forall₂_cons.mp open_
  unfold feedInner
  rw [← same]
  split
  · refine .inl ⟨alike.code, alike.otherCode, alike.progress, .cons ⟨bracket, ?_⟩ outside,
      fun _ => waits, fun _ => otherWaits⟩
    exact congrArg (· + 1) children
  · refine .inl ⟨alike.code, alike.otherCode, alike.progress, ?_, fun _ => waits, fun _ => otherWaits⟩
    exact .cons ⟨rfl, rfl⟩ alike.frames
  · rw [← bracket]
    split
    · cases outside with
      | nil =>
        have closed : Alike { machine with frames := [] } { other with frames := [] } :=
          ⟨alike.code, alike.otherCode, alike.progress, .nil, ready_closed rfl, ready_closed rfl⟩
        exact .inl (attach_alike closed _ _ waits rfl)
      | cons outer outside =>
        refine .inl ⟨alike.code, alike.otherCode, alike.progress, ?_, fun _ => waits, fun _ => otherWaits⟩
        exact .cons ⟨outer.1, congrArg (· + 1) outer.2⟩ outside
    · trivial
  · trivial

theorem feed_alike (alike : Alike machine other) (same : token.terminal = otherToken.terminal) :
    Follow (machine.feed token) (other.feed otherToken) := by
  unfold feed
  cases within : machine.frames with
  | nil =>
    have closed := alike.frames
    rw [within, List.forall₂_nil_left_iff] at closed
    rw [closed]
    exact feedOuter_alike alike within same
  | cons frame outers =>
    have open_ := alike.frames
    rw [within] at open_
    obtain ⟨otherFrame, otherOuters, _, _, otherWithin⟩ := List.forall₂_cons_left_iff.mp open_
    rw [otherWithin]
    exact feedInner_alike alike within otherWithin same

theorem expected_alike (alike : Alike machine other) :
    machine.expected = other.expected ∨
      machine.frames = [] ∧ other.frames = [] ∧
        ∃ afterNode otherAfterNode,
          machine.progress = .idle afterNode ∧ other.progress = .idle otherAfterNode := by
  obtain ⟨items, progress, frames⟩ := machine
  obtain ⟨otherItems, otherProgress, otherFrames⟩ := other
  obtain ⟨_, _, standing, open_, _, _⟩ := alike
  dsimp only at standing open_ ⊢
  cases open_ with
  | nil =>
    cases progress <;> cases otherProgress <;> try cases standing
    · exact .inr ⟨rfl, rfl, _, _, rfl, rfl⟩
    · exact .inl rfl
    · exact .inl rfl
  | cons first _ => exact .inl first.expected

theorem Alike.symm (alike : Alike machine other) : Alike other machine where
  code := alike.otherCode
  otherCode := alike.code
  progress := by
    have standing := alike.progress
    unfold Progress.Alike at standing ⊢
    split at standing
    · rename_i here there
      simp only [here, there]
    · rename_i here there
      simp only [here, there]
    · rename_i here there
      simp only [here, there]
    · cases standing
  frames := alike.frames.flip.imp fun _ _ same => ⟨same.1.symm, same.2.symm⟩
  ready := alike.otherReady
  otherReady := alike.ready

theorem result?_alike (alike : Alike machine other) (ended : machine.result? = some parsed) :
    ∃ otherParsed, other.result? = some otherParsed ∧ otherParsed.items.all Item.isCode = true := by
  obtain ⟨items, progress, frames⟩ := machine
  obtain ⟨otherItems, otherProgress, otherFrames⟩ := other
  obtain ⟨_, otherCode, standing, open_, _, _⟩ := alike
  dsimp only at otherCode standing open_
  cases open_ with
  | cons => cases ended
  | nil =>
    cases progress <;> cases otherProgress <;> try cases standing
    · exact ⟨_, rfl, by simpa using otherCode⟩
    all_goals cases ended

-- Where no bracket is open, a closing one is refused.
theorem feed_closer (closed : machine.frames = []) (idle : machine.progress = .idle afterNode)
    (closer : token.terminal = .closer bracket) : machine.feed token = none := by
  obtain ⟨items, progress, frames⟩ := machine
  cases closed
  cases idle
  simp only [feed, feedOuter, feedItem, closer]

-- Alike machines read the same token, if they can take it.
theorem lexeme?_alike (alike : Alike machine other)
    (read : Lexer.lexeme? machine.expected cursor.before cursor.rest = some lexed)
    (taken : ∀ terminal size, lexed = .token terminal size →
      machine.feed (cursor.token terminal size) ≠ none) :
    Lexer.lexeme? other.expected cursor.before cursor.rest = some lexed := by
  rcases expected_alike alike with same | ⟨closed, otherClosed, afterNode, otherAfterNode, idle, otherIdle⟩
  · rw [← same]
    exact read
  · have closers := Lexer.lexeme?_closers cursor.before cursor.rest
    have stuck : ∀ bracket size, lexed ≠ .token (.closer bracket) size := by
      rintro bracket size rfl
      exact taken _ _ rfl (feed_closer closed idle rfl)
    simp only [expected, closed, otherClosed, idle, otherIdle, Progress.expected] at read ⊢
    rcases closers with same | ⟨unread, bracket, size, closer⟩
    · cases afterNode <;> cases otherAfterNode
      · exact read
      · exact same.trans read
      · exact same.symm.trans read
      · exact read
    · cases afterNode
      · exact absurd (read.symm.trans unread) nofun
      · exact absurd (Option.some.inj (read.symm.trans closer)) (stuck bracket size)

end Machine

theorem rest_shorter (enough : cursor.rest.length ≤ fuel + 1) (passes : 0 < size) :
    (cursor.advance size).rest.length ≤ fuel := by
  rw [Cursor.rest_advance, List.length_drop]
  omega

theorem parseFrom_skipped (remains : cursor.rest ≠ [])
    (read : Lexer.lexeme? machine.expected cursor.before cursor.rest = some (.skipped size)) :
    parseFrom (fuel + 1) machine cursor previous = parseFrom fuel machine (cursor.advance size) previous := by
  rw [parseFrom]
  split
  · rename_i ended
    exact absurd ended remains
  · rw [read]

theorem parseFrom_token (remains : cursor.rest ≠ [])
    (read : Lexer.lexeme? machine.expected cursor.before cursor.rest = some (.token terminal size))
    (fed : machine.feed (cursor.token terminal size) = some next) :
    parseFrom (fuel + 1) machine cursor previous
      = parseFrom fuel next (cursor.advance size) (some (cursor.token terminal size)) := by
  rw [parseFrom]
  split
  · rename_i ended
    exact absurd ended remains
  · rw [read]
    simp only [fed]

theorem parseFrom_refused (remains : cursor.rest ≠ [])
    (read : Lexer.lexeme? machine.expected cursor.before cursor.rest = some (.token terminal size))
    (refused : machine.feed (cursor.token terminal size) = none) :
    ∃ fault, parseFrom fuel machine cursor previous = .error fault := by
  obtain ⟨first, tail, parts⟩ := List.exists_cons_of_ne_nil remains
  rw [parts] at read
  rw [parseFrom.eq_def]
  simp only [parts, read]
  cases fuel with
  | zero => exact ⟨_, rfl⟩
  | succ fuel =>
    simp only [refused]
    exact ⟨_, rfl⟩

theorem parseFrom_unread (remains : cursor.rest ≠ [])
    (unread : Lexer.lexeme? machine.expected cursor.before cursor.rest = none) :
    ∃ fault, parseFrom fuel machine cursor previous = .error fault := by
  obtain ⟨first, tail, parts⟩ := List.exists_cons_of_ne_nil remains
  rw [parts] at unread
  rw [parseFrom.eq_def]
  simp only [parts, unread]
  exact ⟨_, rfl⟩

theorem not_accepts_error (stops : ∃ fault, parseFrom fuel machine cursor previous = .error fault) :
    ¬ Accepts fuel machine cursor previous := by
  obtain ⟨fault, stopped⟩ := stops
  rintro ⟨parsed, accepted, _⟩
  rw [stopped] at accepted
  cases accepted

theorem advance_alike (same : cursor.rest = otherCursor.rest)
    (recalls : Lexer.Recalls cursor.before otherCursor.before cursor.rest)
    (enough : cursor.rest.length ≤ fuel) (passes : 0 < size) (remains : otherCursor.rest ≠ []) :
    ∃ less, fuel = less + 1 ∧ (cursor.advance size).rest = (otherCursor.advance size).rest ∧
      Lexer.Recalls (cursor.advance size).before (otherCursor.advance size).before
        (cursor.advance size).rest ∧ (cursor.advance size).rest.length ≤ less := by
  have positive := List.length_pos_iff.mpr remains
  rw [same] at enough
  refine ⟨fuel - 1, by omega, ?_, ?_, ?_⟩
  · rw [Cursor.rest_advance, Cursor.rest_advance, same]
  · rw [Cursor.before_advance, Cursor.before_advance, Cursor.rest_advance, ← same]
    exact recalls.advance passes (same ▸ remains)
  · rw [Cursor.rest_advance, List.length_drop, same]
    omega

-- The parser comes to the end from alike machines in front of the same text, or from neither.
theorem accepts_alike (alike : machine.Alike other) (same : cursor.rest = otherCursor.rest)
    (recalls : Lexer.Recalls cursor.before otherCursor.before cursor.rest)
    (enough : cursor.rest.length ≤ otherFuel) (accepts : Accepts fuel machine cursor previous) :
    Accepts otherFuel other otherCursor otherPrevious := by
  obtain ⟨parsed, accepted, code⟩ := accepts
  fun_induction parseFrom fuel machine cursor previous
    generalizing other otherCursor otherFuel otherPrevious with
  | case1 fuel machine cursor previous ended module ending =>
    obtain ⟨otherParsed, otherEnding, otherCode⟩ := Machine.result?_alike alike ending
    refine ⟨otherParsed, ?_, otherCode⟩
    rw [parseFrom.eq_def]
    simp only [← same, ended, otherEnding]
  | case2 | case3 | case4 | case7 => cases accepted
  | case5 machine cursor previous first tail remaining size fuel read =>
    rename_i ih
    have read' := Machine.lexeme?_alike alike read fun _ _ taken => by cases taken
    rw [recalls.lexeme?, same] at read'
    have remains : otherCursor.rest ≠ [] := by simp [← same, remaining]
    obtain ⟨less, rfl, moved, recalls', enough'⟩ :=
      advance_alike same recalls enough (Lexer.lexeme?_skipped_pos read) remains
    rw [Accepts, parseFrom_skipped remains read']
    exact ih alike moved recalls' enough' accepted
  | case6 machine cursor previous first tail remaining terminal size fuel read token next fed =>
    rename_i ih
    have read' := Machine.lexeme?_alike alike read fun _ _ taken => by
      cases taken
      rw [fed]
      exact Option.some_ne_none _
    rw [recalls.lexeme?, same] at read'
    have remains : otherCursor.rest ≠ [] := by simp [← same, remaining]
    obtain ⟨less, rfl, moved, recalls', enough'⟩ :=
      advance_alike same recalls enough (Lexer.lexeme?_token_pos read) remains
    have follow : Machine.Follow (machine.feed token) (other.feed (otherCursor.token terminal size)) :=
      Machine.feed_alike alike rfl
    rw [fed] at follow
    cases fed' : other.feed (otherCursor.token terminal size) with
    | none =>
      rw [fed'] at follow
      cases follow
    | some otherNext =>
      rw [fed'] at follow
      rw [Accepts, parseFrom_token remains read' fed']
      rcases follow with alike' | ⟨declared, _⟩
      · exact ih alike' moved recalls' enough' accepted
      · exact absurd ⟨parsed, accepted, code⟩
          (not_accepts_declared (Machine.feed_tokens alike.ready fed).2 declared)

end Syntax
end ModuleBundler
