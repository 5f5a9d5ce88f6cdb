import ModuleBundler.Proofs.Masking.Slashes
import ModuleBundler.Proofs.Syntax.Faults

/-!
An accepted text is its tokens, each of them where it says that it is, and what is passed over between them:
blanks, comments, and an interpreter line at the very start.
-/
namespace ModuleBundler

namespace Lexeme

-- Text that is passed over in front of what stands behind it, at the start of a whole text or further on. Up to
-- the end of its line a comment goes on to a line break or to the end of the text.
inductive Ignored : Bool → Text → Text → Prop where
  | nil : Ignored atStart [] behind
  | blank (isBlank : Text.isBlank c = true) (later : Ignored false gap behind) : Ignored atStart (c :: gap) behind
  | line (unbroken : '\n' ∉ body) (stops : ∀ c, (gap ++ behind).head? = some c → c = '\n')
      (later : Ignored false gap behind) : Ignored atStart ('/' :: '/' :: (body ++ gap)) behind
  | block (closed : blockCommentRest? body = some body.length) (later : Ignored false gap behind) :
      Ignored atStart ('/' :: '*' :: (body ++ gap)) behind
  | hashbang (unbroken : '\n' ∉ body) (stops : ∀ c, (gap ++ behind).head? = some c → c = '\n')
      (later : Ignored false gap behind) : Ignored true ('#' :: '!' :: (body ++ gap)) behind

variable {atStart : Bool} {text gap behind rest : Text}

theorem Ignored.from_start (passed : Ignored false gap behind) : Ignored atStart gap behind := by
  cases passed with
  | nil => exact .nil
  | blank isBlank later => exact .blank isBlank later
  | line unbroken stops later => exact .line unbroken stops later
  | block closed later => exact .block closed later

theorem Ignored.blanks (blanks : ∀ c ∈ text, Text.isBlank c = true) (later : Ignored false gap behind) :
    Ignored atStart (text ++ gap) behind := by
  induction text generalizing atStart with
  | nil => exact later.from_start
  | cons c text ih =>
    obtain ⟨own, others⟩ := List.forall_mem_cons.mp blanks
    exact .blank own (ih others)

end Lexeme

namespace Lexer
open Lexeme
variable {before rest gap behind : Text}

theorem ignored?_ignored (read : ignored? before rest = some size) (parts : rest.drop size = gap ++ behind)
    (later : Ignored false gap behind) : Ignored before.isEmpty (rest.take size ++ gap) behind := by
  obtain blanks | comment | ⟨rfl, hashbang⟩ := ignored?_cases read
  · have within := run_within Text.isBlank rest
    rw [run1?_run blanks] at within
    exact .blanks within later
  · obtain ⟨body, rfl, rfl⟩ | ⟨body, inner, rfl, readInner, rfl⟩ := comment?_cases comment
    · obtain ⟨unbroken, stops⟩ := line_stops body
      rw [List.drop_succ_cons, List.drop_succ_cons] at parts
      exact .line unbroken (parts ▸ stops) later
    · exact .block (blockCommentRest?_whole readInner) later
  · obtain ⟨body, rfl, rfl⟩ := hashbang?_cases hashbang
    obtain ⟨unbroken, stops⟩ := line_stops body
    rw [List.drop_succ_cons, List.drop_succ_cons] at parts
    exact .hashbang unbroken (parts ▸ stops) later

end Lexer

namespace Syntax
open Lexeme

-- A text from some place on: tokens, and in front of each of them and behind the last one what is passed over.
def Interleaved (text : Text) (low : Nat) : List Token → Prop
  | [] => Ignored (low == 0) (text.drop low) []
  | token :: tokens =>
    low ≤ token.start ∧ Ignored (low == 0) (text.between low token.start) (text.drop token.start) ∧
      Interleaved text token.stop tokens

variable {text : Text} {machine : Machine} {cursor : Cursor} {tokens : List Token}

theorem Interleaved.skip (within : Cursor.Within text cursor) (remains : cursor.rest ≠ [])
    (read : Lexer.ignored? cursor.before cursor.rest = some size)
    (apart : Interleaved text (cursor.advance size).offset tokens) : Interleaved text cursor.offset tokens := by
  have moved := within.offset_advance size
  have positive : 0 < (cursor.rest.take size).length := by
    rw [List.length_take]
    exact Nat.lt_min.mpr ⟨Lexer.ignored?_pos read, List.length_pos_iff.mpr remains⟩
  have later : ((cursor.advance size).offset == 0) = false := by
    rw [beq_eq_false_iff_ne]
    omega
  have atStart : cursor.before.isEmpty = (cursor.offset == 0) := by
    rw [within.offset]
    cases cursor.before with
    | nil => rfl
    | cons => rfl
  have rest : cursor.rest.drop size = text.drop (cursor.advance size).offset := by
    rw [← Cursor.rest_advance, (within.advance size).rest]
  have skipped : cursor.rest.take size = text.between cursor.offset (cursor.advance size).offset := by
    rw [Text.between, ← within.rest, moved, Nat.add_sub_cancel_left, List.length_take, List.take_eq_take_iff]
    omega
  cases tokens with
  | nil =>
    rw [Interleaved, later] at apart
    have whole := Lexer.ignored?_ignored read (rest.trans (List.append_nil _).symm) apart
    rwa [atStart, ← rest, List.take_append_drop, within.rest] at whole
  | cons token tokens =>
    obtain ⟨after, gap, behind⟩ := apart
    rw [later] at gap
    have passed : cursor.offset ≤ (cursor.advance size).offset := by omega
    have whole := Lexer.ignored?_ignored read (rest.trans (Text.drop_between text after)) gap
    rw [atStart, skipped, Text.between_append text passed after] at whole
    exact ⟨Nat.le_trans passed after, whole, behind⟩

-- Every step of the parser takes a token where it stands or passes over something in front of the next one.
theorem parseFrom_interleaved (within : Cursor.Within text cursor) (ready : machine.Ready)
    (accepted : parseFrom fuel machine cursor previous = .ok parsed) :
    ∃ tokens, parsed.items.flatMap Item.tokens = machine.tokens ++ tokens ∧
      Interleaved text cursor.offset tokens := by
  fun_induction parseFrom fuel machine cursor previous with
  | case1 fuel machine cursor previous ended module ending =>
    cases accepted
    refine ⟨[], by rw [Machine.result?_tokens ending, List.append_nil], ?_⟩
    rw [Interleaved, ← within.rest, ended]
    exact .nil
  | case2 | case3 | case4 | case7 => cases accepted
  | case5 machine cursor previous first tail remaining size fuel read ih =>
    obtain ⟨tokens, all, apart⟩ := ih (within.advance size) ready accepted
    exact ⟨tokens, all, .skip within (by simp [remaining]) (Lexer.lexeme?_skipped read) apart⟩
  | case6 machine cursor previous first tail remaining terminal size fuel read token next fed ih =>
    obtain ⟨taken, ready'⟩ := Machine.feed_tokens ready fed
    obtain ⟨tokens, all, apart⟩ := ih (within.advance size) ready' accepted
    refine ⟨token :: tokens, by rw [all, taken, List.append_assoc, List.singleton_append],
      Nat.le_refl cursor.offset, ?_, ?_⟩
    · exact (Text.between_self text cursor.offset).symm ▸ .nil
    · rwa [within.stop_token]

theorem outline_tokens (parsed : Module) : parsed.outline.tokens = parsed.items.flatMap Item.tokens := by
  rw [Module.outline, Outline.tokens, List.flatMap_map]
  rfl

-- The leaves of the tree in order are the text, cut where they say, with nothing else between them than what
-- is passed over.
theorem parse_lossless (accepted : parse text = .ok parsed) :
    Span.Ordered 0 text.length (parsed.outline.tokens.map Token.span) ∧
      (∀ token ∈ parsed.outline.tokens, token.text = text.between token.start token.stop ∧ token.Placed text) ∧
      Interleaved text 0 parsed.outline.tokens := by
  rw [outline_tokens]
  have laid := parse_laid accepted
  refine ⟨laid.ordered, ?_, ?_⟩
  · intro token among
    refine ⟨?_, ((parse_lexes text).1 parsed accepted token among).placed⟩
    rw [Text.between, Token.stop, Nat.add_sub_cancel_left]
    exact (laid.cut token among).slice
  · obtain ⟨tokens, all, apart⟩ :=
      parseFrom_interleaved (Cursor.start_within text) (Machine.ready_closed rfl) accepted
    exact all ▸ apart

-- An interpreter line, a token over two lines, and comments of both kinds, one of them up to the end of the text.
def interpreterText : Text := "#!x\n\x60\n\x60.a//b\nimport/*c*/'./d'//e".toList

def interpreterModule : Module :=
  ⟨[.node (.leaf ⟨.leaf .template, "\x60\n\x60".toList, 4, 2, 1⟩), .node (.leaf ⟨.leaf .member,
    ".a".toList, 7, 3, 2⟩),
    .importBare ⟨.keyword .import_, "import".toList, 13, 4, 1⟩ ⟨.leaf .string, "'./d'".toList, 24, 4, 12⟩]⟩

theorem interpreterText_lossless : parse interpreterText = .ok interpreterModule ∧
    (∀ token ∈ interpreterModule.outline.tokens, token.Placed interpreterText) ∧
    Interleaved interpreterText 0 interpreterModule.outline.tokens := by
  have accepted : parse interpreterText = .ok interpreterModule := rfl
  obtain ⟨_, placed, interleaved⟩ := parse_lossless accepted
  exact ⟨accepted, fun token among => (placed token among).2, interleaved⟩

end Syntax
end ModuleBundler
