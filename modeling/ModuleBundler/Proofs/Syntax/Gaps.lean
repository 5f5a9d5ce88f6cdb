import Mathlib.Data.List.Basic
import ModuleBundler.Proofs.Masking.Cut
import ModuleBundler.Proofs.Syntax.Tokens

/-!
What stands between two tokens of a parsed text that follow each other: blanks and whole comments,
and nothing else.
-/
namespace ModuleBundler

namespace Text

-- The part of a text between two places.
def between (text : Text) (low high : Nat) : Text := (text.drop low).take (high - low)

@[simp] theorem between_self (text : Text) (low : Nat) : text.between low low = [] := by
  simp [between]

theorem length_between (text : Text) (inside : high ≤ text.length) :
    (text.between low high).length = high - low := by
  rw [between, List.length_take, List.length_drop]
  omega

theorem between_append (text : Text) (first : low ≤ middle) (second : middle ≤ high) :
    text.between low middle ++ text.between middle high = text.between low high := by
  obtain ⟨front, rfl⟩ := Nat.exists_eq_add_of_le first
  obtain ⟨back, rfl⟩ := Nat.exists_eq_add_of_le second
  rw [between, between, between, Nat.add_sub_cancel_left, Nat.add_sub_cancel_left, Nat.add_assoc,
    Nat.add_sub_cancel_left, List.take_add, List.drop_drop]

theorem drop_between (text : Text) (ordered : low ≤ high) :
    text.drop low = text.between low high ++ text.drop high := by
  obtain ⟨size, rfl⟩ := Nat.exists_eq_add_of_le ordered
  rw [between, Nat.add_sub_cancel_left, ← List.drop_drop, List.take_append_drop]

end Text

namespace Lexeme

-- Text that is passed over between two tokens: blanks and whole comments.
inductive Gap : Text → Prop where
  | nil : Gap []
  | blank : Text.isBlank c = true → Gap rest → Gap (c :: rest)
  | line : '\n' ∉ body → Gap rest → Gap ('/' :: '/' :: (body ++ '\n' :: rest))
  | block : blockCommentRest? body = some body.length → Gap rest → Gap ('/' :: '*' :: (body ++ rest))

variable {text front gap more rest : Text}

theorem Gap.append (first : Gap front) (second : Gap more) : Gap (front ++ more) := by
  induction first with
  | nil => exact second
  | blank isBlank _ ih => exact .blank isBlank ih
  | line unbroken _ ih => simpa using Gap.line unbroken ih
  | block closed _ ih => simpa using Gap.block closed ih

theorem Gap.blanks (blanks : ∀ c ∈ text, Text.isBlank c = true) : Gap text := by
  induction text with
  | nil => exact .nil
  | cons c rest ih =>
    exact .blank (blanks c List.mem_cons_self) (ih fun d later => blanks d (List.mem_cons_of_mem _ later))

theorem Gap.behind_blank (gap : Gap (c :: rest)) (isBlank : Text.isBlank c = true) : Gap rest := by
  cases gap with
  | blank _ later => exact later
  | line | block => exact absurd isBlank (by decide)

theorem Gap.behind_line (gap : Gap ('/' :: '/' :: (body ++ '\n' :: rest))) (unbroken : '\n' ∉ body) :
    Gap rest := by
  generalize shown : '/' :: '/' :: (body ++ '\n' :: rest) = text at gap
  cases gap with
  | nil | block => cases shown
  | blank isBlank _ =>
    cases shown
    exact absurd isBlank (by decide)
  | @line other after otherUnbroken later =>
    simp only [List.cons.injEq, true_and] at shown
    have size : ∀ {line : Text}, '\n' ∉ line → ∀ behind,
        run (· != '\n') (line ++ '\n' :: behind) = line.length := by
      intro line unbroken behind
      rw [run_append_apart _ _ (by simp)]
      refine run_all fun c member => bne_iff_ne.mpr ?_
      rintro rfl
      exact unbroken member
    have same := size unbroken rest
    rw [shown, size otherUnbroken after] at same
    exact List.cons.inj (List.append_inj shown same.symm).2 |>.2 ▸ later

theorem Gap.behind_block (gap : Gap ('/' :: '*' :: (body ++ rest)))
    (closed : blockCommentRest? body = some body.length) : Gap rest := by
  generalize shown : '/' :: '*' :: (body ++ rest) = text at gap
  cases gap with
  | nil | line => cases shown
  | blank isBlank _ =>
    cases shown
    exact absurd isBlank (by decide)
  | @block other later otherClosed after =>
    simp only [List.cons.injEq, true_and] at shown
    have size := blockCommentRest?_append rest closed
    rw [shown, blockCommentRest?_append later otherClosed, Option.some.injEq] at size
    exact (List.append_inj shown size.symm).2 ▸ after

-- There is one way only to pass over a text.
theorem Gap.behind (first : Gap front) (whole : Gap (front ++ more)) : Gap more := by
  induction first with
  | nil => exact whole
  | blank isBlank _ ih => exact ih (whole.behind_blank isBlank)
  | line unbroken _ ih =>
    rw [List.cons_append, List.cons_append, List.append_assoc, List.cons_append] at whole
    exact ih (whole.behind_line unbroken)
  | block closed _ ih =>
    rw [List.cons_append, List.cons_append, List.append_assoc] at whole
    exact ih (whole.behind_block closed)

-- A semicolon stands in a text, in front of which there is nothing but blanks and comments.
def Parted (text : Text) : Prop := ∃ front back, Gap front ∧ text = front ++ ';' :: back

theorem Gap.not_parted (gap : Gap text) : ¬ Parted text := by
  rintro ⟨front, back, before, rfl⟩
  cases before.behind gap with
  | blank isBlank _ => exact absurd isBlank (by decide)

theorem blockCommentRest?_take (read : blockCommentRest? text = some size) :
    blockCommentRest? (text.take size) = some size := by
  fun_induction blockCommentRest? text generalizing size with
  | case1 =>
    cases read
    rfl
  | case2 c rest other ih =>
    obtain ⟨inner, readInner, rfl⟩ := Option.map_eq_some_iff.mp read
    have other' : ∀ later, c = '*' → rest.take inner = '/' :: later → False := by
      intro later star slash
      cases rest with
      | nil => cases readInner
      | cons d later' =>
        cases inner with
        | zero => cases slash
        | succ inner =>
          rw [List.take_succ_cons, List.cons.injEq] at slash
          exact other later' star (by rw [slash.1])
    rw [List.take_succ_cons, blockCommentRest?.eq_2 _ _ other', ih readInner]
    rfl
  | case3 => cases read

theorem blockCommentRest?_whole (read : blockCommentRest? text = some size) :
    blockCommentRest? (text.take size) = some (text.take size).length := by
  rw [blockCommentRest?_take read, List.length_take, Nat.min_eq_left (blockCommentRest?_bounds read).1]

end Lexeme

namespace Lexer
variable {before rest gap more : Text}

-- Text that is passed over belongs to the gap that goes on behind it. The line break that a line
-- comment needs stands in that gap, because no token begins with one.
theorem ignored?_gap (read : ignored? before rest = some size) (inside : before ≠ [])
    (later : Lexeme.Gap gap) (behind : rest.drop size = gap ++ c :: more) (visible : c ≠ '\n') :
    Lexeme.Gap (rest.take size ++ gap) := by
  obtain blanks | comment | ⟨start, _⟩ := ignored?_cases read
  · have within := Lexeme.run_within Text.isBlank rest
    rw [Lexeme.run1?_run blanks] at within
    exact .append (.blanks within) later
  · obtain ⟨body, rfl, rfl⟩ | ⟨body, inner, rfl, readInner, rfl⟩ := Lexeme.comment?_cases comment
    · obtain ⟨unbroken, stops⟩ := Lexeme.line_stops body
      rw [List.drop_succ_cons, List.drop_succ_cons] at behind
      rw [behind] at stops
      cases gap with
      | nil => exact absurd (stops c rfl) visible
      | cons d gap =>
        cases stops d rfl
        exact .line unbroken (later.behind_blank (by decide))
    · exact .block (Lexeme.blockCommentRest?_whole readInner) later
  · exact absurd start inside

-- Blanks are passed over, whatever is expected.
theorem lexeme?_blank (expected : List Terminal) (before rest : Text) (blank : Text.isBlank c = true) :
    ∃ size, lexeme? expected before (c :: rest) = some (.skipped size) := by
  have slash : c ≠ '/' := by
    rintro rfl
    exact absurd blank (by decide)
  have regex : leaf? expected before (c :: rest) .regex = none := by
    simp [leaf?, leafSize?, regex?, Lexeme.regex?, Lexeme.regexBody?, slash]
  have skipped : ignored? before (c :: rest) = some (Lexeme.run Text.isBlank rest + 1) := by
    simp [ignored?, Lexeme.blanks?, Lexeme.run1?, Lexeme.run, blank]
  exact ⟨_, by rw [lexeme?, regex, skipped]; rfl⟩

theorem lexeme?_token_head (read : lexeme? expected before (c :: rest) = some (.token terminal size)) :
    Text.isBlank c = false := by
  cases blank : Text.isBlank c with
  | false => rfl
  | true =>
    obtain ⟨size, skipped⟩ := lexeme?_blank expected before rest blank
    rw [skipped] at read
    cases read

end Lexer

namespace Syntax

-- Tokens that follow each other from a place in a text on. Where something has been passed before,
-- only gaps are left out between them; the start of a text may be an interpreter line.
inductive Spaced (text : Text) : Nat → List Token → Prop where
  | nil : Spaced text low []
  | cons (after : low ≤ token.start) (gap : 0 < low → Lexeme.Gap (text.between low token.start))
    (visible : ∃ c more, text.drop token.start = c :: more ∧ c ≠ '\n')
    (behind : Spaced text token.stop tokens) : Spaced text low (token :: tokens)

variable {text : Text} {machine : Machine} {tokens others : List Token}

theorem Spaced.skip (within : Cursor.Within text cursor)
    (read : Lexer.ignored? cursor.before cursor.rest = some size)
    (apart : Spaced text (cursor.advance size).offset tokens) : Spaced text cursor.offset tokens := by
  cases apart with
  | nil => exact .nil
  | @cons _ _ token after gap visible behind =>
    have moved := within.offset_advance size
    have passed : cursor.offset ≤ (cursor.advance size).offset := by omega
    refine .cons (Nat.le_trans passed after) ?_ visible behind
    intro positive
    obtain ⟨c, more, stands, plain⟩ := visible
    have inside : cursor.before ≠ [] := by
      intro empty
      rw [within.offset, empty] at positive
      exact absurd positive (Nat.lt_irrefl 0)
    have rest : cursor.rest.drop size
        = text.between (cursor.advance size).offset token.start ++ c :: more := by
      rw [← Cursor.rest_advance, (within.advance size).rest, ← stands]
      exact Text.drop_between text after
    have skipped : cursor.rest.take size = text.between cursor.offset (cursor.advance size).offset := by
      rw [Text.between, ← within.rest, moved, Nat.add_sub_cancel_left, List.length_take,
        List.take_eq_take_iff]
      omega
    have whole := Lexer.ignored?_gap read inside (gap (by omega)) rest plain
    rwa [skipped, Text.between_append text passed after] at whole

-- Every step of the parser takes a token where it stands, or lengthens the gap in front of the next.
theorem parseFrom_spaced (within : Cursor.Within text cursor) (ready : machine.Ready)
    (accepted : parseFrom fuel machine cursor previous = .ok parsed) :
    ∃ tokens, parsed.items.flatMap Item.tokens = machine.tokens ++ tokens ∧
      Spaced text cursor.offset tokens := by
  fun_induction parseFrom fuel machine cursor previous with
  | case1 fuel machine cursor previous ended module ending =>
    cases accepted
    exact ⟨[], by rw [Machine.result?_tokens ending, List.append_nil], .nil⟩
  | case2 | case3 | case4 | case7 => cases accepted
  | case5 machine cursor previous first tail remaining size fuel read ih =>
    obtain ⟨tokens, all, apart⟩ := ih (within.advance size) ready accepted
    exact ⟨tokens, all, .skip within (Lexer.lexeme?_skipped read) apart⟩
  | case6 machine cursor previous first tail remaining terminal size fuel read token next fed ih =>
    obtain ⟨taken, ready'⟩ := Machine.feed_tokens ready fed
    obtain ⟨tokens, all, apart⟩ := ih (within.advance size) ready' accepted
    refine ⟨token :: tokens, by rw [all, taken, List.append_assoc, List.singleton_append], ?_⟩
    have visible := Lexer.lexeme?_token_head (remaining ▸ read)
    have unbroken : first ≠ '\n' := by
      rintro rfl
      exact absurd visible (by decide)
    refine .cons (Nat.le_refl cursor.offset) ?_ ⟨first, tail, ?_, unbroken⟩ ?_
    · intro _
      exact (Text.between_self text cursor.offset).symm ▸ .nil
    · exact within.rest.symm.trans remaining
    · rwa [within.stop_token]

theorem parse_spaced (accepted : parse text = .ok parsed) :
    Spaced text 0 (parsed.items.flatMap Item.tokens) := by
  obtain ⟨tokens, all, apart⟩ :=
    parseFrom_spaced (Cursor.start_within text) (Machine.ready_closed rfl) accepted
  exact all ▸ apart

-- Where tokens end that follow each other from a place on.
def reach (low : Nat) (tokens : List Token) : Nat := (tokens.getLast?.map Token.stop).getD low

@[simp] theorem reach_nil (low : Nat) : reach low [] = low := rfl

@[simp] theorem reach_cons (low : Nat) (token : Token) (tokens : List Token) :
    reach low (token :: tokens) = reach token.stop tokens := by
  unfold reach
  cases tokens with
  | nil => rfl
  | cons next tokens =>
    rw [List.getLast?_cons_cons, List.getLast?_eq_some_getLast (List.cons_ne_nil next tokens)]
    rfl

theorem reach_last (low : Nat) (ends : tokens.getLast? = some last) : reach low tokens = last.stop := by
  rw [reach, ends]
  rfl

-- The first ones of several tokens end with the last of them.
theorem Laid.split_reach (laid : Laid text low high (tokens ++ others)) :
    Laid text low (reach low tokens) tokens ∧ Laid text (reach low tokens) high others := by
  induction tokens generalizing low with
  | nil => exact ⟨⟨nofun, Nat.le_refl low⟩, laid⟩
  | cons token tokens ih =>
    obtain ⟨after, proper, ordered⟩ := laid.ordered
    obtain ⟨own, behind⟩ := ih ⟨fun member among => laid.cut member (List.mem_cons_of_mem _ among), ordered⟩
    rw [reach_cons]
    refine ⟨⟨?_, after, proper, own.ordered⟩, behind⟩
    intro member among
    exact laid.cut member (List.mem_append_left others among)

theorem Spaced.behind_reach (apart : Spaced text low (tokens ++ others)) :
    Spaced text (reach low tokens) others := by
  induction tokens generalizing low with
  | nil => exact apart
  | cons token tokens ih =>
    cases apart with
    | cons _ _ _ behind => exact reach_cons low token tokens ▸ ih behind

end Syntax
end ModuleBundler
