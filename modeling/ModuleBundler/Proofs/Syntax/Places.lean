import ModuleBundler.Proofs.Syntax.Gaps
import ModuleBundler.Proofs.Syntax.Nested

/-!
The places in a text that the parser comes to and the tokens that are read there, whether the text is
accepted in the end or not.
-/
namespace ModuleBundler.Syntax

inductive Comes (text : Text) : Machine → Cursor → Prop where
  | start : Comes text {} (Cursor.start text)
  | skip (comes : Comes text machine cursor)
      (read : Lexer.lexeme? machine.expected cursor.before cursor.rest = some (.skipped size)) :
      Comes text machine (cursor.advance size)
  | take (comes : Comes text machine cursor)
      (read : Lexer.lexeme? machine.expected cursor.before cursor.rest = some (.token terminal size))
      (fed : machine.feed (cursor.token terminal size) = some next) : Comes text next (cursor.advance size)

-- The tokens that are read on the way. Where nothing expected can be read, the token that a fault names is
-- read among all terminals.
inductive Lexes (text : Text) : Token → Prop where
  | expected (comes : Comes text machine cursor)
      (read : Lexer.lexeme? machine.expected cursor.before cursor.rest = some (.token terminal size)) :
      Lexes text (cursor.token terminal size)
  | fault (comes : Comes text machine cursor)
      (unread : Lexer.lexeme? machine.expected cursor.before cursor.rest = none)
      (read : Lexer.lexeme? Terminal.all cursor.before cursor.rest = some (.token terminal size)) :
      Lexes text (cursor.token terminal size)

-- The last token of a text that is read to its end.
def Ends (text : Text) (last : Token) : Prop :=
  ∃ machine cursor, Comes text machine cursor ∧ cursor.rest = [] ∧ machine.tokens.getLast? = some last

-- How a text comes to be refused.
inductive Stops (text : Text) : SyntaxFault → Prop where
  | strange (comes : Comes text machine cursor) (remaining : cursor.rest = first :: tail)
      (unread : Lexer.lexeme? machine.expected cursor.before cursor.rest = none) :
      Stops text (.character first cursor.line cursor.column)
  | misplaced (lexes : Lexes text token) : Stops text (.token token named)
  | early (ends : Ends text last) : Stops text (.ending last.line last.column)

variable {text : Text} {machine : Machine} {cursor : Cursor} {token : Token} {fault : SyntaxFault}

theorem Comes.within (comes : Comes text machine cursor) : Cursor.Within text cursor := by
  induction comes with
  | start => exact Cursor.start_within text
  | skip _ _ ih | take _ _ _ ih => exact ih.advance _

theorem Comes.ready (comes : Comes text machine cursor) : machine.Ready := by
  induction comes with
  | start => exact Machine.ready_closed rfl
  | skip _ _ ih => exact ih
  | take _ _ fed ih => exact (Machine.feed_tokens ih fed).2

theorem remains (read : Lexer.lexeme? expected cursor.before cursor.rest = some lexed) : cursor.rest ≠ [] := by
  intro ended
  rw [ended, Lexer.lexeme?_nil] at read
  cases read

-- At each of these places the parser goes on with what is left of the text.
theorem Comes.parse (comes : Comes text machine cursor) :
    ∃ fuel previous, cursor.rest.length ≤ fuel ∧ Syntax.parse text = parseFrom fuel machine cursor previous := by
  induction comes with
  | start => exact ⟨text.length, none, Nat.le_refl _, rfl⟩
  | @skip machine cursor size comes read ih =>
    obtain ⟨fuel, previous, enough, goes⟩ := ih
    have positive := List.length_pos_iff.mpr (remains read)
    obtain ⟨fuel, rfl⟩ := Nat.exists_eq_succ_of_ne_zero (Nat.ne_of_gt (Nat.lt_of_lt_of_le positive enough))
    exact ⟨fuel, previous, rest_shorter enough (Lexer.lexeme?_skipped_pos read),
      goes.trans (parseFrom_skipped (remains read) read)⟩
  | @take machine cursor terminal size next comes read fed ih =>
    obtain ⟨fuel, previous, enough, goes⟩ := ih
    have positive := List.length_pos_iff.mpr (remains read)
    obtain ⟨fuel, rfl⟩ := Nat.exists_eq_succ_of_ne_zero (Nat.ne_of_gt (Nat.lt_of_lt_of_le positive enough))
    exact ⟨fuel, _, rest_shorter enough (Lexer.lexeme?_token_pos read),
      goes.trans (parseFrom_token (remains read) read fed)⟩

theorem Comes.lexes (comes : Comes text machine cursor) : ∀ token ∈ machine.tokens, Lexes text token := by
  induction comes with
  | start => exact nofun
  | skip _ _ ih => exact ih
  | take comes read fed ih =>
    rw [(Machine.feed_tokens comes.ready fed).1]
    intro token among
    rcases List.mem_append.mp among with earlier | here
    · exact ih token earlier
    · exact List.mem_singleton.mp here ▸ .expected comes read

theorem parseFrom_lexes (comes : Comes text machine cursor)
    (accepted : parseFrom fuel machine cursor previous = .ok parsed) :
    ∀ token ∈ parsed.items.flatMap Item.tokens, Lexes text token := by
  fun_induction parseFrom fuel machine cursor previous with
  | case1 fuel machine cursor previous ended module ending =>
    cases accepted
    rw [Machine.result?_tokens ending]
    exact comes.lexes
  | case2 | case3 | case4 | case7 => cases accepted
  | case5 machine cursor previous first tail remaining size fuel read ih => exact ih (comes.skip read) accepted
  | case6 machine cursor previous first tail remaining terminal size fuel read token next fed ih =>
    exact ih (comes.take read fed) accepted

-- Without a token nothing has been begun.
theorem Comes.begins (comes : Comes text machine cursor) : machine = {} ∨ machine.tokens ≠ [] := by
  induction comes with
  | start => exact .inl rfl
  | skip _ _ ih => exact ih
  | take comes _ fed ih =>
    rw [(Machine.feed_tokens comes.ready fed).1]
    exact .inr (by simp)

theorem Ends.lexes (ends : Ends text token) : Lexes text token := by
  obtain ⟨machine, cursor, comes, _, last⟩ := ends
  exact comes.lexes token (List.mem_of_getLast? last)

theorem parseFrom_stops (comes : Comes text machine cursor) (latest : previous = machine.tokens.getLast?)
    (enough : cursor.rest.length ≤ fuel) (refused : parseFrom fuel machine cursor previous = .error fault) :
    Stops text fault := by
  fun_induction parseFrom fuel machine cursor previous with
  | case1 => cases refused
  | case2 fuel machine cursor previous ended unfinished =>
    cases refused
    rcases comes.begins with rfl | some_
    · cases unfinished
    · have last := List.getLast?_eq_some_getLast some_
      rw [latest, last]
      exact .early ⟨machine, cursor, comes, ended, last⟩
  | case3 fuel machine cursor previous first tail remaining unread =>
    cases refused
    unfold faultAt
    split
    · rename_i read
      exact .misplaced (.fault comes unread read)
    · exact .strange comes remaining unread
  | case4 machine cursor previous first tail remaining =>
    rw [remaining] at enough
    cases enough
  | case5 machine cursor previous first tail remaining size fuel read ih =>
    exact ih (comes.skip read) latest (rest_shorter enough (Lexer.lexeme?_skipped_pos read)) refused
  | case6 machine cursor previous first tail remaining terminal size fuel read token next fed ih =>
    refine ih (comes.take read fed) ?_ (rest_shorter enough (Lexer.lexeme?_token_pos read)) refused
    rw [(Machine.feed_tokens comes.ready fed).1, List.getLast?_concat]
  | case7 machine cursor previous first tail remaining terminal size fuel read token unfed =>
    cases refused
    exact .misplaced (.expected comes read)

theorem parse_stops (refused : parse text = .error fault) : Stops text fault :=
  parseFrom_stops .start rfl (Nat.le_refl _) refused

-- The tokens of an accepted text are read on the way, and so is the token at which a text is refused.
theorem parse_lexes (text : Text) :
    (∀ parsed, parse text = .ok parsed → ∀ token ∈ parsed.items.flatMap Item.tokens, Lexes text token) ∧
    ∀ token named, parse text = .error (.token token named) → Lexes text token := by
  refine ⟨fun parsed accepted => parseFrom_lexes .start accepted, fun token named refused => ?_⟩
  cases parse_stops refused with
  | misplaced lexes => exact lexes

theorem Comes.tokens (comes : Comes text machine cursor) (accepted : Syntax.parse text = .ok parsed) :
    machine.tokens ⊆ parsed.items.flatMap Item.tokens := by
  obtain ⟨fuel, previous, _, goes⟩ := comes.parse
  obtain ⟨tokens, all, _⟩ := parseFrom_spaced comes.within comes.ready (goes.symm.trans accepted)
  rw [all]
  exact List.subset_append_left _ _

-- Of an accepted text no other tokens are read.
theorem Lexes.taken (lexes : Lexes text token) (accepted : parse text = .ok parsed) :
    token ∈ parsed.items.flatMap Item.tokens := by
  cases lexes with
  | @expected machine cursor terminal size comes read =>
    obtain ⟨fuel, previous, _, goes⟩ := comes.parse
    cases fed : machine.feed (cursor.token terminal size) with
    | none =>
      obtain ⟨fault, stops⟩ : ∃ fault, parseFrom fuel machine cursor previous = .error fault :=
        parseFrom_refused (remains read) read fed
      rw [goes, stops] at accepted
      cases accepted
    | some next =>
      refine (comes.take read fed).tokens accepted ?_
      rw [(Machine.feed_tokens comes.ready fed).1]
      exact List.mem_append_right _ List.mem_cons_self
  | @fault machine cursor terminal size comes unread read =>
    obtain ⟨fuel, previous, _, goes⟩ := comes.parse
    obtain ⟨fault, stops⟩ : ∃ fault, parseFrom fuel machine cursor previous = .error fault :=
      parseFrom_unread (remains read) unread
    rw [goes, stops] at accepted
    cases accepted

end ModuleBundler.Syntax
