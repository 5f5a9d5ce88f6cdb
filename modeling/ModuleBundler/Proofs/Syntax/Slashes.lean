import ModuleBundler.Proofs.Masking.Slashes
import ModuleBundler.Proofs.Syntax.Places

/-!
What the lexer makes of the slashes that the division of a source into pieces takes for division signs.
-/
namespace ModuleBundler
open Terminal

namespace Lexer
variable {before rest : Text} {expected : List Terminal}

theorem punctuator?_slash (rest : Text) :
    Lexeme.punctuator? ('/' :: rest) = some (if rest.head? = some '=' then 2 else 1) := by
  cases rest with
  | nil => rfl
  | cons c rest =>
    by_cases equals : c = '='
    · subst equals
      rfl
    · have other : ('=' == c) = false := by simpa using Ne.symm equals
      simp [Lexeme.punctuator?, Lexeme.punctuators, Text.startsWith, List.find?, List.isPrefixOf,
        equals, other]

-- Where no comment begins a slash is a regex or an operator, or nothing where neither can stand.
theorem lexeme?_slash (uncommented : Lexeme.comment? ('/' :: rest) = none) :
    lexeme? expected before ('/' :: rest)
      = (leaf? expected before ('/' :: rest) .regex).or (leaf? expected before ('/' :: rest) .punctuator) := by
  have ignored : ignored? before ('/' :: rest) = none := by
    have blanks : Lexeme.blanks? ('/' :: rest) = none := rfl
    simp [ignored?, blanks, uncommented, Lexeme.hashbang?]
  have others : ∀ leaf, leaf ≠ .regex → leaf ≠ .punctuator → leaf? expected before ('/' :: rest) leaf = none := by
    intro leaf regex punctuator
    have unread : leafSize? leaf before ('/' :: rest) = none := by
      cases leaf with
      | regex => exact absurd rfl regex
      | punctuator => exact absurd rfl punctuator
      | number =>
        have digit : Text.isDecimal '/' = false := by decide
        simp [leafSize?, Lexeme.number?, Lexeme.radixNumber?, Lexeme.decimal?, digit]
      | _ => rfl
    simp [leaf?, unread]
  have spelled : spelled? expected ('/' :: rest) = none := by
    have apart : ∀ entry ∈ spelled, ∃ c more, entry.2 = c :: more ∧ c ≠ '/' := by
      have heads : ∀ entry ∈ spelled, entry.2.head?.any (· != '/') = true := by decide
      intro entry among
      obtain ⟨c, head, other⟩ := (Option.any_eq_true _ _).mp (heads entry among)
      obtain ⟨more, parts⟩ := List.head?_eq_some_iff.mp head
      exact ⟨c, more, parts, by simpa using other⟩
    rw [spelled?, Option.map_eq_none_iff, List.find?_eq_none]
    intro entry among
    obtain ⟨c, more, parts, other⟩ := apart entry among
    simp [Text.startsWith, parts, List.isPrefixOf, other]
  simp [lexeme?, ignored, others, spelled]

theorem punctuatorTerminal_slash (rest : Text) : punctuatorTerminal expected ('/' :: rest) = leaf .punctuator := by
  have none_ : (Mark.all.find? fun mark => expected.contains (.mark mark) && [mark.char] == '/' :: rest) = none := by
    have apart : ∀ mark ∈ Mark.all, mark.char ≠ '/' := by decide
    rw [List.find?_eq_none]
    intro mark among
    simp [apart mark among]
  rw [punctuatorTerminal, none_]

theorem leaf?_slash (expects : expected.contains (leaf .punctuator) = true) :
    leaf? expected before ('/' :: rest) .punctuator
      = some (.token (leaf .punctuator) (if rest.head? = some '=' then 2 else 1)) := by
  rw [leaf?, if_pos expects, leafSize?, punctuator?_slash, Option.map_some]
  dsimp only
  split
  · rw [List.take_succ_cons, punctuatorTerminal_slash]
  · rw [List.take_succ_cons, punctuatorTerminal_slash]

-- A slash in front of no comment, where a regex and an operator can stand, is a regex if it looks like one
-- from both sides.
theorem lexeme?_operand (uncommented : Lexeme.comment? ('/' :: rest) = none)
    (same : expected.contains (leaf .regex) = expected.contains (leaf .punctuator))
    (read : lexeme? expected before ('/' :: rest) = some (.token terminal size)) :
    (terminal = leaf .regex ↔ operandExpected before = true ∧ (Lexeme.regexBody? ('/' :: rest)).isSome = true) ∧
    (terminal ≠ leaf .regex →
      terminal = leaf .punctuator ∧ size = if rest.head? = some '=' then 2 else 1) ∧
    (terminal = leaf .regex → Lexeme.regex? isFlag ('/' :: rest) = some size) := by
  rw [lexeme?_slash uncommented] at read
  have expects : expected.contains (leaf .punctuator) = true := by
    by_contra absent
    rw [leaf?, if_neg (same ▸ absent), leaf?, if_neg absent] at read
    cases read
  rw [leaf?_slash expects, leaf?, if_pos (same.trans expects), leafSize?, regex?, Lexeme.regex?] at read
  rw [Lexeme.regex?]
  split at read
  · rename_i operand
    cases body : Lexeme.regexBody? ('/' :: rest) with
    | none =>
      rw [body] at read
      cases read
      exact ⟨by simp, fun _ => ⟨rfl, rfl⟩, by rintro ⟨⟩⟩
    | some body =>
      rw [body] at read
      cases read
      exact ⟨by simp [operand], fun other => absurd rfl other, fun _ => rfl⟩
  · rename_i operator
    cases read
    exact ⟨by simp [operator], fun _ => ⟨rfl, rfl⟩, by rintro ⟨⟩⟩

end Lexer

namespace Syntax

-- The leaves that declarations do not use can stand where one of them can.
def Opaque (expected : List Terminal) : Prop :=
  ∀ kind ∈ [Leaf.member, .number, .template,
    .regex], expected.contains (leaf kind) = expected.contains (leaf .punctuator)

theorem Machine.expected_opaque (machine : Machine) : Opaque machine.expected := by
  obtain ⟨items, progress, frames⟩ := machine
  unfold Opaque
  cases frames with
  | cons frame frames =>
    simp only [expected, Frame.expected]
    split
    · cases frame.bracket <;> decide
    · decide
  | nil =>
    simp only [expected]
    cases progress with
    | idle afterNode => cases afterNode <;> decide
    | importNames word head list =>
      obtain ⟨opener, entries, stage⟩ := list
      cases stage with
      | named name =>
        simp only [Progress.expected, SpecifierStage.expected]
        split <;> decide
      | _ => simp [Progress.expected, SpecifierStage.expected]
    | exportNames word list =>
      obtain ⟨opener, entries, stage⟩ := list
      cases stage <;> simp [Progress.expected, SpecifierStage.expected]
    | exportDefaultFunction word defaultWord head =>
      simp only [Progress.expected]
      split <;> decide
    | exportFunction word head =>
      simp only [Progress.expected]
      split <;> decide
    | exportDefault | exportDefaultAsync | exportList =>
      simp only [Progress.expected]
      decide
    | _ => simp [Progress.expected]

open Masking

theorem Lexes.read (lexes : Lexes text token) : ∃ expected cursor terminal size,
    Cursor.Within text cursor ∧ Opaque expected ∧
      Lexer.lexeme? expected cursor.before cursor.rest = some (.token terminal size) ∧
      token = cursor.token terminal size := by
  cases lexes with
  | expected comes read => exact ⟨_, _, _, _, comes.within, Machine.expected_opaque _, read, rfl⟩
  | fault comes unread read => exact ⟨_, _, _, _, comes.within, (by unfold Opaque; decide), read, rfl⟩

-- A token that begins at a slash in front of no comment is a regex or the slash as an operator.
theorem Lexes.slash (lexes : Lexes text token) (here : text.drop token.start = '/' :: rest)
    (uncommented : Lexeme.comment? ('/' :: rest) = none) :
    (token.terminal = leaf .regex ↔ Lexer.operandExpected (text.take token.start).reverse = true ∧
      (Lexeme.regexBody? ('/' :: rest)).isSome = true) ∧
    (token.terminal ≠ leaf .regex → token.terminal = leaf .punctuator ∧
      (token.text = ['/'] ∨ token.text = ['/', '='])) ∧
    (token.terminal = leaf .regex → ∃ size, Lexeme.regex? Lexer.isFlag ('/' :: rest) = some size ∧
      token.text = ('/' :: rest).take size) := by
  obtain ⟨expected, cursor, terminal, size, within, same, read, rfl⟩ := lexes.read
  change text.drop cursor.offset = _ at here
  rw [within.before, within.rest, here] at read
  obtain ⟨regex, operator, reach⟩ := Lexer.lexeme?_operand uncommented (same .regex (by decide)) read
  dsimp only [Cursor.token]
  rw [within.rest, here]
  refine ⟨regex, fun other => ?_, fun found => ⟨size, reach found, rfl⟩⟩
  obtain ⟨terminal, size⟩ := operator other
  refine ⟨terminal, ?_⟩
  split at size
  · rename_i equals
    obtain ⟨behind, parts⟩ := List.head?_eq_some_iff.mp equals
    exact .inr (by rw [size, parts]; rfl)
  · exact .inl (by rw [size]; rfl)

-- A token that begins at a division sign is a regex exactly where the end of the text in front of it exposes
-- the sign and the masked text behind it has the shape of a regex. Otherwise it is the sign and nothing else.
theorem slash_token (sign : DivisionSign source front later) (lexes : Lexes (mask source) token)
    (here : token.start = (front.flatMap Piece.text).length) :
    (token.terminal = leaf .regex ↔ Exposed ((mask source).take token.start) ∧
      (Lexeme.regexBody? ((mask source).drop token.start)).isSome = true) ∧
    (token.terminal ≠ leaf .regex →
      token.terminal = leaf .punctuator ∧ (token.text = ['/'] ∨ token.text = ['/', '='])) := by
  have shown : (mask source).take token.start = front.flatMap Piece.masked := by
    rw [here, ← length_masked sign.parted, sign.mask, List.take_left]
  have rest : (mask source).drop token.start = '/' :: later.flatMap Piece.masked := by
    rw [here, ← length_masked sign.parted, sign.mask, List.drop_left]
  obtain ⟨regex, operator, _⟩ := lexes.slash rest sign.uncommented
  rw [shown] at regex
  rw [rest, shown]
  exact ⟨regex.trans (and_congr_left fun _ => ⟨sign.exposed, Exposed.operandExpected⟩), operator⟩

-- The leaf at the top of an accepted source that begins at an offset.
def leafAt? (source : Text) (offset : Nat) : Option Token :=
  (parse (mask source)).toOption.bind fun parsed =>
    parsed.items.findSome? fun
      | .node (.leaf token) => if token.start = offset then some token else none
      | _ => none

theorem lexes_leafAt (found : leafAt? source offset = some token) :
    Lexes (mask source) token ∧ token.start = offset := by
  obtain ⟨parsed, accepted, found⟩ := Option.bind_eq_some_iff.mp found
  have accepts : parse (mask source) = .ok parsed := by
    cases outcome : parse (mask source) with
    | error fault =>
      rw [outcome] at accepted
      cases accepted
    | ok _ =>
      rw [outcome] at accepted
      exact congrArg _ (Option.some.inj accepted)
  obtain ⟨item, among, here⟩ := List.exists_of_findSome?_eq_some found
  split at here
  · split at here
    · rename_i starts
      cases here
      have listed : token ∈ parsed.items.flatMap Item.tokens :=
        List.mem_flatMap.mpr ⟨_, among, by simp⟩
      exact ⟨(parse_lexes (mask source)).1 parsed accepts token listed, starts⟩
    · cases here
  · cases here

def quotientSource : Text := "x=a/b/c".toList

theorem quotient_token : ∃ token, leafAt? quotientSource 3 = some token ∧ token.terminal = leaf .punctuator := by
  have sign : DivisionSign quotientSource [⟨.word, ['x']⟩, ⟨.mark, ['=']⟩, ⟨.word, ['a']⟩]
      [⟨.word, ['b']⟩, ⟨.mark, ['/']⟩, ⟨.word, ['c']⟩] := ⟨by decide +kernel, rfl⟩
  have found : leafAt? quotientSource 3 = some ⟨leaf .punctuator, ['/'], 3, 1, 4⟩ := by decide +kernel
  obtain ⟨lexes, here⟩ := lexes_leafAt found
  exact ⟨_, found, ((slash_token sign lexes here).2 (by decide)).1⟩

-- At the beginning of a line a division sign is read as the opening slash of a regex.
def exposedSource : Text := "import\x7bb\x7dfrom'./a';x=a\n/b/c".toList

def exposedFront : List Piece := [⟨.word, "import".toList⟩, ⟨.mark, ['\x7b']⟩, ⟨.word, ['b']⟩,
    ⟨.mark, ['\x7d']⟩,
  ⟨.word, "from".toList⟩, ⟨.literal, "'./a'".toList⟩, ⟨.mark, [';']⟩, ⟨.word, ['x']⟩, ⟨.mark,
    ['=']⟩, ⟨.word, ['a']⟩,
  ⟨.blanks, ['\n']⟩]

theorem exposed_regex : DivisionSign exposedSource exposedFront
      [⟨.word, ['b']⟩, ⟨.mark, ['/']⟩, ⟨.word, ['c']⟩] ∧
    ∃ token, Lexes (mask exposedSource) token ∧ token.start = (exposedFront.flatMap Piece.text).length ∧
      token.terminal = leaf .regex := by
  have ⟨sign, found⟩ : DivisionSign exposedSource exposedFront
        [⟨.word, ['b']⟩, ⟨.mark, ['/']⟩, ⟨.word, ['c']⟩] ∧
      leafAt? exposedSource (exposedFront.flatMap Piece.text).length
        = some ⟨leaf .regex, "/b/c".toList, 23, 2, 1⟩ := by
    unfold exposedSource exposedFront
    repeat rw [String.toList_ofList]
    exact ⟨⟨by decide +kernel, rfl⟩, by decide +kernel⟩
  obtain ⟨lexes, here⟩ := lexes_leafAt found
  exact ⟨sign, _, lexes, here, rfl⟩

end Syntax
end ModuleBundler
