import Mathlib.Data.List.Find
import ModuleBundler.Token.Lexer

/-!
How far a lexing step depends on where it stands: on what has been passed since the last line break,
and on the closing brackets that are expected where nothing is open.
-/
namespace ModuleBundler.Lexer
open Terminal

-- What has been passed decides over regex literals and over an interpreter line alone.
theorem lexeme?_before (regex : regex? before rest = regex? before' rest)
    (ignored : ignored? before rest = ignored? before' rest) :
    lexeme? expected before rest = lexeme? expected before' rest := by
  have leaves : ∀ leaf, leaf? expected before rest leaf = leaf? expected before' rest leaf := by
    intro leaf
    cases leaf with
    | regex => simp only [leaf?, leafSize?, regex]
    | _ => rfl
  unfold lexeme?
  simp only [leaves, ignored]

theorem lexeme?_plain (slash : c ≠ '/') (hash : c ≠ '#') (before before' rest : Text) :
    lexeme? expected before (c :: rest) = lexeme? expected before' (c :: rest) := by
  have regex : ∀ before, regex? before (c :: rest) = none := by
    intro before
    have body : Lexeme.regexBody? (c :: rest) = none := Lexeme.regexBody?.eq_2 _ (by simp [slash])
    simp [regex?, Lexeme.regex?, body]
  have hashbang : Lexeme.hashbang? (c :: rest) = none := Lexeme.hashbang?.eq_2 _ (by simp [hash])
  refine lexeme?_before ((regex before).trans (regex before').symm) ?_
  simp [ignored?, hashbang]

-- A closing bracket with nothing open is a token or none, and everything else is read alike.
theorem lexeme?_closers (before rest : Text) :
    lexeme? (outer ++ closers) before rest = lexeme? outer before rest ∨
      lexeme? outer before rest = none ∧ ∃ bracket size,
        lexeme? (outer ++ closers) before rest = some (.token (.closer bracket) size) := by
  have leaves : ∀ leaf, leaf? (outer ++ closers) before rest leaf = leaf? outer before rest leaf := by
    intro leaf
    have names : ∀ text, nameTerminal (outer ++ closers) text = nameTerminal outer text := by
      intro text
      have words : ∀ word : Keyword, (outer ++ closers).contains (.keyword word)
          = outer.contains (.keyword word) := by
        intro word
        cases word <;> decide
      simp only [nameTerminal, words]
    have punctuators : ∀ text, punctuatorTerminal (outer ++ closers) text = punctuatorTerminal outer text := by
      intro text
      have marks : ∀ mark : Mark, (outer ++ closers).contains (.mark mark)
          = outer.contains (.mark mark) := by
        intro mark
        cases mark <;> decide
      simp only [punctuatorTerminal, marks]
    have expected : (outer ++ closers).contains (.leaf leaf) = outer.contains (.leaf leaf) := by
      cases leaf <;> decide
    unfold leaf?
    rw [expected]
    simp only [names, punctuators]
  have mark : ∀ c later, c = '}' ∨ c = ')' ∨ c = ']' → rest = c :: later →
      lexeme? outer before rest = none ∧ ∃ bracket size,
        lexeme? (outer ++ closers) before rest = some (.token (.closer bracket) size) := by
    rintro c later (rfl | rfl | rfl) rfl
    all_goals
      rw [lexeme?_plain (by decide) (by decide) before [],
        @lexeme?_plain _ (outer ++ closers) (by decide) (by decide) before []]
    · exact ⟨rfl, .brace, 1, rfl⟩
    · exact ⟨rfl, .paren, 1, rfl⟩
    · exact ⟨rfl, .square, 1, rfl⟩
  by_cases closing : ∃ c later, (c = '}' ∨ c = ')' ∨ c = ']') ∧ rest = c :: later
  · obtain ⟨c, later, closing, same⟩ := closing
    exact .inr (mark c later closing same)
  · left
    have spelledAlike : spelled? (outer ++ closers) rest = spelled? outer rest := by
      unfold spelled?
      refine congrArg _ (List.find?_congr fun entry member => ?_)
      have entries : ∀ entry ∈ spelled, readAlone (outer ++ closers) entry.1 = readAlone outer entry.1 ∨
          entry.2 = ['}'] ∨ entry.2 = [')'] ∨ entry.2 = [']'] := by decide
      rcases entries entry member with same | closer
      · rw [same]
      · have apart : Text.startsWith rest entry.2 = false := by
          cases rest with
          | nil => rcases closer with same | same | same <;> rw [same] <;> rfl
          | cons c later =>
            rcases closer with same | same | same
            all_goals
              rw [same]
              simp only [Text.startsWith, List.isPrefixOf, Bool.and_true, beq_eq_false_iff_ne]
              rintro rfl
              exact closing ⟨_, later, by simp, rfl⟩
        rw [apart, Bool.and_false, Bool.and_false]
    unfold lexeme?
    simp only [leaves, spelledAlike]

theorem startsWith_line (passed earlier earlier' : Text) (unbroken : '\n' ∉ word) :
    Text.startsWith (passed ++ '\n' :: earlier) word
      = Text.startsWith (passed ++ '\n' :: earlier') word := by
  induction passed generalizing word with
  | nil =>
    cases word with
    | nil => simp [Text.startsWith]
    | cons c word =>
      simp only [List.mem_cons, not_or] at unbroken
      simp [Text.startsWith, List.isPrefixOf, beq_false_of_ne (Ne.symm unbroken.1)]
  | cons d passed ih =>
    cases word with
    | nil => simp [Text.startsWith]
    | cons c word =>
      simp only [List.mem_cons, not_or] at unbroken
      have later := ih unbroken.2
      simp only [Text.startsWith] at later
      simp only [Text.startsWith, List.cons_append, List.isPrefixOf, later]

theorem operandExpected_blank (earlier : Text) :
    operandExpected (' ' :: earlier) = ((earlier.head?.any fun c => operandMarks.contains c)
      || operandWordsReversed.any (Text.startsWith earlier)) := by
  cases earlier <;> rfl

theorem operandExpected_visible (visible : c ≠ ' ') (earlier : Text) :
    operandExpected (c :: earlier) = operandMarks.contains c := by
  unfold operandExpected
  split
  · rename_i same
    cases same
  · rename_i same
    cases same
    exact absurd rfl visible
  · rename_i same
    cases same
    rfl

-- No reader looks back past a line break.
theorem operandExpected_line (passed earlier earlier' : Text) :
    operandExpected (passed ++ '\n' :: earlier) = operandExpected (passed ++ '\n' :: earlier') := by
  cases passed with
  | nil => rfl
  | cons c passed =>
    by_cases blank : c = ' '
    · have words : ∀ word ∈ operandWordsReversed, '\n' ∉ word := by decide
      have same : operandWordsReversed.any (Text.startsWith (passed ++ '\n' :: earlier))
          = operandWordsReversed.any (Text.startsWith (passed ++ '\n' :: earlier')) := by
        rw [Bool.eq_iff_iff, List.any_eq_true, List.any_eq_true]
        refine exists_congr fun word => and_congr_right fun member => ?_
        rw [startsWith_line passed earlier earlier' (words word member)]
      have head : (passed ++ '\n' :: earlier).head? = (passed ++ '\n' :: earlier').head? := by
        simp
      rw [blank, List.cons_append, List.cons_append, operandExpected_blank, operandExpected_blank, same, head]
    · rw [List.cons_append, List.cons_append, operandExpected_visible blank, operandExpected_visible blank]

-- Two places in front of the same text, in texts that agree back to a line break.
def Recalls (before before' rest : Text) : Prop :=
  rest.head? = some '\n' ∨ ∃ passed earlier earlier',
    before = passed ++ '\n' :: earlier ∧ before' = passed ++ '\n' :: earlier'

theorem Recalls.symm (recalls : Recalls before before' rest) : Recalls before' before rest := by
  rcases recalls with broken | ⟨passed, earlier, earlier', here, there⟩
  · exact .inl broken
  · exact .inr ⟨passed, earlier', earlier, there, here⟩

theorem Recalls.lexeme? (recalls : Recalls before before' rest) (expected : List Terminal) :
    lexeme? expected before rest = lexeme? expected before' rest := by
  rcases recalls with broken | ⟨passed, earlier, earlier', rfl, rfl⟩
  · obtain ⟨later, rfl⟩ := List.head?_eq_some_iff.mp broken
    exact lexeme?_plain (by decide) (by decide) before before' later
  · refine lexeme?_before ?_ ?_
    · simp only [regex?, operandExpected_line passed earlier earlier']
    · simp [ignored?]

theorem Recalls.advance (recalls : Recalls before before' rest) (passes : 0 < size)
    (remains : rest ≠ []) :
    Recalls ((rest.take size).reverse ++ before) ((rest.take size).reverse ++ before')
      (rest.drop size) := by
  right
  rcases recalls with broken | ⟨passed, earlier, earlier', rfl, rfl⟩
  · obtain ⟨later, rfl⟩ := List.head?_eq_some_iff.mp broken
    obtain ⟨count, rfl⟩ := Nat.exists_eq_succ_of_ne_zero (Nat.ne_of_gt passes)
    exact ⟨(later.take count).reverse, before, before', by simp, by simp⟩
  · exact ⟨(rest.take size).reverse ++ passed, earlier, earlier', by simp, by simp⟩

end ModuleBundler.Lexer
