import ModuleBundler.Masking
import ModuleBundler.Token.Lexer

/-!
What the readers of lexemes promise: a lexeme is never empty, and its characters are of its kind.
-/
namespace ModuleBundler

namespace Text

-- No number is in two tables whose ranges do not meet.
theorem within_apart (apart : ranges.all (fun range => others.all fun other =>
      Nat.blt range.2 other.1 || Nat.blt other.2 range.1) = true)
    (inside : within ranges n = true) : within others n = false := by
  simp only [within, List.all_eq_true, List.any_eq_true, List.any_eq_false, Bool.or_eq_true, Nat.blt_eq,
    Bool.and_eq_true, decide_eq_true_eq] at *
  obtain ⟨range, member, low, high⟩ := inside
  intro other among both
  have := apart range member other among
  omega

theorem isNameChar_of_isBlank (blank : isBlank c = true) : isNameChar c = false := by
  by_cases small : c.toNat < 128
  · have ascii : ∀ n < 128, isBlank (Char.ofNat n) = true → isNameChar (Char.ofNat n) = false := by
      decide +kernel
    have found := ascii c.toNat small
    rw [Char.ofNat_toNat] at found
    exact found blank
  · have outside : within numberOrLetterRanges c.toNat = false :=
      within_apart (by decide +kernel) blank
    have unmarked : c ≠ '$' := by rintro rfl; exact small (by decide)
    simp [isNameChar, isWord, small, outside, unmarked]

-- A text that is one name.
def IsName (text : Text) : Prop :=
  ∃ c rest, text = c :: rest ∧ isNameStart c = true ∧ ∀ d ∈ rest, isNameChar d = true

instance (text : Text) : Decidable (IsName text) :=
  match text with
  | [] => .isFalse fun ⟨_, _, empty, _⟩ => List.cons_ne_nil _ _ empty.symm
  | c :: rest => decidable_of_iff (isNameStart c = true ∧ ∀ d ∈ rest, isNameChar d = true)
      ⟨fun facts => ⟨c, rest, rfl, facts⟩, fun ⟨_, _, same, facts⟩ => by cases same; exact facts⟩

theorem IsName.chars (named : IsName text) : ∀ c ∈ text, isNameChar c = true := by
  obtain ⟨c, rest, rfl, starts, more⟩ := named
  intro d member
  rcases List.mem_cons.mp member with rfl | later
  · exact isNameChar_of_isNameStart starts
  · exact more d later

end Text

namespace Lexeme

-- A backslash is followed by another character or ends the text.
theorem not_backslash (single : c = '\\' → rest = [] → False)
    (pair : ∀ (next : Char) (later : Text), c = '\\' → rest = next :: later → False) : c ≠ '\\' := by
  intro same
  cases rest with
  | nil => exact single same rfl
  | cons next later => exact pair next later same rfl

theorem run_le (within : Char → Bool) (text : Text) : run within text ≤ text.length := by
  induction text with
  | nil => exact Nat.le_refl _
  | cons c rest ih =>
    simp only [run]
    split
    · simpa using ih
    · exact Nat.zero_le _

theorem run_within (within : Char → Bool) (text : Text) :
    ∀ c ∈ text.take (run within text), within c = true := by
  induction text with
  | nil => simp
  | cons c rest ih =>
    simp only [run]
    split
    · rename_i accepted
      intro d member
      rcases List.mem_cons.mp member with rfl | later
      · exact accepted
      · exact ih d later
    · simp

theorem run_stops (within : Char → Bool) (text : Text) :
    ∀ c, (text.drop (run within text)).head? = some c → within c = false := by
  induction text with
  | nil => nofun
  | cons d rest ih =>
    by_cases accepted : within d = true
    · rw [run, if_pos accepted, List.drop_succ_cons]
      exact ih
    · rw [run, if_neg accepted, List.drop_zero]
      rintro c ⟨⟩
      exact Bool.eq_false_iff.mpr accepted

theorem run1?_pos (read : run1? within text = some size) : 0 < size := by
  unfold run1? at read
  split at read
  · cases read
  · cases read
    exact Nat.succ_pos _

theorem run1?_run (read : run1? within text = some size) : run within text = size := by
  unfold run1? at read
  split at read
  · cases read
  · rename_i counted
    exact counted.trans (Option.some.inj read)

-- What is read to the end of its line holds no line break, and has one behind it or nothing.
theorem line_stops (text : Text) : '\n' ∉ text.take (run (· != '\n') text) ∧
    ∀ c, (text.drop (run (· != '\n') text)).head? = some c → c = '\n' := by
  constructor
  · intro broken
    exact absurd (run_within (· != '\n') text _ broken) (by decide)
  · intro c first
    simpa using run_stops (· != '\n') text c first

-- A reader that goes on behind a mark of its own has read that mark.
theorem map_add_pos {size? : Option Nat} (marked : 0 < mark)
    (read : size?.map (· + mark) = some size) : 0 < size := by
  obtain ⟨inner, _, rfl⟩ := Option.map_eq_some_iff.mp read
  exact Nat.add_pos_right inner marked

-- A comment goes on to the end of its line or to its closing mark.
theorem comment?_cases (read : comment? text = some size) :
    (∃ rest, text = '/' :: '/' :: rest ∧ size = run (· != '\n') rest + 2) ∨
    ∃ rest inner, text = '/' :: '*' :: rest ∧ blockCommentRest? rest = some inner ∧ size = inner + 2 := by
  rcases Option.or_eq_some_iff.mp read with line | ⟨_, block⟩
  · unfold lineComment? at line
    split at line
    · exact .inl ⟨_, rfl, (Option.some.inj line).symm⟩
    · cases line
  · unfold blockComment? at block
    split at block
    · obtain ⟨inner, readInner, same⟩ := Option.map_eq_some_iff.mp block
      exact .inr ⟨_, inner, rfl, readInner, same.symm⟩
    · cases block

theorem comment?_pos (read : comment? text = some size) : 0 < size := by
  obtain ⟨rest, _, rfl⟩ | ⟨rest, inner, _, _, rfl⟩ := comment?_cases read
  · exact Nat.succ_pos _
  · exact Nat.succ_pos _

theorem hashbang?_cases (read : hashbang? text = some size) :
    ∃ rest, text = '#' :: '!' :: rest ∧ size = run (· != '\n') rest + 2 := by
  unfold hashbang? at read
  split at read
  · exact ⟨_, rfl, (Option.some.inj read).symm⟩
  · cases read

theorem string?_pos (read : string? text = some size) : 0 < size := by
  unfold string? at read
  split at read
  · exact map_add_pos Nat.one_pos read
  · exact map_add_pos Nat.one_pos read
  · cases read

theorem template?_pos (read : template? text = some size) : 0 < size := by
  unfold template? at read
  split at read
  · exact map_add_pos Nat.one_pos read
  · cases read

-- A regex opens with a slash, and its first character makes no comment of it.
theorem regexBody?_opened (read : regexBody? text = some body) :
    ∃ c rest inner, text = '/' :: c :: rest ∧ ¬ (c == '/' || c == '*') = true ∧
      regexRest? false (c :: rest) = some inner ∧ body = inner + 1 := by
  unfold regexBody? at read
  split at read
  · rename_i c rest
    split at read
    · cases read
    · rename_i plain
      obtain ⟨inner, readInner, rfl⟩ := Option.map_eq_some_iff.mp read
      exact ⟨c, rest, inner, rfl, plain, readInner, rfl⟩
  · cases read

theorem regexBody?_pos (read : regexBody? text = some size) : 0 < size := by
  obtain ⟨_, _, inner, _, _, _, rfl⟩ := regexBody?_opened read
  exact Nat.succ_pos _

theorem name?_pos (read : name? text = some size) : 0 < size := by
  unfold name? at read
  split at read
  · split at read
    · cases read
      exact Nat.succ_pos _
    · cases read
  · cases read

theorem member?_pos (read : member? text = some size) : 0 < size := by
  unfold member? at read
  split at read
  · exact map_add_pos Nat.two_pos read
  · exact map_add_pos Nat.one_pos read
  · cases read

theorem radixNumber?_pos (read : radixNumber? text = some size) : 0 < size := by
  unfold radixNumber? at read
  split at read
  · split at read
    · exact map_add_pos Nat.two_pos read
    · cases read
  · cases read

theorem decimal?_pos (read : decimal? text = some size) : 0 < size := by
  unfold decimal? at read
  split at read
  · split at read
    · cases read
      exact Nat.succ_pos _
    · cases read
  · split at read
    · cases read
      exact Nat.add_pos_left (Nat.succ_pos _) _
    · cases read
  · cases read

theorem number?_pos (read : number? text = some size) : 0 < size := by
  unfold number? at read
  obtain ⟨whole, digits, rfl⟩ := Option.map_eq_some_iff.mp read
  refine Nat.add_pos_left ?_ _
  rcases Option.or_eq_some_iff.mp digits with radix | ⟨_, decimal⟩
  · exact radixNumber?_pos radix
  · obtain ⟨plain, readPlain, rfl⟩ := Option.map_eq_some_iff.mp decimal
    exact Nat.add_pos_left (decimal?_pos readPlain) _

theorem punctuator?_pos (read : punctuator? text = some size) : 0 < size := by
  unfold punctuator? at read
  obtain ⟨mark, found, rfl⟩ := Option.map_eq_some_iff.mp read
  have marks : ∀ mark ∈ punctuators, 0 < mark.length := by decide
  exact marks mark (List.mem_of_find?_eq_some found)

theorem name?_isName (read : name? text = some size) : Text.IsName (text.take size) := by
  unfold name? at read
  split at read
  · rename_i first rest
    split at read
    · rename_i starts
      cases read
      exact ⟨first, _, rfl, starts, run_within _ _⟩
    · cases read
  · cases read

-- A reader that goes on behind a mark stays within the text when the reader after the mark does.
theorem size_behind_mark {size? : Option Nat} (read : size?.map (· + mark) = some size)
    (within : ∀ {inner}, size? = some inner → inner ≤ length ∧ 0 < inner) :
    size ≤ length + mark ∧ 0 < size := by
  obtain ⟨inner, readInner, rfl⟩ := Option.map_eq_some_iff.mp read
  obtain ⟨bounded, positive⟩ := within readInner
  exact ⟨by omega, by omega⟩

theorem blockCommentRest?_bounds (read : blockCommentRest? text = some size) :
    size ≤ text.length ∧ 0 < size := by
  fun_induction blockCommentRest? text generalizing size with
  | case1 =>
    cases read
    simp
  | case2 c rest _ ih => exact size_behind_mark read ih
  | case3 => cases read

theorem quotedRest?_bounds (read : quotedRest? quote text = some size) :
    size ≤ text.length ∧ 0 < size := by
  fun_induction quotedRest? quote text generalizing size with
  | case1 | case2 | case5 => cases read
  | case3 c rest ih =>
    have bounds := size_behind_mark read ih
    exact bounds
  | case4 =>
    cases read
    simp
  | case6 c rest _ _ _ _ ih => exact size_behind_mark read ih

theorem templateRest?_bounds (read : templateRest? part text = some size) :
    size ≤ text.length ∧ 0 < size := by
  fun_induction templateRest? part text generalizing size with
  | case1 =>
    cases read
    simp
  | case3 | case12 | case15 | case17 => cases read
  | case2 c rest ih | case11 c rest ih =>
    have bounds := size_behind_mark read ih
    exact bounds
  | case4 rest ih =>
    have bounds := size_behind_mark read ih
    exact bounds
  | case6 rest ih | case7 rest ih | case8 rest ih | case10 rest ih | case14 rest ih =>
    exact size_behind_mark read ih
  | case5 c rest _ _ _ _ ih => exact size_behind_mark read ih
  | case9 c rest _ _ _ ih | case13 c rest _ _ _ ih => exact size_behind_mark read ih
  | case16 c rest _ _ ih => exact size_behind_mark read ih

theorem comment?_le (read : comment? text = some size) : size ≤ text.length := by
  obtain ⟨rest, rfl, rfl⟩ | ⟨rest, inner, rfl, readInner, rfl⟩ := comment?_cases read
  · exact Nat.succ_le_succ (Nat.succ_le_succ (run_le _ rest))
  · exact Nat.succ_le_succ (Nat.succ_le_succ (blockCommentRest?_bounds readInner).1)

theorem string?_le (read : string? text = some size) : size ≤ text.length := by
  unfold string? at read
  split at read
  · exact (size_behind_mark read quotedRest?_bounds).1
  · exact (size_behind_mark read quotedRest?_bounds).1
  · cases read

theorem template?_le (read : template? text = some size) : size ≤ text.length := by
  unfold template? at read
  split at read
  · exact (size_behind_mark read templateRest?_bounds).1
  · cases read

-- A regex body lies on one line.
theorem regexRest?_line (read : regexRest? inClass text = some size) :
    size ≤ text.length ∧ 0 < size ∧ '\n' ∉ text.take size := by
  have more : ∀ {c : Char} {rest : Text} {inner : Nat}, ¬ c = '\n' →
      (inner ≤ rest.length ∧ 0 < inner ∧ '\n' ∉ rest.take inner) →
      inner + 1 ≤ (c :: rest).length ∧ 0 < inner + 1 ∧ '\n' ∉ (c :: rest).take (inner + 1) := by
    rintro c rest inner notBreak ⟨bounded, _, line⟩
    refine ⟨Nat.succ_le_succ bounded, Nat.succ_pos _, ?_⟩
    simp only [List.take_succ_cons, List.mem_cons, not_or]
    exact ⟨fun same => notBreak same.symm, line⟩
  fun_induction regexRest? inClass text generalizing size with
  | case1 | case2 | case3 | case4 => cases read
  | case5 _ escaped rest notBreak ih =>
    obtain ⟨inner, readInner, rfl⟩ := Option.map_eq_some_iff.mp read
    exact more (by decide) (more notBreak (ih readInner))
  | case6 c rest _ notBreak _ _ ih =>
    obtain ⟨inner, readInner, rfl⟩ := Option.map_eq_some_iff.mp read
    exact more notBreak (ih readInner)
  | case7 rest =>
    cases read
    simp
  | case8 c rest _ notBreak _ _ _ ih =>
    obtain ⟨inner, readInner, rfl⟩ := Option.map_eq_some_iff.mp read
    exact more notBreak (ih readInner)

theorem regexBody?_line (read : regexBody? text = some body) :
    body ≤ text.length ∧ 2 ≤ body ∧ '\n' ∉ text.take body := by
  obtain ⟨c, rest, inner, rfl, _, readInner, rfl⟩ := regexBody?_opened read
  obtain ⟨bounded, positive, line⟩ := regexRest?_line readInner
  refine ⟨Nat.succ_le_succ bounded, Nat.succ_le_succ positive, ?_⟩
  simp only [List.take_succ_cons, List.mem_cons, not_or]
  exact ⟨by decide, line⟩

end Lexeme

namespace Lexer

theorem leafSize?_pos (read : leafSize? leaf before rest = some size) : 0 < size := by
  cases leaf with
  | name => exact Lexeme.name?_pos read
  | member => exact Lexeme.member?_pos read
  | number => exact Lexeme.number?_pos read
  | string => exact Lexeme.string?_pos read
  | template => exact Lexeme.template?_pos read
  | punctuator => exact Lexeme.punctuator?_pos read
  | regex =>
    simp only [leafSize?, regex?, Lexeme.regex?] at read
    split at read
    · obtain ⟨body, readBody, rfl⟩ := Option.map_eq_some_iff.mp read
      exact Nat.add_pos_left (Lexeme.regexBody?_pos readBody) _
    · cases read

-- An interpreter line is passed over at the very start only.
theorem ignored?_cases (read : ignored? before rest = some size) :
    Lexeme.blanks? rest = some size ∨ Lexeme.comment? rest = some size ∨
      before = [] ∧ Lexeme.hashbang? rest = some size := by
  simp only [ignored?, Option.orElse_eq_orElse, Option.orElse_eq_or, Option.or_eq_some_iff] at read
  rcases read with blanks | ⟨_, comment | ⟨_, hashbang⟩⟩
  · exact .inl blanks
  · exact .inr (.inl comment)
  · split at hashbang
    · rename_i start
      exact .inr (.inr ⟨List.isEmpty_iff.mp start, hashbang⟩)
    · cases hashbang

theorem ignored?_pos (read : ignored? before rest = some size) : 0 < size := by
  obtain blanks | comment | ⟨_, hashbang⟩ := ignored?_cases read
  · exact Lexeme.run1?_pos blanks
  · exact Lexeme.comment?_pos comment
  · obtain ⟨_, _, rfl⟩ := Lexeme.hashbang?_cases hashbang
    exact Nat.succ_pos _

-- The readers that a lexeme can come from.
theorem lexeme?_cases (read : lexeme? expected before rest = some lexed) :
    (∃ leaf, leaf? expected before rest leaf = some lexed) ∨
    (∃ size, ignored? before rest = some size ∧ lexed = .skipped size) ∨
    spelled? expected rest = some lexed := by
  simp only [lexeme?, Option.orElse_eq_orElse, Option.orElse_eq_or, Option.or_eq_some_iff,
    Option.map_eq_some_iff] at read
  rcases read with leaf | ⟨_, ⟨size, skipped, rfl⟩ | ⟨_, leaf | ⟨_, leaf | ⟨_, leaf | ⟨_, leaf | ⟨_, leaf|
    ⟨_, leaf | ⟨_, spelled⟩⟩⟩⟩⟩⟩⟩⟩
  · exact .inl ⟨_, leaf⟩
  · exact .inr (.inl ⟨size, skipped, rfl⟩)
  · exact .inl ⟨_, leaf⟩
  · exact .inl ⟨_, leaf⟩
  · exact .inl ⟨_, leaf⟩
  · exact .inl ⟨_, leaf⟩
  · exact .inl ⟨_, leaf⟩
  · exact .inl ⟨_, leaf⟩
  · exact .inr (.inr spelled)

theorem leaf?_parts (read : leaf? expected before rest leaf = some lexed) :
    ∃ terminal size, lexed = .token terminal size ∧ leafSize? leaf before rest = some size := by
  unfold leaf? at read
  split at read
  · obtain ⟨size, readSize, rfl⟩ := Option.map_eq_some_iff.mp read
    cases leaf <;> exact ⟨_, size, rfl, readSize⟩
  · cases read

theorem spelled?_parts (read : spelled? expected rest = some lexed) :
    ∃ entry ∈ spelled, lexed = .token entry.1 entry.2.length ∧ readAlone expected entry.1 = true ∧
      ∃ more, rest = entry.2 ++ more := by
  unfold spelled? at read
  obtain ⟨entry, found, rfl⟩ := Option.map_eq_some_iff.mp read
  have chosen := List.find?_some found
  obtain ⟨alone, starts⟩ := Bool.and_eq_true_iff.mp chosen
  obtain ⟨more, parts⟩ := List.isPrefixOf_iff_prefix.mp starts
  exact ⟨entry, List.mem_of_find?_eq_some found, rfl, alone, more, parts.symm⟩

-- A token is a leaf or one of the texts that have a terminal of their own.
theorem lexeme?_token_cases (read : lexeme? expected before rest = some (.token terminal size)) :
    (∃ leaf, leaf? expected before rest leaf = some (.token terminal size)) ∨
    ∃ entry ∈ spelled, terminal = entry.1 ∧ readAlone expected entry.1 = true ∧ size = entry.2.length ∧
      ∃ more, rest = entry.2 ++ more := by
  rcases lexeme?_cases read with leaf | ⟨_, _, skipped⟩ | readSpelled
  · exact .inl leaf
  · cases skipped
  · obtain ⟨entry, among, same, alone, parts⟩ := spelled?_parts readSpelled
    cases same
    exact .inr ⟨entry, among, rfl, alone, rfl, parts⟩

theorem lexeme?_token_pos (read : lexeme? expected before rest = some (.token terminal size)) :
    0 < size := by
  rcases lexeme?_token_cases read with ⟨leaf, readLeaf⟩ | ⟨entry, among, _, _, rfl, _⟩
  · obtain ⟨_, _, same, readSize⟩ := leaf?_parts readLeaf
    cases same
    exact leafSize?_pos readSize
  · have entries : ∀ entry ∈ spelled, 0 < entry.2.length := by decide
    exact entries entry among

theorem lexeme?_skipped (read : lexeme? expected before rest = some (.skipped size)) :
    ignored? before rest = some size := by
  rcases lexeme?_cases read with ⟨leaf, readLeaf⟩ | ⟨_, readIgnored, same⟩ | readSpelled
  · obtain ⟨_, _, same, _⟩ := leaf?_parts readLeaf
    cases same
  · cases same
    exact readIgnored
  · obtain ⟨_, _, same, _⟩ := spelled?_parts readSpelled
    cases same

theorem lexeme?_skipped_pos (read : lexeme? expected before rest = some (.skipped size)) :
    0 < size := ignored?_pos (lexeme?_skipped read)

theorem lexeme?_isName (read : lexeme? expected before rest = some (.token terminal size))
    (word : terminal = .leaf .name ∨ ∃ keyword, terminal = .keyword keyword) :
    Text.IsName (rest.take size) := by
  rcases lexeme?_token_cases read with ⟨leaf, readLeaf⟩ | ⟨entry, among, rfl, _, rfl, later, rfl⟩
  · unfold leaf? at readLeaf
    split at readLeaf
    · obtain ⟨length, readSize, same⟩ := Option.map_eq_some_iff.mp readLeaf
      cases leaf with
      | name =>
        cases same
        exact Lexeme.name?_isName readSize
      | punctuator =>
        cases same
        have other : ∀ text, punctuatorTerminal expected text ≠ .leaf .name ∧
            ∀ keyword, punctuatorTerminal expected text ≠ .keyword keyword := by
          intro text
          unfold punctuatorTerminal
          split
          · exact ⟨nofun, nofun⟩
          · exact ⟨nofun, nofun⟩
        rcases word with name | ⟨keyword, found⟩
        · exact absurd name (other _).1
        · exact absurd found ((other _).2 keyword)
      | _ =>
        cases same
        rcases word with name | ⟨keyword, found⟩
        · cases name
        · cases found
    · cases readLeaf
  · have entries : ∀ entry ∈ spelled, entry.1 ≠ .leaf .name ∧
        ∀ keyword ∈ Keyword.all, entry.1 = .keyword keyword → entry.2 = keyword.spelling := by decide
    have spellings : ∀ keyword ∈ Keyword.all, Text.IsName keyword.spelling := by
      intro keyword _
      cases keyword <;> exact ⟨_, _, rfl, by decide, by decide⟩
    obtain ⟨other, spelling⟩ := entries entry among
    rcases word with name | ⟨keyword, keywordFound⟩
    · exact absurd name other
    · have same := spelling keyword (Keyword.mem_all keyword) keywordFound
      rw [List.take_left, same]
      exact spellings keyword (Keyword.mem_all keyword)

end Lexer
end ModuleBundler
