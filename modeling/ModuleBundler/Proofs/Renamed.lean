import ModuleBundler.Proofs.Letters
import ModuleBundler.Proofs.Syntax.Written

/-!
Texts in which whole words have been replaced by another word of the same length. Readers stop at the
same places in both.
-/
namespace ModuleBundler

open Masking (NotName)

namespace Text

-- Every range lies in a wider one. Both lists are in increasing order, so that one pass tells.
def covers (wide : List (Nat × Nat)) : List (Nat × Nat) → Bool
  | [] => true
  | range :: ranges =>
    match wide.dropWhile fun wider => wider.2 < range.2 with
    | [] => false
    | wider :: others => wider.1 ≤ range.1 && covers (wider :: others) ranges

theorem wider_of_covers (covered : covers wide ranges = true) (member : range ∈ ranges) :
    ∃ wider ∈ wide, wider.1 ≤ range.1 ∧ range.2 ≤ wider.2 := by
  induction ranges generalizing wide with
  | nil => cases member
  | cons first ranges ih =>
    simp only [covers] at covered
    split at covered
    · cases covered
    · rename_i wider others left
      obtain ⟨below, later⟩ := Bool.and_eq_true_iff.mp covered
      have among : ∀ other ∈ wider :: others, other ∈ wide := fun other inside =>
        (List.dropWhile_suffix _).subset (left ▸ inside)
      rcases List.mem_cons.mp member with rfl | behind
      · have above := List.head_dropWhile_not (fun other => decide (other.2 < range.2)) (l := wide)
          (by simp [left])
        simp only [left, List.head_cons, decide_eq_false_iff_not, Nat.not_lt] at above
        exact ⟨wider, among wider List.mem_cons_self, by simpa using below, above⟩
      · obtain ⟨other, inside, facts⟩ := ih later behind
        exact ⟨other, among other inside, facts⟩

theorem isNameChar_of_isDecimal (decimal : isDecimal c = true) : isNameChar c = true := by
  unfold isDecimal at decimal
  unfold isNameChar isWord
  split
  · rename_i ascii
    rw [if_pos ascii] at decimal
    have digit : c.isDigit = true := by simpa [Char.isDigit, Char.le_def] using decimal
    simp [Char.isAlphanum, digit]
  · rename_i wide
    rw [if_neg wide] at decimal
    have table : covers numberOrLetterRanges decimalRanges = true := by decide +kernel
    obtain ⟨range, member, low, high⟩ : ∃ range ∈ decimalRanges, range.1 ≤ c.toNat ∧ c.toNat ≤ range.2 := by
      simpa [within] using decimal
    obtain ⟨wider, among, below, above⟩ := wider_of_covers table member
    have found : within numberOrLetterRanges c.toNat = true := by
      simp only [within, List.any_eq_true, Bool.and_eq_true, decide_eq_true_eq]
      exact ⟨wider, among, by omega, by omega⟩
    rw [found]
    rfl

theorem isDecimal_of_isNameStart (starts : isNameStart c = true) : isDecimal c = false := by
  cases decimal : isDecimal c with
  | false => rfl
  | true =>
    have dollar : c = '$' := by simpa [isNameStart, decimal] using starts
    subst dollar
    exact absurd decimal (by decide)

end Text

-- An identifier that can take the place of the words that declarations begin with.
structure Ordinary (word : Text) : Prop where
  named : Text.IsName word
  letters : ∀ c ∈ word, Text.isWord c = true
  size : word.length = 6
  free : word ∉ Lexer.reserved
  -- A slash behind it divides.
  divided : Lexer.operandWordsReversed.all (fun ending => !Text.startsWith word.reverse ending) = true

instance (word : Text) : Decidable (Ordinary word) :=
  decidable_of_iff (Text.IsName word ∧ (∀ c ∈ word, Text.isWord c = true) ∧ word.length = 6 ∧
      Lexer.reserved.contains word = false ∧
      Lexer.operandWordsReversed.all (fun ending => !Text.startsWith word.reverse ending) = true)
    ⟨fun ⟨named, letters, size, free, divided⟩ => ⟨named, letters, size, by simpa using free, divided⟩,
      fun ⟨named, letters, size, free, divided⟩ => ⟨named, letters, size, by simpa using free, divided⟩⟩

-- Whether a word of its own can begin behind what has been passed: not behind a name character, nor
-- behind the dot at the end of a number.
def Apart : Text → Prop
  | [] => True
  | c :: earlier => Text.isNameChar c = false ∧ (c = '.' → earlier.head? = some '.')

instance : (before : Text) → Decidable (Apart before)
  | [] => .isTrue trivial
  | c :: earlier =>
    inferInstanceAs (Decidable (Text.isNameChar c = false ∧ (c = '.' → earlier.head? = some '.')))

-- The second text is the first with whole words replaced; `before` has been passed in the first.
inductive Renamed (word : Text) : Text → Text → Text → Prop where
  | nil : Renamed word before [] []
  | keep (later : Renamed word (c :: before) text other) :
      Renamed word before (c :: text) (c :: other)
  | swap (reserved : spelling ∈ Lexer.reserved) (apart : Apart before) (ends : NotName text)
      (later : Renamed word (spelling.reverse ++ before) text other) :
      Renamed word before (spelling ++ text) (word ++ other)

-- Nothing is replaced right here.
def Tied (word text other : Text) : Prop := ∃ before, ¬ Apart before ∧ Renamed word before text other

-- A name character stands right in front.
def Held (word text other : Text) : Prop :=
  ∃ c before, Text.isNameChar c = true ∧ Renamed word (c :: before) text other

variable {word text other before : Text}

theorem reserved_letters {spelling : Text} (reserved : spelling ∈ Lexer.reserved) :
    spelling.length = 6 ∧ Text.IsName spelling ∧ ∀ c ∈ spelling, Text.isWord c = true := by
  have named : Text.IsName Keyword.import_.spelling ∧ Text.IsName Keyword.export_.spelling :=
    ⟨⟨_, _, rfl, by decide, by decide⟩, ⟨_, _, rfl, by decide, by decide⟩⟩
  simp only [Lexer.reserved, List.mem_cons, List.not_mem_nil, or_false] at reserved
  rcases reserved with rfl | rfl
  · exact ⟨rfl, named.1, by decide⟩
  · exact ⟨rfl, named.2, by decide⟩

theorem Held.tied (held : Held word text other) : Tied word text other := by
  obtain ⟨c, before, named, renamed⟩ := held
  refine ⟨c :: before, ?_, renamed⟩
  rintro ⟨unnamed, _⟩
  rw [named] at unnamed
  cases unnamed

theorem Renamed.nil_inv (renamed : Renamed word before [] other) : other = [] := by
  generalize empty : ([] : Text) = text at renamed
  cases renamed with
  | nil => rfl
  | keep => cases empty
  | swap reserved =>
    obtain ⟨c, rest, rfl, _⟩ := (reserved_letters reserved).2.1
    cases empty

-- What follows a word is no part of another in the second text either.
theorem Renamed.notName (renamed : Renamed word before text other) (ends : NotName text) :
    NotName other := by
  cases renamed with
  | nil => exact ends
  | keep => exact ends
  | swap reserved =>
    obtain ⟨c, rest, rfl, starts, _⟩ := (reserved_letters reserved).2.1
    have unnamed := ends c rfl
    rw [Text.isNameChar_of_isNameStart starts] at unnamed
    cases unnamed

-- A mark is in no word.
theorem Renamed.mark_inv (renamed : Renamed word before (m :: text) other)
    (mark : Text.isNameChar m = false) :
    ∃ rest, other = m :: rest ∧ Renamed word (m :: before) text rest := by
  generalize parts : m :: text = whole at renamed
  cases renamed with
  | nil => cases parts
  | keep later =>
    cases parts
    exact ⟨_, rfl, later⟩
  | swap reserved =>
    obtain ⟨c, rest, rfl, starts, _⟩ := (reserved_letters reserved).2.1
    cases parts
    rw [Text.isNameChar_of_isNameStart starts] at mark
    cases mark

theorem Renamed.mark_of (ordinary : Ordinary word) (renamed : Renamed word before text (m :: other))
    (mark : Text.isNameChar m = false) : ∃ rest, text = m :: rest := by
  generalize parts : m :: other = whole at renamed
  cases renamed with
  | nil => cases parts
  | keep later =>
    cases parts
    exact ⟨_, rfl⟩
  | swap reserved =>
    obtain ⟨c, rest, rfl, starts, _⟩ := ordinary.named
    cases parts
    rw [Text.isNameChar_of_isNameStart starts] at mark
    cases mark

theorem Tied.nil_inv (tied : Tied word [] other) : other = [] := by
  obtain ⟨_, _, renamed⟩ := tied
  exact renamed.nil_inv

theorem Tied.cons_inv (tied : Tied word (c :: text) other) :
    ∃ rest before, other = c :: rest ∧ ¬ Apart before ∧ Renamed word (c :: before) text rest := by
  obtain ⟨before, together, renamed⟩ := tied
  generalize parts : c :: text = whole at renamed
  cases renamed with
  | nil => cases parts
  | keep later =>
    cases parts
    exact ⟨_, before, rfl, together, later⟩
  | swap _ apart => exact absurd apart together

theorem Tied.name_inv (tied : Tied word (c :: text) other) (named : Text.isNameChar c = true) :
    ∃ rest, other = c :: rest ∧ Held word text rest := by
  obtain ⟨rest, before, same, _, renamed⟩ := tied.cons_inv
  exact ⟨rest, same, c, before, named, renamed⟩

-- Behind a dot that follows a name character nothing is replaced.
theorem Held.dot_inv (held : Held word ('.' :: text) other) :
    ∃ rest, other = '.' :: rest ∧ Tied word text rest := by
  obtain ⟨c, before, named, renamed⟩ := held
  generalize parts : '.' :: text = whole at renamed
  cases renamed with
  | nil => cases parts
  | keep later =>
    cases parts
    refine ⟨_, rfl, _, ?_, later⟩
    rintro ⟨_, second⟩
    cases Option.some.inj (second rfl)
    exact absurd named (by decide)
  | swap _ apart =>
    rw [apart.1] at named
    cases named

namespace Lexeme
open Text

-- What is said about two texts is said about what is left of both.
def Behind (step : Text → Text → Prop) (size : Nat) (text other : Text) : Prop :=
  step (text.drop size) (other.drop size)

-- A run of name characters.
theorem run_tied {within : Char → Bool} (tied : Tied word text other)
    (names : ∀ c, within c = true → isNameChar c = true) :
    run within other = run within text ∧
      Behind (Tied word) (run within text) text other ∧
      (0 < run within text → Behind (Held word) (run within text) text other) := by
  induction text generalizing other with
  | nil =>
    obtain rfl := tied.nil_inv
    exact ⟨rfl, tied, fun positive => absurd positive (Nat.lt_irrefl 0)⟩
  | cons c rest ih =>
    obtain ⟨later, before, rfl, together, renamed⟩ := tied.cons_inv
    by_cases accepted : within c = true
    · have held : Held word rest later := ⟨c, before, names c accepted, renamed⟩
      obtain ⟨size, tied', held'⟩ := ih held.tied
      rw [run, if_pos accepted, run, if_pos accepted, size]
      refine ⟨rfl, tied', fun _ => ?_⟩
      rcases Nat.eq_zero_or_pos (run within rest) with none_ | some_
      · rw [none_]
        exact held
      · exact held' some_
    · rw [run, if_neg accepted, run, if_neg accepted]
      exact ⟨rfl, tied, fun positive => absurd positive (Nat.lt_irrefl 0)⟩

theorem run_held {within : Char → Bool} (held : Held word text other)
    (names : ∀ c, within c = true → isNameChar c = true) :
    run within other = run within text ∧ Behind (Held word) (run within text) text other := by
  obtain ⟨size, _, behind⟩ := run_tied held.tied names
  refine ⟨size, ?_⟩
  rcases Nat.eq_zero_or_pos (run within text) with none_ | some_
  · rw [none_]
    exact held
  · exact behind some_

theorem run1?_tied {within : Char → Bool} (tied : Tied word text other)
    (names : ∀ c, within c = true → isNameChar c = true) :
    run1? within other = run1? within text ∧
      ∀ size, run1? within text = some size → Behind (Held word) size text other := by
  obtain ⟨same, _, behind⟩ := run_tied tied names
  unfold run1?
  rw [same]
  refine ⟨rfl, fun size read => ?_⟩
  split at read
  · cases read
  · rename_i count counted
    cases read
    have held := behind (by omega)
    rwa [counted] at held

theorem isNameChar_of_isHexDigit (c : Char) (digit : isHexDigit c = true) : isNameChar c = true := by
  simp only [isHexDigit, Bool.or_eq_true] at digit
  have letter : ∀ low high : Char, ('A' ≤ low ∧ high ≤ 'Z' ∨ 'a' ≤ low ∧ high ≤ 'z') →
      low ≤ c → c ≤ high → isNameChar c = true := by
    intro low high limits above below
    simp only [Char.le_def, UInt32.le_iff_toNat_le] at limits above below
    have bounds : 65 ≤ c.toNat ∧ c.toNat ≤ 90 ∨ 97 ≤ c.toNat ∧ c.toNat ≤ 122 := by
      rcases limits with ⟨first, last⟩ | ⟨first, last⟩
      · exact .inl ⟨first.trans above, below.trans last⟩
      · exact .inr ⟨first.trans above, below.trans last⟩
    have ascii : c.toNat < 128 := by omega
    have alphabetic : c.isAlphanum = true := by
      delta Char.isAlphanum Char.isAlpha Char.isUpper Char.isLower
      simp only [Bool.or_eq_true, Bool.and_eq_true, decide_eq_true_eq, UInt32.le_iff_toNat_le]
      rcases bounds with large | small
      · exact .inl (.inl large)
      · exact .inl (.inr small)
    simp [isNameChar, isWord, ascii, alphabetic]
  rcases digit with ((decimal | small) | large) | gap
  · exact isNameChar_of_isDecimal decimal
  · rw [Bool.and_eq_true, decide_eq_true_eq, decide_eq_true_eq] at small
    exact letter 'a' 'f' (by decide) small.1 small.2
  · rw [Bool.and_eq_true, decide_eq_true_eq, decide_eq_true_eq] at large
    exact letter 'A' 'F' (by decide) large.1 large.2
  · rw [eq_of_beq gap]
    decide

theorem isNameChar_of_isDigitOrGap (c : Char) (digit : isDigitOrGap c = true) :
    isNameChar c = true := by
  simp only [isDigitOrGap, Bool.or_eq_true] at digit
  rcases digit with decimal | gap
  · exact isNameChar_of_isDecimal decimal
  · rw [eq_of_beq gap]
    decide

-- Where a word is replaced no digit is read in either text.
theorem decimals_renamed (ordinary : Ordinary word) (renamed : Renamed word before text other) :
    run1? isDecimal other = run1? isDecimal text ∧
      ∀ size, run1? isDecimal text = some size → Behind (Held word) size text other := by
  cases renamed with
  | nil => exact ⟨rfl, nofun⟩
  | @keep c before text other later =>
    by_cases decimal : isDecimal c = true
    · have held : Held word text other := ⟨c, before, isNameChar_of_isDecimal decimal, later⟩
      obtain ⟨same, behind⟩ := run_held held fun c => isNameChar_of_isDecimal
      rw [run1?, run1?, run, run, if_pos decimal, if_pos decimal, same]
      refine ⟨rfl, ?_⟩
      rintro size read
      cases read
      exact behind
    · simp [run1?, run, decimal]
  | swap reserved =>
    obtain ⟨_, ⟨c, rest, rfl, starts, _⟩, _⟩ := reserved_letters reserved
    obtain ⟨d, rest', rfl, starts', _⟩ := ordinary.named
    simp [run1?, run, isDecimal_of_isNameStart starts, isDecimal_of_isNameStart starts']

theorem run_gap {within : Char → Bool} (ordinary : Ordinary word)
    (renamed : Renamed word before text other) (gap : ∀ c, within c = true → isNameChar c = false) :
    run within other = run within text ∧
      ∃ passed, Behind (Renamed word passed) (run within text) text other := by
  have stops : ∀ {name more}, Text.IsName name → run within (name ++ more) = 0 := by
    rintro _ more ⟨c, rest, rfl, starts, _⟩
    cases accepted : within c with
    | false => simp [run, accepted]
    | true =>
      have unnamed := gap c accepted
      rw [isNameChar_of_isNameStart starts] at unnamed
      cases unnamed
  induction renamed with
  | nil => exact ⟨rfl, [], .nil⟩
  | @keep c before text other later ih =>
    by_cases accepted : within c = true
    · rw [run, if_pos accepted, run, if_pos accepted, ih.1]
      exact ⟨rfl, ih.2⟩
    · rw [run, if_neg accepted, run, if_neg accepted]
      exact ⟨rfl, before, later.keep⟩
  | @swap spelling before text other reserved apart ends later =>
    rw [stops ordinary.named, stops (reserved_letters reserved).2.1]
    exact ⟨rfl, before, .swap reserved apart ends later⟩

theorem name?_renamed (ordinary : Ordinary word) (renamed : Renamed word before text other) :
    name? other = name? text := by
  cases renamed with
  | nil => rfl
  | @keep c before text other later =>
    by_cases starts : isNameStart c = true
    · have held : Held word text other := ⟨c, before, isNameChar_of_isNameStart starts, later⟩
      rw [name?, if_pos starts, name?, if_pos starts, (run_held held fun _ => id).1]
    · rw [name?, if_neg starts, name?, if_neg starts]
  | @swap spelling before text other reserved apart ends later =>
    obtain ⟨size, ⟨c, rest, rfl, starts, letters⟩, _⟩ := reserved_letters reserved
    obtain ⟨d, rest', rfl, starts', letters'⟩ := ordinary.named
    rw [Segment.name?_append starts letters ends,
      Segment.name?_append starts' letters' (later.notName ends), size,
      ordinary.size]

theorem propertyName?_renamed (ordinary : Ordinary word) (renamed : Renamed word before text other) :
    propertyName? other = propertyName? text := by
  have blank : ∀ c, isMemberGap c = true → isNameChar c = false := by
    intro c gap
    simp only [isMemberGap, Bool.or_eq_true, beq_iff_eq] at gap
    rcases gap with ((rfl | rfl) | rfl) | rfl <;> decide
  obtain ⟨size, _, behind⟩ := run_gap ordinary renamed blank
  rw [propertyName?, propertyName?, size]
  exact congrArg _ (name?_renamed ordinary behind)

theorem member?_mark (question : text.head? ≠ some '?') (dot : text.head? ≠ some '.') :
    member? text = none := by
  unfold member?
  split
  · exact absurd rfl question
  · exact absurd rfl dot
  · rfl

theorem member?_renamed (ordinary : Ordinary word) (renamed : Renamed word before text other) :
    member? other = member? text := by
  have same : ∀ m, isNameChar m = false → (other.head? = some m ↔ text.head? = some m) := by
    intro m mark
    constructor
    · intro head
      obtain ⟨rest, rfl⟩ := List.head?_eq_some_iff.mp head
      obtain ⟨later, rfl⟩ := renamed.mark_of ordinary mark
      rfl
    · intro head
      obtain ⟨rest, rfl⟩ := List.head?_eq_some_iff.mp head
      obtain ⟨later, rfl, _⟩ := renamed.mark_inv mark
      rfl
  by_cases question : text.head? = some '?'
  · obtain ⟨rest, rfl⟩ := List.head?_eq_some_iff.mp question
    obtain ⟨later, rfl, renamed'⟩ := renamed.mark_inv (by decide)
    by_cases dot : rest.head? = some '.'
    · obtain ⟨rest', rfl⟩ := List.head?_eq_some_iff.mp dot
      obtain ⟨later', rfl, behind⟩ := renamed'.mark_inv (by decide)
      rw [member?, member?, propertyName?_renamed ordinary behind]
    · have dot' : later.head? ≠ some '.' := by
        intro head
        obtain ⟨rest', rfl⟩ := List.head?_eq_some_iff.mp head
        obtain ⟨later', rfl⟩ := renamed'.mark_of ordinary (by decide)
        exact dot rfl
      have unread : ∀ {text : Text}, text.head? ≠ some '.' → member? ('?' :: text) = none := by
        intro text apart
        unfold member?
        split
        · rename_i parts
          cases parts
          exact absurd rfl apart
        · rename_i parts
          cases parts
        · rfl
      rw [unread dot, unread dot']
  · by_cases dot : text.head? = some '.'
    · obtain ⟨rest, rfl⟩ := List.head?_eq_some_iff.mp dot
      obtain ⟨later, rfl, behind⟩ := renamed.mark_inv (by decide)
      rw [member?, member?, propertyName?_renamed ordinary behind]
    · rw [member?_mark question dot, member?_mark (fun head => question ((same _ (by decide)).mp head))
        fun head => dot ((same _ (by decide)).mp head)]

theorem fraction_renamed (held : Held word text other) :
    fraction other = fraction text ∧ Behind (Tied word) (fraction text) text other := by
  cases text with
  | nil =>
    obtain rfl := held.tied.nil_inv
    exact ⟨rfl, held.tied⟩
  | cons c rest =>
    by_cases dot : c = '.'
    · subst dot
      obtain ⟨later, rfl, tied⟩ := held.dot_inv
      obtain ⟨size, behind, _⟩ := run_tied tied isNameChar_of_isDigitOrGap
      exact ⟨congrArg (· + 1) size, behind⟩
    · obtain ⟨later, _, rfl, _⟩ := held.tied.cons_inv
      have none_ : ∀ text, fraction (c :: text) = 0 := fun text => fraction.eq_2 _ (by simp [dot])
      rw [none_, none_]
      exact ⟨rfl, held.tied⟩

theorem decimal?_cons (plain : c ≠ '.') (rest : Text) :
    decimal? (c :: rest) = if isDecimal c then
      some (run isDigitOrGap rest + 1 + fraction (rest.drop (run isDigitOrGap rest))) else none :=
  decimal?.eq_2 _ _ fun _ _ same => absurd same plain

theorem decimal?_name (named : IsName name) (more : Text) : decimal? (name ++ more) = none := by
  obtain ⟨c, rest, rfl, starts, _⟩ := named
  have dot : c ≠ '.' := by
    rintro rfl
    exact absurd starts (by decide)
  rw [List.cons_append, decimal?_cons dot, isDecimal_of_isNameStart starts]
  rfl

theorem decimal?_renamed (ordinary : Ordinary word) (renamed : Renamed word before text other) :
    decimal? other = decimal? text ∧
      ∀ size, decimal? text = some size → Behind (Tied word) size text other := by
  cases renamed with
  | nil => exact ⟨rfl, nofun⟩
  | swap reserved =>
    rw [decimal?_name ordinary.named, decimal?_name (reserved_letters reserved).2.1]
    exact ⟨rfl, nofun⟩
  | @keep c before text other later =>
    by_cases dot : c = '.'
    · subst dot
      cases later with
      | nil => exact ⟨rfl, nofun⟩
      | @keep d before text other later =>
        by_cases decimal : isDecimal d = true
        · have held : Held word text other := ⟨d, _, isNameChar_of_isDecimal decimal, later⟩
          obtain ⟨size, behind⟩ := run_held held isNameChar_of_isDigitOrGap
          rw [decimal?, if_pos decimal, decimal?, if_pos decimal, size]
          refine ⟨rfl, ?_⟩
          rintro _ ⟨⟩
          exact behind.tied
        · rw [decimal?, if_neg decimal, decimal?, if_neg decimal]
          exact ⟨rfl, nofun⟩
      | swap reserved =>
        obtain ⟨d, rest, rfl, starts, _⟩ := (reserved_letters reserved).2.1
        obtain ⟨d', rest', rfl, starts', _⟩ := ordinary.named
        simp [decimal?, isDecimal_of_isNameStart starts, isDecimal_of_isNameStart starts']
    · rw [decimal?_cons dot, decimal?_cons dot]
      by_cases decimal : isDecimal c = true
      · have held : Held word text other := ⟨c, _, isNameChar_of_isDecimal decimal, later⟩
        obtain ⟨size, behind⟩ := run_held held isNameChar_of_isDigitOrGap
        obtain ⟨size', behind'⟩ := fraction_renamed behind
        rw [if_pos decimal, if_pos decimal, size, size']
        refine ⟨rfl, ?_⟩
        rintro _ ⟨⟩
        have passed : run isDigitOrGap text + 1 + fraction (text.drop (run isDigitOrGap text))
            = run isDigitOrGap text + fraction (text.drop (run isDigitOrGap text)) + 1 := by omega
        rw [passed, Behind, List.drop_succ_cons, List.drop_succ_cons, ← List.drop_drop, ← List.drop_drop]
        exact behind'
      · rw [if_neg decimal, if_neg decimal]
        exact ⟨rfl, nofun⟩

theorem radixNumber?_cons (plain : c ≠ '0') (rest : Text) : radixNumber? (c :: rest) = none :=
  radixNumber?.eq_2 _ (by simp [plain])

theorem radixNumber?_name (named : IsName name) (more : Text) : radixNumber? (name ++ more) = none := by
  obtain ⟨c, rest, rfl, starts, _⟩ := named
  refine radixNumber?_cons ?_ _
  rintro rfl
  exact absurd starts (by decide)

theorem radixNumber?_renamed (ordinary : Ordinary word) (renamed : Renamed word before text other) :
    radixNumber? other = radixNumber? text ∧
      ∀ size, radixNumber? text = some size → Behind (Tied word) size text other := by
  cases renamed with
  | nil => exact ⟨rfl, nofun⟩
  | swap reserved =>
    rw [radixNumber?_name ordinary.named, radixNumber?_name (reserved_letters reserved).2.1]
    exact ⟨rfl, nofun⟩
  | @keep c before text other later =>
    by_cases zero : c = '0'
    · subst zero
      have held : Held word text other := ⟨'0', _, by decide, later⟩
      cases text with
      | nil =>
        obtain rfl := held.tied.nil_inv
        exact ⟨rfl, nofun⟩
      | cons base rest =>
        obtain ⟨later', _, rfl, _⟩ := held.tied.cons_inv
        by_cases listed : base ∈ ['x', 'X', 'o', 'O', 'b', 'B']
        · have named : isNameChar base = true := by
            have table : ∀ base ∈ ['x', 'X', 'o', 'O', 'b', 'B'], isNameChar base = true := by decide
            exact table base listed
          obtain ⟨_, same, held'⟩ := held.tied.name_inv named
          cases same
          obtain ⟨size, behind⟩ := run1?_tied held'.tied isNameChar_of_isHexDigit
          rw [radixNumber?, if_pos listed, radixNumber?, if_pos listed, size]
          refine ⟨rfl, ?_⟩
          intro size read
          obtain ⟨digits, read', rfl⟩ := Option.map_eq_some_iff.mp read
          exact (behind digits read').tied
        · rw [radixNumber?, if_neg listed, radixNumber?, if_neg listed]
          exact ⟨rfl, nofun⟩
    · rw [radixNumber?_cons zero, radixNumber?_cons zero]
      exact ⟨rfl, nofun⟩

theorem exponentDigits?_unsigned (plus : text.head? ≠ some '+') (minus : text.head? ≠ some '-') :
    exponentDigits? text = run1? isDecimal text := by
  unfold exponentDigits?
  split
  · exact absurd rfl plus
  · exact absurd rfl minus
  · rfl

theorem exponentDigits?_renamed (ordinary : Ordinary word) (renamed : Renamed word before text other) :
    exponentDigits? other = exponentDigits? text ∧
      ∀ size, exponentDigits? text = some size → Behind (Held word) size text other := by
  have signed : ∀ sign, isNameChar sign = false →
      (∀ rest, exponentDigits? (sign :: rest) = (run1? isDecimal rest).map (· + 1)) →
      text.head? = some sign → exponentDigits? other = exponentDigits? text ∧
        ∀ size, exponentDigits? text = some size → Behind (Held word) size text other := by
    intro sign mark reads head
    obtain ⟨rest, rfl⟩ := List.head?_eq_some_iff.mp head
    obtain ⟨later, rfl, renamed'⟩ := renamed.mark_inv mark
    obtain ⟨same, behind⟩ := decimals_renamed ordinary renamed'
    rw [reads, reads, same]
    refine ⟨rfl, fun size read => ?_⟩
    obtain ⟨digits, read', rfl⟩ := Option.map_eq_some_iff.mp read
    exact behind digits read'
  by_cases plus : text.head? = some '+'
  · exact signed '+' (by decide) (fun _ => rfl) plus
  by_cases minus : text.head? = some '-'
  · exact signed '-' (by decide) (fun _ => rfl) minus
  have unsigned : ∀ sign, isNameChar sign = false → text.head? ≠ some sign →
      other.head? ≠ some sign := by
    intro sign mark apart head
    obtain ⟨rest, rfl⟩ := List.head?_eq_some_iff.mp head
    obtain ⟨later, rfl⟩ := renamed.mark_of ordinary mark
    exact apart rfl
  rw [exponentDigits?_unsigned plus minus, exponentDigits?_unsigned (unsigned _ (by decide) plus)
    (unsigned _ (by decide) minus)]
  exact decimals_renamed ordinary renamed

theorem exponent_renamed (ordinary : Ordinary word) (tied : Tied word text other) :
    exponent other = exponent text ∧ Behind (Tied word) (exponent text) text other := by
  cases text with
  | nil =>
    obtain rfl := tied.nil_inv
    exact ⟨rfl, tied⟩
  | cons c rest =>
    obtain ⟨later, before, rfl, _, renamed⟩ := tied.cons_inv
    by_cases letter : c = 'e' ∨ c = 'E'
    · have reads : ∀ rest, exponent (c :: rest) = ((exponentDigits? rest).map (· + 1)).getD 0 := by
        intro rest
        rcases letter with rfl | rfl <;> rfl
      obtain ⟨same, behind⟩ := exponentDigits?_renamed ordinary renamed
      rw [reads, reads, same]
      cases read : exponentDigits? rest with
      | none => exact ⟨rfl, tied⟩
      | some digits => exact ⟨rfl, (behind digits read).tied⟩
    · rw [not_or] at letter
      have reads : ∀ rest, exponent (c :: rest) = 0 := fun rest =>
        exponent.eq_3 _ (by simp [letter.1]) (by simp [letter.2])
      rw [reads, reads]
      exact ⟨rfl, tied⟩

theorem bigSuffix_renamed (tied : Tied word text other) : bigSuffix other = bigSuffix text := by
  cases text with
  | nil =>
    obtain rfl := tied.nil_inv
    rfl
  | cons c rest =>
    obtain ⟨later, _, rfl, _⟩ := tied.cons_inv
    by_cases letter : c = 'n'
    · subst letter
      rfl
    · rw [bigSuffix.eq_2 _ (by simp [letter]), bigSuffix.eq_2 _ (by simp [letter])]

-- Where a word is replaced no number is read in either text, and what belongs to a number is kept.
theorem number?_renamed (ordinary : Ordinary word) (renamed : Renamed word before text other) :
    number? other = number? text := by
  obtain ⟨radix, radixBehind⟩ := radixNumber?_renamed ordinary renamed
  obtain ⟨decimal, decimalBehind⟩ := decimal?_renamed ordinary renamed
  unfold number?
  rw [radix, decimal]
  cases based : radixNumber? text with
  | some size =>
    have suffix := bigSuffix_renamed (radixBehind size based)
    simp only [Option.some_or, Option.map_some, suffix]
  | none =>
    cases read : decimal? text with
    | none => rfl
    | some size =>
      obtain ⟨raised, behind⟩ := exponent_renamed ordinary (decimalBehind size read)
      rw [Behind, List.drop_drop, List.drop_drop] at behind
      simp only [Option.none_or, Option.map_some, raised, bigSuffix_renamed behind]

theorem veil_renamed (ordinary : Ordinary word) (renamed : Renamed word before text other) :
    other.map veil = text.map veil := by
  have letters : ∀ {name : Text}, (∀ c ∈ name, isWord c = true) →
      name.map veil = List.replicate name.length 'a' := by
    intro name words
    rw [List.eq_replicate_iff, List.length_map]
    refine ⟨rfl, ?_⟩
    simp only [List.mem_map, forall_exists_index, and_imp, forall_apply_eq_imp_iff₂]
    intro c member
    rw [veil, if_pos (words c member)]
  induction renamed with
  | nil => rfl
  | keep later ih => rw [List.map_cons, List.map_cons, ih]
  | swap reserved apart ends later ih =>
    obtain ⟨size, _, words⟩ := reserved_letters reserved
    rw [List.map_append, List.map_append, ih, letters words, letters ordinary.letters, size, ordinary.size]

end Lexeme
end ModuleBundler
