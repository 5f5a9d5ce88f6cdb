import ModuleBundler.Proofs.Renamed
import ModuleBundler.Proofs.Syntax.Nested

/-!
What nested import and export words mean to the parser: a text with other names in their place is read
token by token as it was, so the two differ only in the words themselves.
-/
namespace ModuleBundler

open Masking (NotName)

-- What has been passed in two texts, the last character first; `replaced` tells whether a word that was
-- replaced came last.
inductive Passed (word : Text) : Bool → Text → Text → Prop where
  | nil : Passed word false [] []
  | keep (apart : replaced = true → Text.isNameChar c = false)
      (earlier : Passed word replaced before before') : Passed word false (c :: before) (c :: before')
  | swap (reserved : spelling ∈ Lexer.reserved) (earlier : Passed word replaced before before') :
      Passed word true (spelling.reverse ++ before) (word.reverse ++ before')

variable {word text other before before' : Text} {replaced : Bool}

namespace Passed

theorem isEmpty (ordinary : Ordinary word) (passed : Passed word replaced before before') :
    before'.isEmpty = before.isEmpty := by
  cases passed with
  | nil | keep => rfl
  | @swap spelling before before' _ reserved earlier =>
    have filled : ∀ {name rest : Text}, name.length = 6 → (name.reverse ++ rest).isEmpty = false := by
      intro name rest size
      rw [List.isEmpty_eq_false_iff]
      intro empty
      have total := congrArg List.length empty
      rw [List.length_append, List.length_reverse, size] at total
      cases rest <;> simp at total
    rw [filled ordinary.size, filled (reserved_letters reserved).1]

-- Characters that both texts go on with.
theorem keeps (passed : Passed word replaced before before') (chars : Text) (some_ : chars ≠ [])
    (apart : replaced = true → NotName chars) :
    Passed word false (chars.reverse ++ before) (chars.reverse ++ before') := by
  induction chars generalizing replaced before before' with
  | nil => exact absurd rfl some_
  | cons c chars ih =>
    have next : Passed word false (c :: before) (c :: before') :=
      passed.keep fun behind => apart behind c rfl
    rw [List.reverse_cons, List.append_assoc, List.append_assoc]
    cases chars with
    | nil => exact next
    | cons d chars => exact ih next (List.cons_ne_nil _ _) nofun

theorem startsWith (passed : Passed word false before before')
    (letters : ∀ c ∈ part, Text.isNameChar c = true) :
    Text.startsWith before' part = Text.startsWith before part := by
  unfold Text.startsWith
  induction part generalizing before before' with
  | nil => simp
  | cons m part ih =>
    generalize last : false = kept at passed
    cases passed with
    | nil => rfl
    | @keep replaced c before before' apart earlier =>
      rw [List.isPrefixOf, List.isPrefixOf]
      by_cases same : m = c
      · subst same
        cases replaced with
        | true =>
          have unnamed := apart rfl
          rw [letters m List.mem_cons_self] at unnamed
          cases unnamed
        | false => rw [ih earlier fun d member => letters d (List.mem_cons_of_mem _ member)]
      · rw [beq_false_of_ne same, Bool.false_and, Bool.false_and]
    | swap => cases last

-- None of the words that a slash may follow is the word or what it replaces.
theorem operandWords (ordinary : Ordinary word) (passed : Passed word replaced before before') :
    Lexer.operandWordsReversed.any (Text.startsWith before')
      = Lexer.operandWordsReversed.any (Text.startsWith before) := by
  have letters : ∀ part ∈ Lexer.operandWordsReversed, ∀ c ∈ part, Text.isNameChar c = true := by decide
  have short : ∀ part ∈ Lexer.operandWordsReversed, part.length ≤ 6 := by decide
  cases replaced with
  | false =>
    rw [Bool.eq_iff_iff, List.any_eq_true, List.any_eq_true]
    refine exists_congr fun part => and_congr_right fun member => ?_
    rw [passed.startsWith (letters part member)]
  | true =>
    have none_ : ∀ {name rest : Text}, name.length = 6 →
        Lexer.operandWordsReversed.all (fun part => !Text.startsWith name.reverse part) = true →
        Lexer.operandWordsReversed.any (Text.startsWith (name.reverse ++ rest)) = false := by
      intro name rest size apart
      rw [List.any_eq_false]
      intro part member starts
      have whole : part <+: name.reverse := by
        refine List.prefix_of_prefix_length_le (List.isPrefixOf_iff_prefix.mp starts)
          (List.prefix_append _ rest) ?_
        rw [List.length_reverse, size]
        exact short part member
      have found : Text.startsWith name.reverse part = true := List.isPrefixOf_iff_prefix.mpr whole
      have unfound := List.all_eq_true.mp apart part member
      rw [found] at unfound
      cases unfound
    generalize last : true = swapped at passed
    cases passed with
    | nil | keep => cases last
    | @swap spelling before before' _ reserved earlier =>
      have table : ∀ spelling ∈ Lexer.reserved, Lexer.operandWordsReversed.all
          (fun part => !Text.startsWith spelling.reverse part) = true := by decide
      rw [none_ ordinary.size ordinary.divided,
        none_ (reserved_letters reserved).1 (table spelling reserved)]

theorem head_name {name : Text} (named : Text.IsName name) (rest : Text) :
    ∃ c later, name.reverse ++ rest = c :: later ∧ Text.isNameChar c = true := by
  have nonempty : name.reverse ≠ [] := by
    obtain ⟨c, later, rfl, _⟩ := named
    simp
  obtain ⟨c, later, same⟩ := List.exists_cons_of_ne_nil nonempty
  refine ⟨c, later ++ rest, by rw [same, List.cons_append], named.chars c ?_⟩
  rw [← List.mem_reverse, same]
  exact List.mem_cons_self

theorem operandExpected (ordinary : Ordinary word) (passed : Passed word replaced before before') :
    Lexer.operandExpected before' = Lexer.operandExpected before := by
  have unmarked : ∀ {c}, Text.isNameChar c = true → Lexer.operandMarks.contains c = false := by
    intro c named
    have table : ∀ mark ∈ Lexer.operandMarks, Text.isNameChar mark = false := by decide
    cases listed : Lexer.operandMarks.contains c with
    | false => rfl
    | true =>
      rw [table c (List.contains_iff_mem.mp listed)] at named
      cases named
  have heads : ∀ {replaced before before'}, Passed word replaced before before' →
      (before'.head?.any fun c => Lexer.operandMarks.contains c)
        = (before.head?.any fun c => Lexer.operandMarks.contains c) := by
    intro replaced before before' passed
    cases passed with
    | nil | keep => rfl
    | swap reserved =>
      obtain ⟨c, later, same, named⟩ := head_name ordinary.named _
      obtain ⟨d, later', same', named'⟩ := head_name (reserved_letters reserved).2.1 _
      rw [same, same', List.head?_cons, List.head?_cons, Option.any_some, Option.any_some, unmarked named,
        unmarked named']
  cases passed with
  | nil => rfl
  | @keep _ c before before' _ earlier =>
    by_cases blank : c = ' '
    · rw [blank, Lexer.operandExpected_blank, Lexer.operandExpected_blank, heads earlier,
        earlier.operandWords ordinary]
    · rw [Lexer.operandExpected_visible blank, Lexer.operandExpected_visible blank]
  | swap reserved =>
    obtain ⟨c, later, same, named⟩ := head_name ordinary.named _
    obtain ⟨d, later', same', named'⟩ := head_name (reserved_letters reserved).2.1 _
    have visible : ∀ {c}, Text.isNameChar c = true → c ≠ ' ' := by
      rintro _ named rfl
      exact absurd named (by decide)
    rw [same, same', Lexer.operandExpected_visible (visible named),
      Lexer.operandExpected_visible (visible named'), unmarked named, unmarked named']

end Passed

theorem Renamed.refl (before text : Text) : Renamed word before text text := by
  induction text generalizing before with
  | nil => exact .nil
  | cons c rest ih => exact .keep (ih _)

theorem Renamed.keeps (chars : Text) (later : Renamed word (chars.reverse ++ before) text other) :
    Renamed word before (chars ++ text) (chars ++ other) := by
  induction chars generalizing before with
  | nil => exact later
  | cons c chars ih =>
    rw [List.reverse_cons, List.append_assoc] at later
    exact .keep (ih later)

namespace Lexer
open Terminal Lexeme

variable {passed passed' : Text}

-- Readers that do not look at letters.
theorem seen {α : Type} {reader : Text → α} (ordinary : Ordinary word)
    (renamed : Renamed word before text other)
    (blind : ∀ text, reader (text.map Text.veil) = reader text) : reader other = reader text := by
  rw [← blind other, veil_renamed ordinary renamed, blind text]

theorem ignored?_renamed (ordinary : Ordinary word) (renamed : Renamed word before text other)
    (start : passed'.isEmpty = passed.isEmpty) : ignored? passed' other = ignored? passed text := by
  rw [ignored?, ignored?, seen ordinary renamed blanks?_veil, seen ordinary renamed comment?_veil,
    seen ordinary renamed hashbang?_veil, start]

theorem leafSize?_renamed (leaf : Leaf) (other_ : leaf ≠ .regex) (ordinary : Ordinary word)
    (renamed : Renamed word before text other) :
    leafSize? leaf passed' other = leafSize? leaf passed text := by
  cases leaf with
  | name => exact name?_renamed ordinary renamed
  | member => exact member?_renamed ordinary renamed
  | number => exact number?_renamed ordinary renamed
  | string => exact seen ordinary renamed string?_veil
  | template => exact seen ordinary renamed template?_veil
  | regex => exact absurd rfl other_
  | punctuator => exact seen ordinary renamed punctuator?_veil

-- Flags run into the words behind them, so no word is replaced right behind a regex literal.
theorem regex?_renamed (ordinary : Ordinary word) (renamed : Renamed word before text other)
    (operand : operandExpected passed' = operandExpected passed)
    (kept : ∀ size, regex? passed text = some size → ∃ behind later,
      other = text.take size ++ later ∧ Renamed word behind (text.drop size) later) :
    regex? passed' other = regex? passed text := by
  unfold regex? at kept ⊢
  rw [operand]
  split
  · rename_i expected
    rw [if_pos expected] at kept
    unfold Lexeme.regex? at kept ⊢
    rw [seen ordinary renamed regexBody?_veil]
    cases read : regexBody? text with
    | none => rfl
    | some body =>
      rw [read] at kept
      obtain ⟨behind, later, rfl, renamed'⟩ := kept _ rfl
      have stops : ∀ c, (text.drop (body + run isFlag (text.drop body))).head? = some c →
          isFlag c = false := by
        rw [← List.drop_drop]
        exact run_stops isFlag _
      have apart : ∀ c, later.head? = some c → isFlag c = false := by
        generalize text.drop (body + run isFlag (text.drop body)) = left at renamed' stops
        cases renamed' with
        | nil => nofun
        | keep => exact stops
        | swap reserved =>
          have flags : ∀ spelling ∈ Lexer.reserved, ∀ more : Text,
              ∃ c, (spelling ++ more).head? = some c ∧ isFlag c = true := by
            intro spelling member more
            simp only [Lexer.reserved, List.mem_cons, List.not_mem_nil, or_false] at member
            rcases member with rfl | rfl
            · exact ⟨'i', rfl, rfl⟩
            · exact ⟨'e', rfl, rfl⟩
          obtain ⟨c, head, flag⟩ := flags _ reserved _
          rw [stops c head] at flag
          cases flag
      have inside : body ≤ text.length := (regexBody?_line read).1
      have flags := run_le isFlag (text.drop body)
      have left : (text.take (body + run isFlag (text.drop body)) ++ later).drop body
          = (text.drop body).take (run isFlag (text.drop body)) ++ later := by
        rw [List.drop_append_of_le_length, List.drop_take, Nat.add_sub_cancel_left]
        rw [List.length_take]
        omega
      rw [Option.map_some, Option.map_some, left, run_append_apart _ _ apart, run_all (run_within _ _),
        List.length_take, Nat.min_eq_left flags]
  · rfl

theorem take_held (held : Held word text other) :
    other.take (run Text.isNameChar text) = text.take (run Text.isNameChar text) := by
  induction text generalizing other with
  | nil => rfl
  | cons c rest ih =>
    by_cases named : Text.isNameChar c = true
    · obtain ⟨later, rfl, held'⟩ := held.tied.name_inv named
      rw [run, if_pos named, List.take_succ_cons, List.take_succ_cons, ih held']
    · rw [run, if_neg named]
      rfl

-- Where nothing is replaced the same lexeme is read.
theorem lexeme?_kept (ordinary : Ordinary word) (renamed : Renamed word (c :: before) text other)
    (came : Passed word replaced passed passed')
    (flags : ∀ size, regex? passed (c :: text) = some size → ∃ behind later,
      c :: other = (c :: text).take size ++ later ∧
        Renamed word behind ((c :: text).drop size) later) :
    lexeme? (outer ++ closers) passed' (c :: other) = lexeme? (outer ++ closers) passed (c :: text) := by
  have whole : Renamed word before (c :: text) (c :: other) := renamed.keep
  have code := mem_codeSets_closers
  have regex : leaf? (outer ++ closers) passed' (c :: other) .regex
      = leaf? (outer ++ closers) passed (c :: text) .regex := by
    rw [leaf?_same code .regex (by decide), leaf?_same code .regex (by decide), leafSize?, leafSize?,
      regex?_renamed ordinary whole (came.operandExpected ordinary) flags]
  have leaves : ∀ leaf, leaf ≠ .regex → leaf ≠ .name →
      leaf? (outer ++ closers) passed' (c :: other) leaf
        = leaf? (outer ++ closers) passed (c :: text) leaf := by
    intro leaf other_ unnamed
    rw [leaf?_same code leaf unnamed, leaf?_same code leaf unnamed,
      leafSize?_renamed leaf other_ ordinary whole]
  have name : leaf? (outer ++ closers) passed' (c :: other) .name
      = leaf? (outer ++ closers) passed (c :: text) .name := by
    have size : leafSize? .name passed' (c :: other) = leafSize? .name passed (c :: text) :=
      leafSize?_renamed .name (by decide) ordinary whole
    rw [leaf?, if_pos (contains_leaf code .name), leaf?, if_pos (contains_leaf code .name), size]
    by_cases starts : Text.isNameStart c = true
    · have held : Held word text other := ⟨c, before, Text.isNameChar_of_isNameStart starts, renamed⟩
      simp only [leafSize?, name?, if_pos starts, Option.map_some, List.take_succ_cons, take_held held]
    · simp only [leafSize?, name?, if_neg starts, Option.map_none]
  have spelledAlike : spelled? (outer ++ closers) (c :: other) = spelled? (outer ++ closers) (c :: text) := by
    unfold spelled?
    refine congrArg _ (List.find?_congr fun entry member => ?_)
    have entries : ∀ entry ∈ spelled, readAlone (outer ++ closers) entry.1 = false ∨
        entry.2 = [entry.2.headD ' '] := by decide
    rcases entries entry member with unread | single
    · rw [unread, Bool.false_and, Bool.false_and]
    · rw [single]
      rfl
  unfold lexeme?
  simp only [regex, ignored?_renamed ordinary whole (came.isEmpty ordinary), name,
    leaves .member (by decide) (by decide), leaves .number (by decide) (by decide), leaves .string (by decide) (by decide),
    leaves .template (by decide) (by decide), leaves .punctuator (by decide) (by decide), spelledAlike]

-- Nor where the text begins with a chunk that is kept.
theorem lexeme?_chunk (ordinary : Ordinary word) (came : Passed word replaced passed passed')
    (positive : 0 < size) (remains : rest ≠ [])
    (later : Renamed word ((rest.take size).reverse ++ before) (rest.drop size) other)
    (flags : ∀ length, regex? passed rest = some length → length = size) :
    lexeme? (outer ++ closers) passed' (rest.take size ++ other)
      = lexeme? (outer ++ closers) passed rest := by
  obtain ⟨c, text, rfl⟩ := List.exists_cons_of_ne_nil remains
  obtain ⟨count, rfl⟩ := Nat.exists_eq_succ_of_ne_zero (Nat.ne_of_gt positive)
  rw [List.take_succ_cons, List.reverse_cons, List.append_assoc, List.drop_succ_cons] at later
  have renamed := Renamed.keeps (text.take count) later
  rw [List.take_append_drop] at renamed
  rw [List.take_succ_cons, List.cons_append]
  refine lexeme?_kept ordinary renamed came fun length read => ?_
  rw [flags length read]
  exact ⟨_, other, rfl, later⟩

-- A word that declarations begin with, as it is read.
theorem lexeme?_reserved (read : lexeme? (outer ++ closers) before rest = some (.token terminal size))
    (begins : terminal = .keyword .import_ ∨ terminal = .keyword .export_) :
    rest.take size ∈ reserved ∧ NotName (rest.drop size) := by
  have code := mem_codeSets_closers
  rcases lexeme?_token_cases read with ⟨leaf, readLeaf⟩ | ⟨entry, among, rfl, alone, _⟩
  · by_cases named : leaf = .name
    · subst named
      rw [leaf?, if_pos (contains_leaf code .name)] at readLeaf
      obtain ⟨length, readSize, same⟩ := Option.map_eq_some_iff.mp readLeaf
      cases same
      constructor
      · by_contra free
        rw [nameTerminal_code code free] at begins
        rcases begins with leaf | leaf <;> cases leaf
      · simp only [leafSize?] at readSize
        cases rest with
        | nil => cases readSize
        | cons c rest =>
          rw [name?] at readSize
          split at readSize
          · cases readSize
            exact run_stops Text.isNameChar rest
          · cases readSize
    · rw [leaf?_same code leaf named] at readLeaf
      obtain ⟨length, _, same⟩ := Option.map_eq_some_iff.mp readLeaf
      cases same
      rcases begins with other | other <;> cases other
  · have entries : ∀ entry ∈ spelled, readAlone (outer ++ closers) entry.1 = true →
        entry.1 ≠ .keyword .import_ ∧ entry.1 ≠ .keyword .export_ := by decide
    have other := entries entry among alone
    rcases begins with same | same
    · exact absurd same other.1
    · exact absurd same other.2

theorem lexeme?_regex (read : regex? before rest = some size) :
    lexeme? (outer ++ closers) before rest = some (.token (.leaf .regex) size) := by
  have leaf : leaf? (outer ++ closers) before rest .regex = some (.token (.leaf .regex) size) := by
    rw [leaf?_same mem_codeSets_closers .regex nofun, leafSize?, read]
    rfl
  rw [lexeme?, leaf]
  rfl

end Lexer

namespace Syntax
open Terminal

-- A text from a place on, with another name in the place of each word that declarations begin with.
def renamedFrom (word : Text) : Nat → Cursor → Text
  | 0, cursor => cursor.rest
  | fuel + 1, cursor =>
    match Lexer.lexeme? (outer ++ closers) cursor.before cursor.rest with
    | none => cursor.rest
    | some (.skipped size) =>
      cursor.rest.take size ++ renamedFrom word fuel (cursor.advance size)
    | some (.token terminal size) =>
      (if (cursor.token terminal size).isReserved then word else cursor.rest.take size)
        ++ renamedFrom word fuel (cursor.advance size)

def renamed (word text : Text) : Text := renamedFrom word text.length (Cursor.start text)

-- No such word is glued to a number in front of it.
def Detached (text : Text) (tokens : List Token) : Prop :=
  ∀ token ∈ tokens, token.isReserved = true → Apart (text.take token.start).reverse

instance (text : Text) (tokens : List Token) : Decidable (Detached text tokens) :=
  inferInstanceAs (Decidable (∀ token ∈ tokens,
    token.isReserved = true → Apart (text.take token.start).reverse))

theorem isReserved_iff (token : Token) : token.isReserved = true ↔
    token.terminal = .keyword .import_ ∨ token.terminal = .keyword .export_ := by
  rw [Token.isReserved, Bool.or_eq_true, beq_iff_eq, beq_iff_eq]

theorem renamedFrom_renamed (word : Text) (fuel : Nat) (cursor : Cursor) (within : Cursor.Within text cursor)
    (detached : Detached text (readFrom fuel cursor).1) :
    Renamed word cursor.before cursor.rest (renamedFrom word fuel cursor) := by
  induction fuel generalizing cursor with
  | zero => exact .refl _ _
  | succ fuel ih =>
    have next : ∀ size, Detached text (readFrom fuel (cursor.advance size)).1 →
        Renamed word ((cursor.rest.take size).reverse ++ cursor.before) (cursor.rest.drop size)
          (renamedFrom word fuel (cursor.advance size)) := by
      intro size detached
      have later := ih _ (within.advance size) detached
      rwa [Cursor.before_advance, Cursor.rest_advance] at later
    have kept : ∀ size, Detached text (readFrom fuel (cursor.advance size)).1 →
        Renamed word cursor.before cursor.rest
          (cursor.rest.take size ++ renamedFrom word fuel (cursor.advance size)) := by
      intro size detached
      have whole := Renamed.keeps (cursor.rest.take size) (next size detached)
      rwa [List.take_append_drop] at whole
    unfold readFrom at detached
    unfold renamedFrom
    cases reads : Lexer.lexeme? (outer ++ closers) cursor.before cursor.rest with
    | none => exact .refl _ _
    | some lexed =>
      rw [reads] at detached
      cases lexed with
      | skipped size => exact kept size detached
      | token terminal size =>
        have behind : Detached text (readFrom fuel (cursor.advance size)).1 := fun token member =>
          detached token (List.mem_cons_of_mem _ member)
        by_cases reserved : (cursor.token terminal size).isReserved = true
        · obtain ⟨spelling, ends⟩ := Lexer.lexeme?_reserved reads ((isReserved_iff _).mp reserved)
          have apart := detached _ List.mem_cons_self reserved
          rw [show (cursor.token terminal size).start = cursor.offset from rfl, ← within.before] at apart
          have whole := Renamed.swap spelling apart ends (next size behind)
          simp only [if_pos reserved]
          rwa [List.take_append_drop] at whole
        · simp only [if_neg reserved]
          exact kept size behind

-- What a token is read as once its word is replaced.
def shown (token : Token) : Terminal := if token.isReserved then .leaf .name else token.terminal

-- Two readings that differ in the replaced words alone.
def Echoes (first second : List Token × Text) : Prop :=
  second.1.map Token.terminal = first.1.map shown ∧ (second.2 = [] ↔ first.2 = [])

theorem chunk_split {rest : Text} (later : Renamed word before (rest.drop size) other) :
    (rest.take size ++ other).take size = rest.take size ∧
      (rest.take size ++ other).drop size = other := by
  by_cases inside : size ≤ rest.length
  · have length : (rest.take size).length = size := by
      rw [List.length_take, Nat.min_eq_left inside]
    exact ⟨List.take_left' length, List.drop_left' length⟩
  · rw [List.drop_of_length_le (by omega)] at later
    have ended := later.nil_inv
    subst ended
    rw [List.append_nil, List.take_take, Nat.min_self, List.drop_take, Nat.sub_self]
    exact ⟨rfl, rfl⟩

-- The text with other names is read as the text is, with names in the place of those words.
theorem readFrom_renamed (ordinary : Ordinary word) (fuel : Nat) (cursor cursor' : Cursor)
    (within : Cursor.Within text cursor) (detached : Detached text (readFrom fuel cursor).1)
    (came : Passed word replaced cursor.before cursor'.before)
    (apart : replaced = true → NotName cursor.rest)
    (rest : cursor'.rest = renamedFrom word fuel cursor) :
    Echoes (readFrom fuel cursor) (readFrom fuel cursor') := by
  induction fuel generalizing cursor cursor' replaced with
  | zero =>
    rw [readFrom, readFrom, rest]
    exact ⟨rfl, Iff.rfl⟩
  | succ fuel ih =>
    by_cases ended : cursor.rest = []
    · have ended' : cursor'.rest = [] := by
        rw [rest, renamedFrom, ended, Lexer.lexeme?_nil]
      rw [readFrom_ended _ ended, readFrom_ended _ ended']
      exact ⟨rfl, Iff.rfl⟩
    -- A chunk that is kept is read alike, and so is what stands behind it.
    have kept : ∀ size, 0 < size → Detached text (readFrom fuel (cursor.advance size)).1 →
        cursor'.rest = cursor.rest.take size ++ renamedFrom word fuel (cursor.advance size) →
        (∀ length, Lexer.regex? cursor.before cursor.rest = some length → length = size) →
        Lexer.lexeme? (outer ++ closers) cursor'.before cursor'.rest
            = Lexer.lexeme? (outer ++ closers) cursor.before cursor.rest ∧
          Echoes (readFrom fuel (cursor.advance size)) (readFrom fuel (cursor'.advance size)) := by
      intro size positive detached rest flags
      have later := renamedFrom_renamed word fuel _ (within.advance size) detached
      rw [Cursor.before_advance, Cursor.rest_advance] at later
      refine ⟨?_, @ih false _ _ (within.advance size) detached ?_
        (fun same => absurd same Bool.false_ne_true) ?_⟩
      · rw [rest]
        exact Lexer.lexeme?_chunk ordinary came positive ended later flags
      · rw [Cursor.before_advance, Cursor.before_advance, rest, (chunk_split later).1]
        refine came.keeps _ ?_ fun behind c head => apart behind c ?_
        · rw [ne_eq, List.take_eq_nil_iff, not_or]
          exact ⟨Nat.ne_of_gt positive, ended⟩
        · rwa [List.head?_take, if_neg (Nat.ne_of_gt positive)] at head
      · rw [Cursor.rest_advance, rest, (chunk_split later).2]
    unfold renamedFrom at rest
    unfold readFrom at detached ⊢
    cases reads : Lexer.lexeme? (outer ++ closers) cursor.before cursor.rest with
    | none =>
      rw [reads] at rest
      dsimp only at rest
      have alike : Lexer.lexeme? (outer ++ closers) cursor'.before cursor'.rest = none := by
        rw [rest, ← reads]
        refine Lexer.lexeme?_before ?_ ?_
        · simp only [Lexer.regex?, came.operandExpected ordinary]
        · simp only [Lexer.ignored?, came.isEmpty ordinary]
      rw [alike, rest]
      exact ⟨rfl, Iff.rfl⟩
    | some lexed =>
      rw [reads] at detached rest
      cases lexed with
      | skipped size =>
        obtain ⟨alike, behind⟩ := kept size (Lexer.lexeme?_skipped_pos reads) detached rest
          fun length read => by
            rw [Lexer.lexeme?_regex read] at reads
            cases reads
        rw [alike, reads]
        exact behind
      | token terminal size =>
        have following : Detached text (readFrom fuel (cursor.advance size)).1 := fun token member =>
          detached token (List.mem_cons_of_mem _ member)
        by_cases reserved : (cursor.token terminal size).isReserved = true
        · obtain ⟨spelling, ends⟩ := Lexer.lexeme?_reserved reads ((isReserved_iff _).mp reserved)
          have later := renamedFrom_renamed word fuel _ (within.advance size) following
          rw [Cursor.rest_advance] at later
          simp only [if_pos reserved] at rest
          have alike := Segment.lexeme?_word ordinary.named _ (later.notName ends)
            Lexer.mem_codeSets_closers cursor'.before
          rw [← rest, Lexer.nameTerminal_code Lexer.mem_codeSets_closers ordinary.free] at alike
          have behind : Echoes (readFrom fuel (cursor.advance size))
              (readFrom fuel (cursor'.advance word.length)) := by
            refine @ih true _ _ (within.advance size) following ?_ ?_ ?_
            · rw [Cursor.before_advance, Cursor.before_advance, rest, List.take_left]
              exact .swap spelling came
            · rw [Cursor.rest_advance]
              exact fun _ => ends
            · rw [Cursor.rest_advance, rest, List.drop_left]
          rw [alike]
          refine ⟨?_, behind.2⟩
          rw [List.map_cons, List.map_cons, behind.1, shown, if_pos reserved]
          rfl
        · simp only [if_neg reserved] at rest
          obtain ⟨alike, behind⟩ := kept size (Lexer.lexeme?_token_pos reads) following rest
            fun length read => by
              rw [Lexer.lexeme?_regex read] at reads
              cases reads
              rfl
          rw [alike, reads]
          refine ⟨?_, behind.2⟩
          rw [List.map_cons, List.map_cons, behind.1, shown, if_neg reserved]
          rfl

theorem read_renamed (ordinary : Ordinary word) (text : Text) (detached : Detached text (read text).1) :
    Echoes (read text) (read (renamed word text)) := by
  have same := renamedFrom_renamed word text.length _ (Cursor.start_within text) detached
  have length : (renamed word text).length = text.length := by
    have veiled := congrArg List.length (Lexeme.veil_renamed ordinary same)
    rwa [List.length_map, List.length_map] at veiled
  rw [read, read, length]
  exact readFrom_renamed ordinary _ _ _ (Cursor.start_within text) detached .nil nofun rfl

variable {tokens tokens' : List Token}

theorem openBehind_shown (same : tokens'.map Token.terminal = tokens.map shown) (stack : List Bracket) :
    openBehind stack tokens' = openBehind stack tokens := by
  induction tokens generalizing tokens' stack with
  | nil =>
    rw [List.map_eq_nil_iff.mp same]
  | cons token tokens ih =>
    obtain ⟨token', rest, rfl, head, later⟩ := List.map_eq_cons_iff.mp same
    have next := fun stack => ih later stack
    by_cases reserved : token.isReserved = true
    · rw [shown, if_pos reserved] at head
      rcases (isReserved_iff token).mp reserved with word | word
      all_goals simp only [openBehind, head, word, next]
    · rw [shown, if_neg reserved] at head
      simp only [openBehind, head, next]

-- No word of a declaration is left.
theorem shown_free (same : tokens'.map Token.terminal = tokens.map shown) :
    ∀ token ∈ tokens', token.isReserved = false := by
  intro token member
  have listed : token.terminal ∈ tokens.map shown := same ▸ List.mem_map_of_mem member
  obtain ⟨original, _, shows⟩ := List.mem_map.mp listed
  by_cases reserved : original.isReserved = true
  · rw [shown, if_pos reserved] at shows
    rw [Token.isReserved, ← shows]
    decide
  · rw [shown, if_neg reserved] at shows
    rw [Token.isReserved, ← shows]
    exact Bool.eq_false_iff.mpr reserved

theorem led_free (free : ∀ token ∈ tokens, token.isReserved = false) (opened : Bool) :
    led opened tokens = true := by
  induction tokens generalizing opened with
  | nil => rfl
  | cons token tokens ih =>
    rw [led, free token List.mem_cons_self, ih fun other member => free other (List.mem_cons_of_mem _ member)]
    rfl

-- A text with nested words parses exactly if it parses with other names in their place and each of them
-- stands directly behind an opening bracket.
theorem parse_renamed (ordinary : Ordinary word) (nested : Nested [] (read text).1)
    (detached : Detached text (read text).1) :
    (parse text).isOk = true ↔
      (parse (renamed word text)).isOk = true ∧ led false (read text).1 = true := by
  obtain ⟨same, rest⟩ := read_renamed ordinary text detached
  have free := shown_free same
  have nested' : Nested [] (read (renamed word text)).1 := by
    rintro before token after parts reserved
    rw [free token (parts ▸ by simp)] at reserved
    cases reserved
  rw [parse_nested text nested, parse_nested _ nested', rest, openBehind_shown same, led_free free]
  simp only [and_true, and_assoc]

end Syntax
end ModuleBundler
