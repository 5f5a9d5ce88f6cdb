import ModuleBundler.Proofs.Syntax.Written

/-!
Texts whose import and export words all stand inside brackets. Their tokens can be read without a
parser, and whether they parse is a matter of brackets and of the token in front of each such word.
-/
namespace ModuleBundler

-- A word that declarations begin with.
def Token.isReserved (token : Token) : Bool :=
  token.terminal == .keyword .import_ || token.terminal == .keyword .export_

def Token.isOpener (token : Token) : Bool :=
  match token.terminal with
  | .opener _ => true
  | _ => false

namespace Lexer
open Terminal

-- What is read right behind an opening bracket: every word is a name there, and no other bracket can
-- be closed.
def narrow (bracket : Bracket) : Option Lexed → Option Lexed
  | some (.token (.keyword _) size) => some (.token (.leaf .name) size)
  | some (.token (.closer other) size) =>
    if other = bracket then some (.token (.closer other) size) else none
  | read => read

theorem mem_codeSets_inner (bracket : Bracket) : Terminal.inner ++ [closer bracket] ∈ codeSets := by
  cases bracket <;> decide

theorem mem_codeSets_closers : outer ++ closers ∈ codeSets := by decide

theorem spelled?_inner (bracket : Bracket) (rest : Text) :
    spelled? (Terminal.inner ++ [closer bracket]) rest
      = narrow bracket (spelled? (outer ++ closers) rest) := by
  have marked : ∀ c later, (c = '{' ∨ c = '(' ∨ c = '[' ∨ c = '}' ∨ c = ')' ∨ c = ']') →
      spelled? (Terminal.inner ++ [closer bracket]) (c :: later)
        = narrow bracket (spelled? (outer ++ closers) (c :: later)) := by
    rintro c later (rfl | rfl | rfl | rfl | rfl | rfl)
    all_goals cases bracket <;> rfl
  have unread : ∀ expected ∈ codeSets, ∀ entry ∈ spelled, readAlone expected entry.1 = true →
      ∃ c, entry.2 = [c] ∧ (c = '{' ∨ c = '(' ∨ c = '[' ∨ c = '}' ∨ c = ')' ∨ c = ']') := by
    intro expected code entry member
    have table : ∀ expected ∈ codeSets, ∀ entry ∈ spelled, readAlone expected entry.1 = true →
        entry.2 ∈ [['{'], ['('], ['['], ['}'], [')'], [']']] := by decide
    intro alone
    have listed := table expected code entry member alone
    simp only [List.mem_cons, List.not_mem_nil, or_false] at listed
    rcases listed with same | same | same | same | same | same
    all_goals exact ⟨_, same, by simp⟩
  by_cases bracketed : ∃ c later, rest = c :: later ∧
      (c = '{' ∨ c = '(' ∨ c = '[' ∨ c = '}' ∨ c = ')' ∨ c = ']')
  · obtain ⟨c, later, rfl, mark⟩ := bracketed
    exact marked c later mark
  · have none_ : ∀ expected ∈ codeSets, spelled? expected rest = none := by
      intro expected code
      rw [spelled?, Option.map_eq_none_iff, List.find?_eq_none]
      intro entry member found
      rw [Bool.and_eq_true] at found
      obtain ⟨c, spelling, mark⟩ := unread expected code entry member found.1
      obtain ⟨later, rfl⟩ := List.isPrefixOf_iff_prefix.mp found.2
      rw [spelling] at bracketed
      exact bracketed ⟨c, later, rfl, mark⟩
    rw [none_ _ (mem_codeSets_inner bracket), none_ _ mem_codeSets_closers]
    rfl

theorem leaf?_same (code : expected ∈ codeSets) (leaf : Leaf) (named : leaf ≠ .name) :
    leaf? expected before rest leaf
      = (leafSize? leaf before rest).map fun size => .token (.leaf leaf) size := by
  rw [leaf?, if_pos (contains_leaf code leaf)]
  cases leaf with
  | name => exact absurd rfl named
  | punctuator => simp only [punctuatorTerminal_code code]
  | _ => rfl

theorem leaf?_inner (bracket : Bracket) :
    leaf? (Terminal.inner ++ [closer bracket]) before rest .name
      = narrow bracket (leaf? (outer ++ closers) before rest .name) := by
  have within : ∀ text, nameTerminal (Terminal.inner ++ [closer bracket]) text = .leaf .name := by
    intro text
    have words : ∀ bracket ∈ [Bracket.brace, .paren, .square], ∀ word ∈ Keyword.all,
        (Terminal.inner ++ [closer bracket]).contains (.keyword word) = false := by decide
    have none_ : (Keyword.all.find? fun word => (Terminal.inner ++ [closer bracket]).contains (.keyword word)
        && word.spelling == text) = none := by
      rw [List.find?_eq_none]
      intro word member found
      rw [words bracket (by cases bracket <;> decide) word member, Bool.false_and] at found
      cases found
    rw [nameTerminal, none_]
  rw [leaf?, if_pos (contains_leaf (mem_codeSets_inner bracket) .name), leaf?,
    if_pos (contains_leaf mem_codeSets_closers .name)]
  cases read : leafSize? .name before rest with
  | none => rfl
  | some size =>
    simp only [Option.map_some, within]
    unfold nameTerminal
    split <;> rfl

-- A reader that answers with neither a word nor a bracket is tried in front of others alike.
theorem narrow_orElse (bracket : Bracket) (plain : narrow bracket first = first)
    (second : Option Lexed) :
    narrow bracket (first <|> second) = (first <|> narrow bracket second) := by
  cases first with
  | none => rfl
  | some lexed => exact plain

theorem lexeme?_inner (bracket : Bracket) (before rest : Text) :
    lexeme? (Terminal.inner ++ [closer bracket]) before rest
      = narrow bracket (lexeme? (outer ++ closers) before rest) := by
  have plain : ∀ (leaf : Leaf) (size? : Option Nat),
      narrow bracket (size?.map fun size => Lexed.token (.leaf leaf) size)
        = size?.map fun size => Lexed.token (.leaf leaf) size := by
    intro leaf size?
    cases size? <;> rfl
  have blank : narrow bracket ((ignored? before rest).map Lexed.skipped)
      = (ignored? before rest).map Lexed.skipped := by
    cases ignored? before rest <;> rfl
  have names : ∀ second, narrow bracket (leaf? (outer ++ closers) before rest .name <|> second)
      = (leaf? (Terminal.inner ++ [closer bracket]) before rest .name <|> narrow bracket second) := by
    intro second
    rw [leaf?_inner]
    cases read : leaf? (outer ++ closers) before rest .name with
    | none => rfl
    | some lexed =>
      obtain ⟨terminal, size, rfl, _⟩ := leaf?_parts read
      have named : terminal = .leaf .name ∨ ∃ word, terminal = .keyword word := by
        rw [leaf?, if_pos (contains_leaf mem_codeSets_closers .name)] at read
        obtain ⟨length, _, same⟩ := Option.map_eq_some_iff.mp read
        cases same
        unfold nameTerminal
        split
        · exact .inr ⟨_, rfl⟩
        · exact .inl rfl
      rcases named with rfl | ⟨word, rfl⟩ <;> rfl
  have inside := mem_codeSets_inner bracket
  have outside := mem_codeSets_closers
  unfold lexeme?
  simp only [leaf?_same inside .regex (by decide), leaf?_same inside .member (by decide),
    leaf?_same inside .number (by decide), leaf?_same inside .string (by decide),
    leaf?_same inside .template (by decide), leaf?_same inside .punctuator (by decide),
    leaf?_same outside .regex (by decide), leaf?_same outside .member (by decide),
    leaf?_same outside .number (by decide), leaf?_same outside .string (by decide),
    leaf?_same outside .template (by decide), leaf?_same outside .punctuator (by decide),
    narrow_orElse bracket (plain _ _), narrow_orElse bracket blank, names, spelled?_inner]

-- Only terminals that are expected are read.
theorem lexeme?_expected (code : expected ∈ codeSets)
    (read : lexeme? expected before rest = some (.token terminal size)) : terminal ∈ expected := by
  rcases lexeme?_token_cases read with ⟨leaf, readLeaf⟩ | ⟨entry, _, rfl, alone, _⟩
  · by_cases named : leaf = .name
    · subst named
      rw [leaf?, if_pos (contains_leaf code .name)] at readLeaf
      obtain ⟨length, _, same⟩ := Option.map_eq_some_iff.mp readLeaf
      cases same
      unfold nameTerminal
      split
      · rename_i word found
        have kept := List.find?_some found
        rw [Bool.and_eq_true] at kept
        exact List.contains_iff_mem.mp kept.1
      · exact List.contains_iff_mem.mp (contains_leaf code .name)
    · rw [leaf?_same code leaf named] at readLeaf
      obtain ⟨length, _, same⟩ := Option.map_eq_some_iff.mp readLeaf
      cases same
      exact List.contains_iff_mem.mp (contains_leaf code leaf)
  · unfold readAlone at alone
    exact List.contains_iff_mem.mp (Bool.and_eq_true_iff.mp alone).1

theorem lexeme?_nil (expected : List Terminal) (before : Text) : lexeme? expected before [] = none := by
  have leaves : ∀ leaf, leafSize? leaf before [] = none := by
    intro leaf
    cases leaf with
    | regex => simp [leafSize?, regex?, Lexeme.regex?, Lexeme.regexBody?]
    | _ => rfl
  have blank : ignored? before [] = none := by simp [ignored?, Lexeme.blanks?, Lexeme.run1?,
    Lexeme.run, Lexeme.comment?, Lexeme.lineComment?, Lexeme.blockComment?, Lexeme.hashbang?]
  have spelled_ : spelled? expected [] = none := by
    rw [spelled?, Option.map_eq_none_iff, List.find?_eq_none]
    intro entry member found
    have nonempty : ∀ entry ∈ spelled, Text.startsWith [] entry.2 = false := by decide
    rw [nonempty entry member, Bool.and_false] at found
    cases found
  simp [lexeme?, leaf?_unread _ (leaves _), blank, spelled_]

end Lexer

namespace Syntax
open Terminal

-- The tokens of a text from a place on, and what is left where no more can be read. A word that
-- declarations begin with is read as one wherever it stands.
def readFrom : Nat → Cursor → List Token × Text
  | 0, cursor => ([], cursor.rest)
  | fuel + 1, cursor =>
    match Lexer.lexeme? (outer ++ closers) cursor.before cursor.rest with
    | none => ([], cursor.rest)
    | some (.skipped size) => readFrom fuel (cursor.advance size)
    | some (.token terminal size) =>
      let behind := readFrom fuel (cursor.advance size)
      (cursor.token terminal size :: behind.1, behind.2)

def read (text : Text) : List Token × Text := readFrom text.length (Cursor.start text)

-- The brackets that are open behind some tokens, the innermost first; nothing if they do not match.
def openBehind (stack : List Bracket) : List Token → Option (List Bracket)
  | [] => some stack
  | token :: tokens =>
    match token.terminal with
    | .opener bracket => openBehind (bracket :: stack) tokens
    | .closer bracket =>
      match stack with
      | opened :: outside => if opened = bracket then openBehind outside tokens else none
      | [] => none
    | _ => openBehind stack tokens

-- Every word that declarations begin with stands inside brackets.
def Nested (stack : List Bracket) (tokens : List Token) : Prop :=
  ∀ before word after, tokens = before ++ word :: after → word.isReserved = true →
    openBehind stack before ≠ some []

instance (stack : List Bracket) (tokens : List Token) : Decidable (Nested stack tokens) :=
  decidable_of_iff (∀ index : Fin tokens.length, tokens[index].isReserved = true →
      openBehind stack (tokens.take index) ≠ some []) <| by
    constructor
    · rintro checked before word after rfl reserved
      have inside : before.length < (before ++ word :: after).length := by simp
      simpa using checked ⟨before.length, inside⟩ (by simpa using reserved)
    · intro nested index reserved
      refine nested _ _ (tokens.drop (index + 1)) ?_ reserved
      simp

-- Every such word stands directly behind an opening bracket; `opened` tells whether one stands in
-- front of the tokens.
def led (opened : Bool) : List Token → Bool
  | [] => true
  | token :: tokens => (!token.isReserved || opened) && led token.isOpener tokens

-- The open brackets, each with whether anything stands in it, as the parser follows them.
def walkStep (stack : List (Bracket × Bool)) (token : Token) : Option (List (Bracket × Bool)) :=
  match token.terminal with
  | .opener bracket => some ((bracket, false) :: stack)
  | .closer bracket =>
    match stack with
    | (opened, _) :: outside => if opened = bracket then some (Segment.used outside) else none
    | [] => none
  | .keyword .import_ | .keyword .export_ =>
    match stack with
    | (_, false) :: _ => some (Segment.used stack)
    | _ => none
  | _ => some (Segment.used stack)

def walk (stack : List (Bracket × Bool)) : List Token → Option (List (Bracket × Bool))
  | [] => some stack
  | token :: tokens => (walkStep stack token).bind fun stack => walk stack tokens

def justOpened : List (Bracket × Bool) → Bool
  | (_, false) :: _ => true
  | _ => false

variable {machine : Machine} {token : Token} {tokens : List Token} {stack : List (Bracket × Bool)}
  {cursor : Cursor}

open Segment (Stands used)

theorem justOpened_used (stack : List (Bracket × Bool)) : justOpened (used stack) = false := by
  cases stack <;> rfl

theorem Nested.tail {stack stack' : List Bracket} (nested : Nested stack (token :: tokens))
    (opens : ∀ before, openBehind stack (token :: before) = openBehind stack' before) :
    Nested stack' tokens := by
  rintro before word after rfl reserved closed
  exact nested (token :: before) word after rfl reserved ((opens before).trans closed)

-- Following the brackets is matching them and looking for what stands in front of each word.
theorem walk_iff (nested : Nested (stack.map Prod.fst) tokens) :
    walk stack tokens = some [] ↔
      openBehind (stack.map Prod.fst) tokens = some [] ∧ led (justOpened stack) tokens = true := by
  induction tokens generalizing stack with
  | nil => simp [walk, openBehind, led]
  | cons token tokens ih =>
    obtain ⟨terminal, text, start, line, column⟩ := token
    have plain : ∀ before, openBehind (stack.map Prod.fst) before
        = openBehind ((used stack).map Prod.fst) before := by
      intro before
      rw [Segment.map_used]
    cases terminal with
    | opener bracket =>
      have inside : Nested (((bracket, false) :: stack).map Prod.fst) tokens := nested.tail fun _ => rfl
      exact ih inside
    | closer bracket =>
      cases stack with
      | nil => simp [walk, walkStep, openBehind]
      | cons entry outside =>
        obtain ⟨opened, inUse⟩ := entry
        by_cases same : opened = bracket
        · subst same
          have behind : Nested ((used outside).map Prod.fst) tokens := by
            rw [Segment.map_used]
            exact nested.tail fun _ => by simp [openBehind]
          have follows := ih behind
          rw [justOpened_used, Segment.map_used] at follows
          simpa [walk, walkStep, openBehind, led, Token.isReserved, Token.isOpener] using follows
        · simp [walk, walkStep, openBehind, same]
    | keyword word =>
      have behind : Nested ((used stack).map Prod.fst) tokens := nested.tail fun before => plain before
      have follows := ih behind
      rw [justOpened_used, Segment.map_used] at follows
      have reserved : word = .import_ ∨ word = .export_ →
          (walk stack (⟨.keyword word, text, start, line, column⟩ :: tokens) = some [] ↔
            openBehind (stack.map Prod.fst) tokens = some [] ∧
              (justOpened stack && led false tokens) = true) := by
        intro begins
        have inside : stack.map Prod.fst ≠ [] := by
          intro outside
          refine nested [] _ tokens rfl ?_ (congrArg some outside)
          rcases begins with rfl | rfl <;> rfl
        cases stack with
        | nil => exact absurd rfl inside
        | cons entry outside =>
          obtain ⟨bracket, inUse⟩ := entry
          cases inUse with
          | true => rcases begins with rfl | rfl <;> simp [walk, walkStep, justOpened]
          | false => rcases begins with rfl | rfl <;> simpa [walk, walkStep, justOpened] using follows
      cases word with
      | import_ => simpa [openBehind, led, Token.isReserved, Token.isOpener] using reserved (.inl rfl)
      | export_ => simpa [openBehind, led, Token.isReserved, Token.isOpener] using reserved (.inr rfl)
      | _ => simpa [walk, walkStep, openBehind, led, Token.isReserved, Token.isOpener] using follows
    | mark | leaf =>
      have behind : Nested ((used stack).map Prod.fst) tokens := nested.tail fun before => plain before
      have follows := ih behind
      rw [justOpened_used, Segment.map_used] at follows
      simpa [walk, walkStep, openBehind, led, Token.isReserved, Token.isOpener] using follows

-- Where neither a word of declarations nor a closing bracket is read, all states read alike.
theorem lexeme?_stands (stands : Stands stack machine) (before rest : Text)
    (plain : ∀ bracket, Lexer.narrow bracket (Lexer.lexeme? (outer ++ closers) before rest)
      = Lexer.lexeme? (outer ++ closers) before rest)
    (unclosed : ∀ bracket size,
      Lexer.lexeme? (outer ++ closers) before rest ≠ some (.token (.closer bracket) size)) :
    Lexer.lexeme? machine.expected before rest = Lexer.lexeme? (outer ++ closers) before rest := by
  rcases stands.expects with ⟨_, same | same⟩ | ⟨bracket, _, _, same⟩ | ⟨_, _, _, same⟩
  · rw [same]
    rcases Lexer.lexeme?_closers before rest with alike | ⟨_, bracket, size, closes⟩
    · exact alike.symm
    · exact absurd closes (unclosed bracket size)
  · rw [same]
  · rw [same, Lexer.lexeme?_inner, plain]
  · rw [same]

-- What the parser does where a token of some size is read, as the brackets are followed.
inductive Follows (machine : Machine) (cursor : Cursor) (size : Nat) :
    Option (List (Bracket × Bool)) → Prop where
  | takes (read : Lexer.lexeme? machine.expected cursor.before cursor.rest = some (.token terminal size))
      (fed : machine.feed (cursor.token terminal size) = some next) (stands : Stands behind next) :
      Follows machine cursor size (some behind)
  | refuses (read : Lexer.lexeme? machine.expected cursor.before cursor.rest = some (.token terminal size))
      (refused : machine.feed (cursor.token terminal size) = none) : Follows machine cursor size none
  | misses (unread : Lexer.lexeme? machine.expected cursor.before cursor.rest = none) :
      Follows machine cursor size none

theorem follows_leaf (stands : Stands stack machine)
    (read : Lexer.lexeme? (outer ++ closers) cursor.before cursor.rest = some (.token (.leaf kind) size)) :
    Follows machine cursor size (some (used stack)) := by
  obtain ⟨next, fed, stands'⟩ :=
    stands.add_leaf (show (cursor.token (.leaf kind) size).terminal = .leaf kind from rfl)
  have alike := lexeme?_stands stands cursor.before cursor.rest (by simp [read,
    Lexer.narrow]) (by simp [read])
  exact .takes (alike.trans read) fed stands'

theorem follows_opener (stands : Stands stack machine)
    (read : Lexer.lexeme? (outer ++ closers) cursor.before cursor.rest
      = some (.token (.opener bracket) size)) :
    Follows machine cursor size (some ((bracket, false) :: stack)) := by
  obtain ⟨next, fed, stands'⟩ :=
    stands.open_bracket (show (cursor.token (.opener bracket) size).terminal = .opener bracket from rfl)
  have alike := lexeme?_stands stands cursor.before cursor.rest (by simp [read,
    Lexer.narrow]) (by simp [read])
  exact .takes (alike.trans read) fed stands'

theorem follows_closer (stands : Stands stack machine)
    (read : Lexer.lexeme? (outer ++ closers) cursor.before cursor.rest
      = some (.token (.closer bracket) size)) :
    Follows machine cursor size (walkStep stack (cursor.token (.closer bracket) size)) := by
  rcases stands.expects with ⟨rfl, same⟩ | ⟨opened, outside, rfl, same⟩ | ⟨opened, outside, rfl, same⟩
  · obtain ⟨items, progress, frames⟩ := machine
    obtain ⟨_, ⟨afterNode, idle⟩, open_⟩ := stands
    cases idle
    cases open_
    rcases same with same | same
    · rcases Lexer.lexeme?_closers cursor.before cursor.rest with alike | ⟨unread, _⟩
      · refine .refuses (same ▸ alike.symm.trans read) (Machine.feed_closer rfl rfl rfl)
      · exact .misses (same ▸ unread)
    · exact .refuses (same ▸ read) (Machine.feed_closer rfl rfl rfl)
  · by_cases own : opened = bracket
    · subst own
      have closes : Lexer.lexeme? machine.expected cursor.before cursor.rest
          = some (.token (.closer opened) size) := by
        rw [same, Lexer.lexeme?_inner, read]
        simp [Lexer.narrow]
      obtain ⟨next, fed, stands'⟩ :=
        stands.close_bracket (show (cursor.token (.closer opened) size).terminal = .closer opened from rfl)
      have steps : walkStep ((opened, false) :: outside) (cursor.token (.closer opened) size)
          = some (used outside) := by simp [walkStep, Cursor.token]
      exact steps ▸ .takes closes fed stands'
    · have unread : Lexer.lexeme? machine.expected cursor.before cursor.rest = none := by
        rw [same, Lexer.lexeme?_inner, read]
        simp [Lexer.narrow, Ne.symm own]
      have steps : walkStep ((opened, false) :: outside) (cursor.token (.closer bracket) size)
          = none := by simp [walkStep, Cursor.token, own]
      exact steps ▸ .misses unread
  · by_cases own : opened = bracket
    · subst own
      obtain ⟨next, fed, stands'⟩ :=
        stands.close_bracket (show (cursor.token (.closer opened) size).terminal = .closer opened from rfl)
      have steps : walkStep ((opened, true) :: outside) (cursor.token (.closer opened) size)
          = some (used outside) := by simp [walkStep, Cursor.token]
      exact steps ▸ .takes (same ▸ read) fed stands'
    · obtain ⟨frame, frames, first, _, within⟩ := List.forall₂_cons_left_iff.mp stands.frames
      have refused : machine.feed (cursor.token (.closer bracket) size) = none := by
        have apart : bracket ≠ frame.bracket := fun equal => own (first.1.symm.trans equal.symm)
        simp [Machine.feed, within, Machine.feedInner, Cursor.token, apart]
      have steps : walkStep ((opened, true) :: outside) (cursor.token (.closer bracket) size)
          = none := by simp [walkStep, Cursor.token, own]
      exact steps ▸ .refuses (same ▸ read) refused

theorem follows_reserved (stands : Stands stack machine) (inside : stack ≠ [])
    (begins : word = .import_ ∨ word = .export_)
    (read : Lexer.lexeme? (outer ++ closers) cursor.before cursor.rest
      = some (.token (.keyword word) size)) :
    Follows machine cursor size (walkStep stack (cursor.token (.keyword word) size)) := by
  rcases stands.expects with ⟨rfl, _⟩ | ⟨opened, outside, rfl, same⟩ | ⟨opened, outside, rfl, same⟩
  · exact absurd rfl inside
  · have named : Lexer.lexeme? machine.expected cursor.before cursor.rest
        = some (.token (.leaf .name) size) := by
      rw [same, Lexer.lexeme?_inner, read]
      rfl
    obtain ⟨next, fed, stands'⟩ :=
      stands.add_leaf (show (cursor.token (.leaf .name) size).terminal = .leaf .name from rfl)
    have steps : walkStep ((opened, false) :: outside) (cursor.token (.keyword word) size)
        = some (used ((opened, false) :: outside)) := by rcases begins with rfl | rfl <;> rfl
    exact steps ▸ .takes named fed stands'
  · obtain ⟨frame, frames, _, _, within⟩ := List.forall₂_cons_left_iff.mp stands.frames
    have refused : machine.feed (cursor.token (.keyword word) size) = none := by
      simp [Machine.feed, within, Machine.feedInner, Cursor.token]
    have steps : walkStep ((opened, true) :: outside) (cursor.token (.keyword word) size)
        = none := by rcases begins with rfl | rfl <;> rfl
    exact steps ▸ .refuses (same ▸ read) refused

theorem follows (stands : Stands stack machine)
    (read : Lexer.lexeme? (outer ++ closers) cursor.before cursor.rest = some (.token terminal size))
    (inside : (cursor.token terminal size).isReserved = true → stack ≠ []) :
    Follows machine cursor size (walkStep stack (cursor.token terminal size)) := by
  have known := Lexer.lexeme?_expected Lexer.mem_codeSets_closers read
  cases terminal with
  | leaf leaf => exact follows_leaf stands read
  | opener bracket => exact follows_opener stands read
  | closer bracket => exact follows_closer stands read
  | mark mark =>
    cases mark <;> exact absurd known (by decide)
  | keyword word =>
    cases word with
    | import_ => exact follows_reserved stands (inside rfl) (.inl rfl) read
    | export_ => exact follows_reserved stands (inside rfl) (.inr rfl) read
    | _ => exact absurd known (by decide)

theorem result?_stands (stands : Stands stack machine) :
    if stack = [] then ∃ parsed, machine.result? = some parsed ∧ parsed.items.all Item.isCode = true
    else machine.result? = none := by
  obtain ⟨items, progress, frames⟩ := machine
  obtain ⟨code, ⟨afterNode, idle⟩, open_⟩ := stands
  cases idle
  cases open_ with
  | nil => exact ⟨_, rfl, by simpa using code⟩
  | cons => rfl

theorem readFrom_ended (fuel : Nat) (ended : cursor.rest = []) : readFrom fuel cursor = ([], []) := by
  cases fuel with
  | zero => rw [readFrom, ended]
  | succ fuel => rw [readFrom, ended, Lexer.lexeme?_nil]

theorem parseFrom_ended (fuel : Nat) (stands : Stands stack machine) (ended : cursor.rest = []) :
    if stack = [] then Accepts fuel machine cursor previous
    else ∃ fault, parseFrom fuel machine cursor previous = .error fault := by
  have result := result?_stands stands
  unfold Accepts
  rw [parseFrom.eq_def]
  simp only [ended]
  split at result
  · rename_i closed
    obtain ⟨parsed, found, code⟩ := result
    simpa [closed, found] using code
  · rename_i open_
    simp [open_, result]

theorem openBehind_step (steps : walkStep stack token = some behind) (before : List Token) :
    openBehind (stack.map Prod.fst) (token :: before) = openBehind (behind.map Prod.fst) before := by
  unfold walkStep at steps
  rw [openBehind]
  split at steps
  · rename_i opens
    cases steps
    simp only [opens]
    rfl
  · rename_i closes
    cases stack with
    | nil => cases steps
    | cons entry outside =>
      simp only at steps
      split at steps
      · rename_i same
        cases steps
        simp only [closes, List.map_cons, same, if_true, Segment.map_used]
      · cases steps
  · rename_i word
    split at steps
    · cases steps
      simp only [word, Segment.map_used]
    · cases steps
  · rename_i word
    split at steps
    · cases steps
      simp only [word, Segment.map_used]
    · cases steps
  · rename_i opens closes _ _
    cases steps
    rw [Segment.map_used]
    split
    · rename_i bracket found
      exact absurd found (opens bracket)
    · rename_i bracket found
      exact absurd found (closes bracket)
    · rfl

-- The parser comes to the end of a text exactly if all of it can be read and its brackets, followed
-- token by token, are closed there; and then nothing is declared.
theorem parseFrom_walk (fuel : Nat) (machine : Machine) (cursor : Cursor) (previous : Option Token)
    (stands : Stands stack machine) (enough : cursor.rest.length ≤ fuel)
    (nested : Nested (stack.map Prod.fst) (readFrom fuel cursor).1) :
    if (readFrom fuel cursor).2 = [] ∧ walk stack (readFrom fuel cursor).1 = some [] then
      Accepts fuel machine cursor previous
    else ∃ fault, parseFrom fuel machine cursor previous = .error fault := by
  induction fuel generalizing machine cursor previous stack with
  | zero =>
    have ended : cursor.rest = [] := List.eq_nil_of_length_eq_zero (Nat.le_zero.mp enough)
    simpa [readFrom_ended 0 ended, walk] using parseFrom_ended 0 stands ended
  | succ fuel ih =>
    by_cases ended : cursor.rest = []
    · simpa [readFrom_ended _ ended, walk] using parseFrom_ended _ stands ended
    have fewer : ∀ size, 0 < size → (cursor.advance size).rest.length ≤ fuel := by
      intro size positive
      have remains := List.length_pos_iff.mpr ended
      rw [Cursor.rest_advance, List.length_drop]
      omega
    unfold readFrom at nested ⊢
    cases reads : Lexer.lexeme? (outer ++ closers) cursor.before cursor.rest with
    | none =>
      have alike := lexeme?_stands stands cursor.before cursor.rest (by simp [reads, Lexer.narrow])
        (by simp [reads])
      rw [if_neg fun both => ended both.1]
      exact parseFrom_unread ended (alike.trans reads)
    | some lexed =>
      rw [reads] at nested
      cases lexed with
      | skipped size =>
        have alike := lexeme?_stands stands cursor.before cursor.rest (by simp [reads, Lexer.narrow])
          (by simp [reads])
        rw [Accepts, parseFrom_skipped ended (alike.trans reads)]
        exact ih machine _ previous stands (fewer size (Lexer.lexeme?_skipped_pos reads)) nested
      | token terminal size =>
        have passes := fewer size (Lexer.lexeme?_token_pos reads)
        have inside : (cursor.token terminal size).isReserved = true → stack ≠ [] := by
          rintro reserved rfl
          exact nested [] _ _ rfl reserved rfl
        have followed := follows stands reads inside
        dsimp only at nested ⊢
        rw [walk]
        generalize steps : walkStep stack (cursor.token terminal size) = step at followed ⊢
        cases followed with
        | takes read fed stands' =>
          rw [Accepts, parseFrom_token ended read fed]
          exact ih _ _ _ stands' passes (nested.tail (openBehind_step steps))
        | refuses read refused =>
          rw [if_neg fun both => Option.some_ne_none _ both.2.symm]
          exact parseFrom_refused ended read refused
        | misses unread =>
          rw [if_neg fun both => Option.some_ne_none _ both.2.symm]
          exact parseFrom_unread ended unread

-- A text whose words all stand inside brackets parses exactly if it can be read, its brackets close and
-- each word stands directly behind a bracket.
theorem parse_nested (text : Text) (nested : Nested [] (read text).1) :
    (parse text).isOk = true ↔ (read text).2 = [] ∧ openBehind [] (read text).1 = some [] ∧
      led false (read text).1 = true := by
  have stands : Stands [] ({} : Machine) := ⟨rfl, ⟨false, rfl⟩, .nil⟩
  have followed := parseFrom_walk text.length {} (Cursor.start text) none stands (Nat.le_refl _) nested
  have walked : walk [] (read text).1 = some [] ↔ openBehind [] (read text).1 = some [] ∧
      led false (read text).1 = true :=
    walk_iff (show Nested (([] : List (Bracket × Bool)).map Prod.fst) (read text).1 from nested)
  rw [show readFrom text.length (Cursor.start text) = read text from rfl] at followed
  rw [← walked, parse]
  split at followed
  · rename_i whole
    obtain ⟨parsed, parses, _⟩ := followed
    rw [parses]
    exact ⟨fun _ => whole, fun _ => rfl⟩
  · rename_i broken
    obtain ⟨fault, faulty⟩ := followed
    rw [faulty]
    exact ⟨nofun, fun whole => absurd whole broken⟩

-- And then it declares nothing.
theorem isPlain_nested (text : Text) (nested : Nested [] (read text).1)
    (parses : (parse text).isOk = true) : isPlain text = true := by
  have stands : Stands [] ({} : Machine) := ⟨rfl, ⟨false, rfl⟩, .nil⟩
  have followed := parseFrom_walk text.length {} (Cursor.start text) none stands (Nat.le_refl _) nested
  rw [isPlain_iff]
  split at followed
  · exact followed
  · obtain ⟨fault, faulty⟩ := followed
    rw [parse, faulty] at parses
    cases parses

end Syntax
end ModuleBundler
