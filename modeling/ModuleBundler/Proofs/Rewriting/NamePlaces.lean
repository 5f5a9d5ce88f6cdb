import ModuleBundler.Proofs.Renamed
import ModuleBundler.Proofs.Rewriting.PropertyNames

/-!
The names that stand in a text: whole words behind anything but a dot. In the text of a parsed source they
are names, the names of properties behind a gap, or they belong to a regex or a quoted literal.
-/
namespace ModuleBundler
namespace Reference

-- A character behind which no name of a template begins.
def glues (c : Char) : Bool := Text.isNameChar c || c == '.'

inductive NameAt (before : Option Char) (offset : Nat) : Text → Nat × Text → Prop where
  | mk (front : Text) (word : Text.IsName name) (apart : (front.getLast?.or before).any glues = false)
      (ends : ∀ c, back.head? = some c → Text.isNameChar c = false) :
      NameAt before offset (front ++ (name ++ back)) (offset + front.length, name)

variable {before : Option Char} {offset covered : Nat} {text rest name other back behind : Text} {c : Char}
  {found : Nat × Text}

theorem run_name (word : Text.IsName name) (ends : ∀ c, back.head? = some c → Text.isNameChar c = false) :
    Lexeme.run Text.isNameChar (name ++ back) = name.length := by
  rw [Lexeme.run_append_apart _ _ ends, Lexeme.run_all word.chars]

-- Only one name begins at a place.
theorem name_unique (word : Text.IsName name) (ends : ∀ c, back.head? = some c → Text.isNameChar c = false)
    (word' : Text.IsName other) (ends' : ∀ c, behind.head? = some c → Text.isNameChar c = false)
    (same : name ++ back = other ++ behind) : name = other := by
  have size := run_name word ends
  rw [same, run_name word' ends'] at size
  exact (List.append_inj same size.symm).1

theorem NameAt.cons (nameAt : NameAt (some c) (offset + 1) rest found) : NameAt before offset (c :: rest) found := by
  cases nameAt with
  | mk front word apart ends =>
    have place : offset + 1 + front.length = offset + (c :: front).length := by
      rw [List.length_cons]
      omega
    rw [place, ← List.cons_append]
    refine .mk _ word ?_ ends
    rwa [List.getLast?_cons, Option.some_or, ← Option.or_some]

-- A name begins with the text, or later.
theorem NameAt.split (nameAt : NameAt before offset (c :: rest) found) :
    (found = (offset, c :: rest.take (Lexeme.run Text.isNameChar rest)) ∧ Text.isNameStart c = true ∧
        before.any glues = false) ∨
      NameAt (some c) (offset + 1) rest found := by
  generalize shown : c :: rest = text at nameAt
  cases nameAt with
  | @mk name back front word apart ends =>
    cases front with
    | nil =>
      obtain ⟨d, letters, rfl, starts, more⟩ := word
      cases shown
      have size : Lexeme.run Text.isNameChar (letters ++ back) = letters.length := by
        rw [Lexeme.run_append_apart _ _ ends, Lexeme.run_all more]
      refine .inl ⟨?_, starts, apart⟩
      change (offset, c :: letters)
        = (offset, c :: (letters ++ back).take (Lexeme.run Text.isNameChar (letters ++ back)))
      rw [size, List.take_left]
    | cons d front =>
      cases shown
      refine .inr ?_
      have place : offset + (c :: front).length = offset + 1 + front.length := by
        rw [List.length_cons]
        omega
      rw [place]
      refine .mk _ word ?_ ends
      rwa [List.getLast?_cons, Option.some_or, ← Option.or_some] at apart

theorem not_nameAt_nil : ¬NameAt before offset [] found := by
  intro nameAt
  generalize shown : [] = text at nameAt
  cases nameAt with
  | mk front word =>
    obtain ⟨c, letters, rfl, _⟩ := word
    simp at shown

theorem NameAt.head (starts : Text.isNameStart c = true) (apart : before.any glues = false) :
    NameAt before offset (c :: rest) (offset, c :: rest.take (Lexeme.run Text.isNameChar rest)) := by
  have word : Text.IsName (c :: rest.take (Lexeme.run Text.isNameChar rest)) :=
    ⟨c, _, rfl, starts, Lexeme.run_within Text.isNameChar rest⟩
  have nameAt := @NameAt.mk before offset _ _ [] word apart (Lexeme.run_stops Text.isNameChar rest)
  rw [List.cons_append, List.take_append_drop] at nameAt
  exact nameAt

-- The search finds the names of the text, those behind a word it has begun in.
theorem mem_namesIn (sized : covered ≤ Lexeme.run Text.isNameChar text)
    (named : covered ≠ 0 → ∃ c, before = some c ∧ Text.isNameChar c = true) :
    found ∈ namesIn before offset covered text ↔ NameAt before offset text found := by
  fun_induction namesIn before offset covered text with
  | case1 before offset covered => simp [not_nameAt_nil]
  | case2 before offset c rest covered ih =>
    obtain ⟨d, rfl, letter⟩ := named (Nat.succ_ne_zero _)
    rw [Lexeme.run] at sized
    have inner : Text.isNameChar c = true := by
      by_contra outer
      rw [if_neg outer] at sized
      omega
    rw [if_pos inner] at sized
    rw [ih (Nat.le_of_succ_le_succ sized) fun _ => ⟨c, rfl, inner⟩]
    refine ⟨NameAt.cons, fun nameAt => ?_⟩
    rcases nameAt.split with ⟨_, _, apart⟩ | later
    · simp [glues, letter] at apart
    · exact later
  | case3 before offset c rest begins starts more ih =>
    have head : Text.isNameStart c = true ∧ before.any glues = false := by
      obtain ⟨start, apart⟩ := Bool.and_eq_true_iff.mp starts
      exact ⟨start, (Bool.not_eq_true' _).mp apart⟩
    rw [List.mem_cons, ih (Nat.le_refl _) fun _ => ⟨c, rfl, Text.isNameChar_of_isNameStart head.1⟩]
    constructor
    · rintro (rfl | later)
      · exact .head head.1 head.2
      · exact later.cons
    · intro nameAt
      rcases nameAt.split with ⟨here, _⟩ | later
      · exact .inl here
      · exact .inr later
  | case4 before offset c rest begins starts ih =>
    rw [ih (Nat.zero_le _) fun some_ => absurd rfl some_]
    refine ⟨NameAt.cons, fun nameAt => ?_⟩
    rcases nameAt.split with ⟨_, start, apart⟩ | later
    · refine absurd ?_ starts
      exact Bool.and_eq_true_iff.mpr ⟨start, congrArg _ apart⟩
    · exact later

-- What a place says about the name that stands there.
theorem nameAt_iff : NameAt none 0 text (place, name) ↔ Text.IsName name ∧
    (∃ back, text.drop place = name ++ back ∧ ∀ c, back.head? = some c → Text.isNameChar c = false) ∧
    (text.take place).getLast?.any glues = false := by
  constructor
  · intro nameAt
    generalize whole : (place, name) = found at nameAt
    cases nameAt with
    | @mk name back front word apart ends =>
      cases whole
      rw [Nat.zero_add, List.drop_left, List.take_left]
      rw [Option.or_none] at apart
      exact ⟨word, ⟨back, rfl, ends⟩, apart⟩
  · rintro ⟨word, ⟨back, behind, ends⟩, apart⟩
    have inside : place ≤ text.length := by
      by_contra outside
      obtain ⟨c, letters, rfl, _⟩ := word
      rw [List.drop_eq_nil_of_le (Nat.le_of_not_le outside)] at behind
      cases behind
    have nameAt := @NameAt.mk none 0 name back (text.take place) word (by rwa [Option.or_none]) ends
    rwa [← behind, List.take_append_drop, List.length_take, Nat.min_eq_left inside, Nat.zero_add] at nameAt

-- In a text every character that a name can begin with is glued to the one in front of it.
def joined (before : Option Char) : Text → Bool
  | [] => true
  | c :: rest => (!Text.isNameStart c || before.any glues) && joined (some c) rest

theorem joined_append (before : Option Char) (front back : Text) :
    joined before (front ++ back) = (joined before front && joined (front.getLast?.or before) back) := by
  induction front generalizing before with
  | nil => rfl
  | cons c front ih =>
    rw [List.cons_append, joined, joined, ih, Bool.and_assoc, List.getLast?_cons, Option.some_or,
      Option.or_some]

theorem joined_glued (begins : before.any glues = true) (all : ∀ c ∈ text, glues c = true) :
    joined before text = true := by
  induction text generalizing before with
  | nil => rfl
  | cons c rest ih =>
    obtain ⟨own, later⟩ := List.forall_mem_cons.mp all
    rw [joined, begins, Bool.or_true, Bool.true_and]
    exact ih own later

theorem joined_other (none_ : ∀ c ∈ text, Text.isNameStart c = false) : joined before text = true := by
  induction text generalizing before with
  | nil => rfl
  | cons c rest ih =>
    obtain ⟨own, later⟩ := List.forall_mem_cons.mp none_
    rw [joined, own, ih later]
    rfl

theorem joined_split (joins : joined before (rest ++ c :: back) = true) (starts : Text.isNameStart c = true) :
    (rest.getLast?.or before).any glues = true := by
  rw [joined_append, Bool.and_eq_true, joined, starts, Bool.not_true, Bool.false_or,
    Bool.and_eq_true] at joins
  exact joins.2.1

end Reference

namespace Lexeme
open Reference (glues joined)

variable {text : Text}

-- A text in which no name begins, and none behind it.
structure Numeral (text : Text) : Prop where
  joins : joined none text = true
  ends : text.getLast?.any glues = true

theorem Numeral.append (numeral : Numeral text) (joins : joined text.getLast? more = true)
    (ends : more ≠ [] → more.getLast?.any glues = true) : Numeral (text ++ more) := by
  constructor
  · rw [Reference.joined_append, numeral.joins, Option.or_none, joins]
    rfl
  · rw [List.getLast?_append]
    by_cases empty : more = []
    · rw [empty]
      exact numeral.ends
    · obtain ⟨last, ended⟩ := Option.isSome_iff_exists.mp (List.getLast?_isSome.mpr empty)
      have glued := ends empty
      rw [ended] at glued ⊢
      exact glued

theorem last_all {within : Char → Bool} (some_ : text ≠ []) (all : ∀ c ∈ text, within c = true) :
    text.getLast?.any within = true := by
  rw [List.getLast?_eq_some_getLast some_]
  exact all _ (List.getLast_mem some_)

-- Digits, letters and dots behind something that begins no name.
theorem numeral_cons (other : Text.isNameStart c = false) (all : ∀ d ∈ c :: text, glues d = true) :
    Numeral (c :: text) := by
  obtain ⟨own, later⟩ := List.forall_mem_cons.mp all
  have begins : (some c).any glues = true := own
  constructor
  · rw [joined, other, Reference.joined_glued begins later]
    rfl
  · exact last_all (List.cons_ne_nil c text) all

theorem glues_name (named : Text.isNameChar c = true) : glues c = true := by
  rw [glues, named, Bool.true_or]

theorem isNameStart_of_isDecimal (decimal : Text.isDecimal c = true) : Text.isNameStart c = false := by
  by_contra starts
  rw [Text.isDecimal_of_isNameStart (Bool.not_eq_false _ ▸ starts)] at decimal
  cases decimal

theorem glues_run (text : Text) : ∀ c ∈ text.take (run isDigitOrGap text), glues c = true :=
  fun c inside => glues_name (isNameChar_of_isDigitOrGap c (run_within isDigitOrGap text c inside))

theorem run1?_take (read : run1? within text = some size) :
    text.take size ≠ [] ∧ ∀ c ∈ text.take size, within c = true := by
  have positive := run1?_pos read
  rw [← run1?_run read] at positive ⊢
  have bounded := run_le within text
  refine ⟨?_, run_within within text⟩
  rw [← List.length_pos_iff, List.length_take]
  omega

theorem radixNumber?_numeral (read : radixNumber? text = some size) : Numeral (text.take size) := by
  unfold radixNumber? at read
  split at read
  · rename_i base rest
    split at read
    · rename_i marked
      obtain ⟨digits, counted, rfl⟩ := Option.map_eq_some_iff.mp read
      have letter : ∀ base ∈ ['x', 'X', 'o', 'O', 'b', 'B'], glues base = true := by decide
      have all : ∀ c ∈ rest.take digits, glues c = true := fun c inside =>
        glues_name (isNameChar_of_isHexDigit c ((run1?_take counted).2 c inside))
      exact numeral_cons (by decide)
        (List.forall_mem_cons.mpr ⟨by decide, List.forall_mem_cons.mpr ⟨letter base marked, all⟩⟩)
    · cases read
  · cases read

theorem fraction_glues (text : Text) : ∀ c ∈ text.take (fraction text), glues c = true := by
  unfold fraction
  split
  · rename_i rest
    exact List.forall_mem_cons.mpr ⟨by decide, glues_run rest⟩
  · exact nofun

theorem decimal?_numeral (read : decimal? text = some size) : Numeral (text.take size) := by
  unfold decimal? at read
  split at read
  · rename_i c rest
    split at read
    · rename_i decimal
      cases read
      have digit := glues_name (Text.isNameChar_of_isDecimal decimal)
      exact numeral_cons (by decide)
        (List.forall_mem_cons.mpr ⟨by decide, List.forall_mem_cons.mpr ⟨digit, glues_run rest⟩⟩)
    · cases read
  · rename_i c rest _
    split at read
    · rename_i decimal
      cases read
      have digit := glues_name (Text.isNameChar_of_isDecimal decimal)
      have whole : Numeral ((c :: rest).take (run isDigitOrGap rest + 1)) :=
        numeral_cons (isNameStart_of_isDecimal decimal) (List.forall_mem_cons.mpr ⟨digit, glues_run rest⟩)
      have all := fraction_glues ((c :: rest).drop (run isDigitOrGap rest + 1))
      rw [List.take_add]
      exact whole.append (Reference.joined_glued whole.ends all) fun some_ => last_all some_ all
    · cases read
  · cases read

theorem exponentDigits?_plain (read : exponentDigits? text = some size) : text.take size ≠ [] ∧
    (∀ c ∈ text.take size, Text.isNameStart c = false) ∧ (text.take size).getLast?.any glues = true := by
  have digits : ∀ {rest : Text} {count : Nat}, run1? Text.isDecimal rest = some count →
      rest.take count ≠ [] ∧ (∀ c ∈ rest.take count, Text.isNameStart c = false) ∧
        (rest.take count).getLast?.any glues = true := by
    intro rest count counted
    obtain ⟨some_, decimal⟩ := run1?_take counted
    exact ⟨some_, fun c inside => isNameStart_of_isDecimal (decimal c inside),
      last_all some_ fun c inside => glues_name (Text.isNameChar_of_isDecimal (decimal c inside))⟩
  have signed : ∀ {rest : Text} {sign : Char}, Text.isNameStart sign = false →
      (run1? Text.isDecimal rest).map (· + 1) = some size → (sign :: rest).take size ≠ [] ∧
        (∀ c ∈ (sign :: rest).take size, Text.isNameStart c = false) ∧
        ((sign :: rest).take size).getLast?.any glues = true := by
    intro rest sign plainSign counted
    obtain ⟨count, found, rfl⟩ := Option.map_eq_some_iff.mp counted
    obtain ⟨some_, plain, ends⟩ := digits found
    rw [List.take_succ_cons]
    refine ⟨List.cons_ne_nil _ _, List.forall_mem_cons.mpr ⟨plainSign, plain⟩, ?_⟩
    rwa [List.getLast?_cons_of_ne_nil some_]
  unfold exponentDigits? at read
  split at read
  · exact signed (by decide) read
  · exact signed (by decide) read
  · exact digits read

theorem Numeral.exponent (numeral : Numeral front) (text : Text) :
    Numeral (front ++ text.take (Lexeme.exponent text)) := by
  have letter : ∀ mark rest, glues mark = true →
      Numeral (front ++ (mark :: rest).take (((exponentDigits? rest).map (· + 1)).getD 0)) := by
    intro mark rest glued
    cases read : exponentDigits? rest with
    | none => rwa [Option.map_none, Option.getD_none, List.take_zero, List.append_nil]
    | some size =>
      obtain ⟨some_, plain, ends⟩ := exponentDigits?_plain read
      rw [Option.map_some, Option.getD_some, List.take_succ_cons]
      refine numeral.append ?_ fun _ => ?_
      · rw [joined, numeral.ends, Bool.or_true, Bool.true_and]
        exact Reference.joined_other plain
      · rwa [List.getLast?_cons_of_ne_nil some_]
  unfold Lexeme.exponent
  split
  · exact letter _ _ (by decide)
  · exact letter _ _ (by decide)
  · rwa [List.take_zero, List.append_nil]

theorem Numeral.bigSuffix (numeral : Numeral front) (text : Text) :
    Numeral (front ++ text.take (Lexeme.bigSuffix text)) := by
  unfold Lexeme.bigSuffix
  split
  · rename_i rest
    refine numeral.append ?_ fun _ => (rfl : ['n'].getLast?.any glues = true)
    exact Reference.joined_glued numeral.ends (List.forall_mem_singleton.mpr (by decide))
  · rwa [List.take_zero, List.append_nil]

-- No name begins in a number.
theorem number?_numeral (read : number? text = some size) : Numeral (text.take size) := by
  unfold number? at read
  obtain ⟨whole, digits, rfl⟩ := Option.map_eq_some_iff.mp read
  rw [List.take_add]
  refine Numeral.bigSuffix ?_ _
  rcases Option.or_eq_some_iff.mp digits with radix | ⟨_, decimal⟩
  · exact radixNumber?_numeral radix
  · obtain ⟨plain, readPlain, rfl⟩ := Option.map_eq_some_iff.mp decimal
    rw [List.take_add]
    exact (decimal?_numeral readPlain).exponent _

theorem quoted_head (read : string? text = some size ∨ template? text = some size) :
    ∃ quote ∈ ['"', '\'', '\x60'], (text.take size).head? = some quote := by
  have marked : ∀ (quote : Char) (rest : Text) (size? : Option Nat), quote ∈ ['"', '\'', '\x60'] →
      size?.map (· + 1) = some size →
        ∃ quote' ∈ ['"', '\'', '\x60'], ((quote :: rest).take size).head? = some quote' := by
    intro quote rest size? among read
    obtain ⟨inner, _, rfl⟩ := Option.map_eq_some_iff.mp read
    exact ⟨quote, among, rfl⟩
  rcases read with string | template
  · unfold string? at string
    split at string
    · exact marked _ _ _ (by decide) string
    · exact marked _ _ _ (by decide) string
    · cases string
  · unfold template? at template
    split at template
    · exact marked _ _ _ (by decide) template
    · cases template

theorem punctuator?_plain (read : punctuator? text = some size) :
    ∀ c ∈ text.take size, Text.isNameStart c = false := by
  obtain ⟨mark, found, rfl⟩ := Option.map_eq_some_iff.mp read
  have marks : ∀ mark ∈ punctuators, ∀ c ∈ mark, Text.isNameStart c = false := by decide
  have starts := List.find?_some found
  obtain ⟨rest, parts⟩ := List.isPrefixOf_iff_prefix.mp starts
  rw [← parts, List.take_left]
  exact marks mark (List.mem_of_find?_eq_some found)

end Lexeme

namespace Lexer

-- No name begins in a bracket.
theorem lexeme?_bracket (read : lexeme? expected before rest = some (.token terminal size))
    (bracket : terminal ∈ Terminal.openers ++ Terminal.closers) :
    ∀ c ∈ rest.take size, Text.isNameStart c = false := by
  rcases lexeme?_token_cases read with ⟨leaf, readLeaf⟩ | ⟨entry, among, rfl, _, rfl, more, rfl⟩
  · have leafless : ∀ kind ∈ Leaf.all, Terminal.leaf kind ∉ Terminal.openers ++ Terminal.closers := by decide
    obtain ⟨_, _, own | ⟨_, word⟩ | ⟨_, mark⟩⟩ := leaf?_terminal readLeaf
    · exact absurd (own ▸ bracket) (leafless leaf (by cases leaf <;> decide))
    · simp [word, Terminal.openers, Terminal.closers] at bracket
    · simp [mark, Terminal.openers, Terminal.closers] at bracket
  · have entries : ∀ entry ∈ spelled, entry.1 ∈ Terminal.openers ++ Terminal.closers →
        ∀ c ∈ entry.2, Text.isNameStart c = false := by decide
    rw [List.take_left]
    exact entries entry among bracket

end Lexer

namespace Syntax
open Reference (glues)

-- Where a name begins in a token, the token is a name, the name of a property or a literal.
theorem Lexes.begins (lexes : Lexes text token) (code : token.terminal ∈ Terminal.inner ++ Terminal.closers)
    (parts : token.text = front ++ c :: back) (starts : Text.isNameStart c = true)
    (apart : front.getLast?.any glues = false) :
    token.terminal = .leaf .name ∧ front = [] ∨ token.terminal ∈ [.leaf .member, .leaf .regex] ∨
      ∃ quote ∈ ['"', '\'', '\x60'], token.text.head? = some quote := by
  obtain ⟨expected, cursor, terminal, size, within, _, read, rfl⟩ := lexes.read
  change cursor.rest.take size = front ++ c :: back at parts
  have inside : c ∈ cursor.rest.take size := parts ▸ List.mem_append_right front List.mem_cons_self
  change (terminal = .leaf .name ∧ front = []) ∨ terminal ∈ [.leaf .member, .leaf .regex] ∨
    ∃ quote ∈ ['"', '\'', '\x60'], (cursor.rest.take size).head? = some quote
  change terminal ∈ Terminal.inner ++ Terminal.closers at code
  have bracketless : terminal ∉ Terminal.openers ++ Terminal.closers := by
    intro bracket
    have plain := Lexer.lexeme?_bracket read bracket c inside
    rw [starts] at plain
    cases plain
  cases terminal with
  | keyword word => simp [Terminal.inner, Terminal.openers, Terminal.leaves, Terminal.closers] at code
  | mark mark => simp [Terminal.inner, Terminal.openers, Terminal.leaves, Terminal.closers] at code
  | opener bracket => exact absurd (by cases bracket <;> decide) bracketless
  | closer bracket => exact absurd (by cases bracket <;> decide) bracketless
  | leaf kind =>
    have sized := (Lexer.lexeme?_leaf read).2
    cases kind with
    | name =>
      refine .inl ⟨rfl, ?_⟩
      by_contra some_
      have chars := (Lexeme.name?_isName sized).chars
      have glued := Lexeme.last_all some_ fun d listed =>
        Lexeme.glues_name (chars d (parts ▸ List.mem_append_left _ listed))
      rw [apart] at glued
      cases glued
    | member => exact .inr (.inl (by decide))
    | regex => exact .inr (.inl (by decide))
    | number =>
      have joins := (Lexeme.number?_numeral sized).joins
      rw [parts] at joins
      have glued := Reference.joined_split joins starts
      rw [Option.or_none, apart] at glued
      cases glued
    | string => exact .inr (.inr (Lexeme.quoted_head (.inl sized)))
    | template => exact .inr (.inr (Lexeme.quoted_head (.inr sized)))
    | punctuator =>
      have plain := Lexeme.punctuator?_plain sized c inside
      rw [starts] at plain
      cases plain

theorem Lexes.name_ends (lexes : Lexes text token) (named : token.terminal = .leaf .name) :
    ∀ c, (text.drop token.stop).head? = some c → Text.isNameChar c = false := by
  obtain ⟨expected, cursor, terminal, size, within, _, read, rfl⟩ := lexes.read
  cases named
  have sized := (Lexer.lexeme?_leaf read).2
  rw [within.stop_token, ← (within.advance size).rest, Cursor.rest_advance]
  change Lexeme.name? cursor.rest = some size at sized
  unfold Lexeme.name? at sized
  split at sized
  · rename_i first rest starts
    split at sized
    · cases sized
      rw [starts, List.drop_succ_cons]
      exact Lexeme.run_stops Text.isNameChar rest
    · cases sized
  · cases sized

variable {text : Text} {token : Token}

-- A token shows what stands at its place.
theorem drop_token (cut : token.CutFrom text) : text.drop token.start = token.text ++ text.drop token.stop := by
  conv_lhs => rw [← List.take_append_drop token.text.length (text.drop token.start), ← cut.slice,
    List.drop_drop]
  rfl

open Reference (NameAt)

theorem nameAt_token (nameAt : NameAt none 0 text (place, name)) (cut : token.CutFrom text)
    (after : token.start ≤ place) (before : place < token.stop) :
    ∃ front c back, token.text = front ++ c :: back ∧ place = token.start + front.length ∧
      Text.isNameStart c = true ∧ front.getLast?.any glues = false := by
  obtain ⟨⟨c, letters, rfl, starts, _⟩, ⟨back, behind, _⟩, apart⟩ := Reference.nameAt_iff.mp nameAt
  have inside : place ≤ text.length := Nat.le_of_lt (Nat.lt_of_lt_of_le before cut.stop_le)
  have same : (text.take place).drop token.start ++ (c :: (letters ++ back))
      = token.text ++ text.drop token.stop := by
    rw [← drop_token cut, ← List.cons_append, ← behind,
      ← List.drop_append_of_le_length (by rw [List.length_take]; omega), List.take_append_drop]
  have size : ((text.take place).drop token.start).length = place - token.start := by
    rw [List.length_drop, List.length_take]
    omega
  unfold Token.stop at before
  rcases List.append_eq_append_iff.mp same with ⟨more, parts, rest⟩ | ⟨more, parts, _⟩
  · cases more with
    | nil =>
      have whole := congrArg List.length parts
      simp only [List.append_nil] at whole
      omega
    | cons d more =>
      obtain ⟨rfl, _⟩ := List.cons.inj rest
      refine ⟨_, c, more, parts, by omega, starts, ?_⟩
      rw [List.getLast?_drop]
      split
      · rfl
      · exact apart
  · have whole := congrArg List.length parts
    rw [List.length_append] at whole
    omega

theorem Lexes.template_quoted (lexes : Lexes text token) (template : token.terminal = .leaf .template) :
    ∃ quote ∈ ['"', '\'', '\x60'], token.text.head? = some quote := by
  obtain ⟨expected, cursor, terminal, size, within, _, read, rfl⟩ := lexes.read
  cases template
  exact Lexeme.quoted_head (.inr (Lexer.lexeme?_leaf read).2)

theorem quoted_absent (unquoted : ∀ quote ∈ ['"', '\'', '\x60'], quote ∉ text) (cut : token.CutFrom text)
    (quoted : ∃ quote ∈ ['"', '\'', '\x60'], token.text.head? = some quote) : False := by
  obtain ⟨quote, among, head⟩ := quoted
  have listed : quote ∈ token.text := List.mem_of_head? head
  rw [cut.slice] at listed
  exact unquoted quote among (List.mem_of_mem_drop (List.mem_of_mem_take listed))

-- A name that stands in the text of a token is the token, unless that is the name of a property or a literal.
theorem Lexes.name_at (lexes : Lexes text token) (cut : token.CutFrom text)
    (code : token.terminal ∈ Terminal.inner ++ Terminal.closers)
    (other : token.terminal ∉ [.leaf .member, .leaf .regex])
    (unquoted : ∀ quote ∈ ['"', '\'', '\x60'], quote ∉ text) (nameAt : NameAt none 0 text (place, name))
    (after : token.start ≤ place) (before : place < token.stop) :
    token.terminal = .leaf .name ∧ token.start = place ∧ token.text = name := by
  obtain ⟨front, c, back, parts, here, starts, apart⟩ := nameAt_token nameAt cut after before
  rcases lexes.begins code parts starts apart with ⟨named, rfl⟩ | special | quoted
  · obtain ⟨word, ⟨rest, behind, ends⟩, _⟩ := Reference.nameAt_iff.mp nameAt
    cases here
    refine ⟨named, rfl, Reference.name_unique (cut.named (.inl named)) (lexes.name_ends named) word ends ?_⟩
    rw [← behind, ← drop_token cut]
    rfl
  · exact absurd special other
  · exact (quoted_absent unquoted cut quoted).elim

end Syntax
end ModuleBundler
