import ModuleBundler.Proofs.Literal
import ModuleBundler.Proofs.Masking.Cut

/-!
Texts that are divided into pieces in one way wherever they stand: words, marks, blanks, written
literals, and what is put together from them.
-/
namespace ModuleBundler

namespace Text

-- A joined text around one of its parts.
theorem joinWith_around (separator : Text) (before : List Text) (part : Text) (after : List Text) :
    joinWith separator (before ++ part :: after)
      = before.flatMap (· ++ separator) ++ (part ++ after.flatMap (separator ++ ·)) := by
  have behind : ∀ part : Text, joinWith separator (part :: after)
      = part ++ after.flatMap (separator ++ ·) := by
    induction after with
    | nil => simp [joinWith]
    | cons next after ih =>
      intro part
      rw [joinWith, ih next, List.flatMap_cons, List.append_assoc, List.append_assoc]
      exact List.cons_ne_nil _ _
  induction before with
  | nil => exact behind part
  | cons first before ih =>
    rw [List.cons_append, joinWith, ih, List.flatMap_cons, List.append_assoc, List.append_assoc]
    · simp
    · simp

end Text

namespace Lexeme

theorem quotedRest?_sealed (closed : Literal.sealed text = true) (more : Text) :
    quotedRest? '"' (text ++ more) = (quotedRest? '"' more).map (· + text.length) := by
  fun_induction Literal.sealed text with
  | case1 => simp
  | case2 => cases closed
  | case3 c rest ih =>
    rw [List.cons_append, List.cons_append, quotedRest?, ih closed, Option.map_map]
    rfl
  | case4 c rest single pair ih =>
    simp only [Bool.and_eq_true, bne_iff_ne, ne_eq] at closed
    rw [List.cons_append, quotedRest?_cons (not_backslash single pair), if_neg (by simp [closed.1.1]),
      if_neg (by simp [closed.1.2]), ih closed.2, Option.map_map]
    rfl

theorem string?_sealed {inner : Text} (closed : Literal.sealed inner = true) (more : Text) :
    string? ('"' :: (inner ++ ['"']) ++ more) = some (inner.length + 2) := by
  rw [List.cons_append, List.append_assoc, string?, quotedRest?_sealed closed]
  simp [quotedRest?]
  omega

theorem string?_write (codes : CodePoints) (more : Text) :
    string? (Literal.writeCodes codes ++ more) = some (Literal.writeCodes codes).length := by
  obtain ⟨inner, parts, closed⟩ := Literal.writeCodes_parts codes
  rw [parts, List.cons_append, string?_sealed closed]
  simp

end Lexeme

namespace Masking

open Lexeme

variable {pieces others : List Piece}

-- A text that is divided into these pieces whatever stands before it, as long as what follows is apart.
structure Divides (start : Reading) (text : Text) (pieces : List Piece) (apart : Text → Prop) :
    Prop where
  texts : pieces.flatMap Piece.text = text
  reads : ∀ more, apart more →
    piecesFrom start (text ++ more) = pieces ++ piecesFrom (readThrough start pieces) more

def Anything (_ : Text) : Prop := True

def NotBlank (more : Text) : Prop := ∀ c, more.head? = some c → Text.isBlank c = false

def NotName (more : Text) : Prop := ∀ c, more.head? = some c → Text.isNameChar c = false

theorem Divides.append (first : Divides start text pieces apart)
    (second : Divides (readThrough start pieces) later others apart')
    (meets : ∀ more, apart' more → apart (later ++ more)) :
    Divides start (text ++ later) (pieces ++ others) apart' where
  texts := by rw [List.flatMap_append, first.texts, second.texts]
  reads := by
    intro more beyond
    rw [List.append_assoc, first.reads _ (meets more beyond), second.reads more beyond,
      readThrough_append, List.append_assoc]

-- One piece.
theorem Divides.piece (nonempty : text ≠ [])
    (read : ∀ more, apart more → nextPiece start.preceding (text ++ more) = (kind, text.length - 1)) :
    Divides start text [⟨kind, text⟩] apart where
  texts := by simp
  reads := by
    obtain ⟨c, rest, rfl⟩ := List.exists_cons_of_ne_nil nonempty
    intro more beyond
    have here := read more beyond
    rw [List.cons_append, List.length_cons, Nat.add_sub_cancel] at here
    rw [List.cons_append, piecesFrom_cons here, List.take_left, List.drop_left]
    rfl

theorem divides_sealed {inner : Text} (start : Reading) (closed : Literal.sealed inner = true) :
    Divides start ('"' :: (inner ++ ['"'])) [⟨.literal, '"' :: (inner ++ ['"'])⟩] Anything := by
  refine .piece (List.cons_ne_nil _ _) fun more _ => ?_
  have read := string?_sealed closed more
  have regex : regexBody? ('"' :: (inner ++ ['"']) ++ more) = none := rfl
  have blanks : blanks? ('"' :: (inner ++ ['"']) ++ more) = none := rfl
  have comment : comment? ('"' :: (inner ++ ['"']) ++ more) = none := rfl
  simp only [nextPiece, regex, blanks, comment, read]
  split <;> simp

theorem divides_literal (start : Reading) (codes : CodePoints) :
    Divides start (Literal.writeCodes codes) [⟨.literal, Literal.writeCodes codes⟩] Anything := by
  obtain ⟨inner, parts, closed⟩ := Literal.writeCodes_parts codes
  rw [parts]
  exact divides_sealed start closed

-- Marks that cannot begin anything longer.
def plainMarks : Text :=
  [':', '[', ']', '{', '}', ',', '-', '(', ')', ';', '=', '&', '|', '?', '.', '+']

theorem divides_mark (start : Reading) (plain : c ∈ plainMarks) :
    Divides start [c] [⟨.mark, [c]⟩] Anything := by
  refine .piece (List.cons_ne_nil _ _) fun more _ => ?_
  have none : regexBody? ([c] ++ more) = none ∧ blanks? ([c] ++ more) = none ∧
      comment? ([c] ++ more) = none ∧ string? ([c] ++ more) = none ∧
      template? ([c] ++ more) = none ∧ run1? Text.isNameChar ([c] ++ more) = none := by
    simp only [plainMarks, List.mem_cons, List.not_mem_nil, or_false] at plain
    rcases plain with rfl | rfl | rfl | rfl | rfl | rfl | rfl | rfl | rfl | rfl | rfl | rfl | rfl | rfl | rfl | rfl
    all_goals exact ⟨rfl, rfl, rfl, rfl, rfl, rfl⟩
  obtain ⟨regex, blanks, comment, string, template, word⟩ := none
  simp only [nextPiece, regex, blanks, comment, string, template, word]
  split <;> rfl

theorem divides_blanks (start : Reading) (blank : ∀ c ∈ text, Text.isBlank c = true)
    (nonempty : text ≠ []) : Divides start text [⟨.blanks, text⟩] NotBlank := by
  refine .piece nonempty fun more apart => ?_
  obtain ⟨c, rest, rfl⟩ := List.exists_cons_of_ne_nil nonempty
  have read : blanks? (c :: rest ++ more) = some (c :: rest).length := by
    rw [blanks?, run1?, run_append_apart _ _ apart, run_all blank]
    rfl
  have regex : regexBody? (c :: rest ++ more) = none := by
    refine regexBody?.eq_2 _ fun _ _ same => ?_
    have slash := blank c List.mem_cons_self
    rw [(List.cons.inj same).1] at slash
    exact absurd slash (by decide)
  simp only [nextPiece, regex, read]
  split <;> rfl

theorem divides_blank (start : Reading) (blank : c = ' ' ∨ c = '\n') :
    Divides start [c] [⟨.blanks, [c]⟩] NotBlank := by
  have alone : ∀ d ∈ [c], Text.isBlank d = true := by rcases blank with rfl | rfl <;> decide
  exact divides_blanks start alone (List.cons_ne_nil _ _)

-- A text that is one word.
def Spelled (text : Text) : Prop :=
  text ≠ [] ∧ ∀ c ∈ text, Text.isNameChar c = true

instance (text : Text) : Decidable (Spelled text) := inferInstanceAs (Decidable (_ ∧ _))

theorem Spelled.visible (spelled : Spelled text) : ∀ c ∈ text, Text.isBlank c = false := by
  intro c member
  have named := spelled.2 c member
  cases blank : Text.isBlank c with
  | false => rfl
  | true =>
    rw [Text.isNameChar_of_isBlank blank] at named
    cases named

theorem spelled_of_isName (named : Text.IsName text) : Spelled text := by
  refine ⟨?_, named.chars⟩
  obtain ⟨c, rest, rfl, _⟩ := named
  exact List.cons_ne_nil _ _

theorem spelled_natText (n : Nat) : Spelled (Json.natText n) :=
  ⟨Nat.toDigits_ne_nil, fun c member => Json.isNameChar_of_isDigit (Json.natText_digits n c member)⟩

theorem divides_word (start : Reading) (spelled : Spelled text) :
    Divides start text [⟨.word, text⟩] NotName := by
  have visible := spelled.visible
  obtain ⟨nonempty, letters⟩ := spelled
  refine .piece nonempty fun more apart => ?_
  obtain ⟨c, rest, rfl⟩ := List.exists_cons_of_ne_nil nonempty
  have here := letters c List.mem_cons_self
  have other : ∀ mark, Text.isNameChar mark = false → c ≠ mark := by
    rintro mark unnamed rfl
    rw [unnamed] at here
    cases here
  have slash := other '/' (by decide)
  have double := other '"' (by decide)
  have single := other '\'' (by decide)
  have quote := other '\x60' (by decide)
  have regex : regexBody? (c :: rest ++ more) = none := regexBody?.eq_2 _ (by simp [slash])
  have blanks : blanks? (c :: rest ++ more) = none := by
    simp [blanks?, run1?, run, visible c List.mem_cons_self]
  have comment : comment? (c :: rest ++ more) = none := by
    rw [comment?, lineComment?.eq_2 _ (by simp [slash]), blockComment?.eq_2 _ (by simp [slash])]
    rfl
  have string : string? (c :: rest ++ more) = none :=
    string?.eq_3 _ (by simp [double]) (by simp [single])
  have template : template? (c :: rest ++ more) = none := template?.eq_2 _ (by simp [quote])
  have word : run1? Text.isNameChar (c :: rest ++ more) = some (c :: rest).length := by
    rw [run1?, run_append_apart _ _ apart, run_all letters]
    rfl
  simp only [nextPiece, regex, blanks, comment, string, template, word]
  split <;> rfl

-- Open parentheses without a condition.
def Calm (reading : Reading) : Prop := ∃ count, reading.conditions = List.replicate count false

-- A text that is divided in one way wherever it stands, and leaves the reading calm.
def Harmless (text : Text) (apart : Text → Prop) : Prop :=
  ∀ start, Calm start → ∃ pieces, Divides start text pieces apart ∧ Calm (readThrough start pieces)

theorem Harmless.append (first : Harmless text apart) (second : Harmless later apart')
    (meets : ∀ more, apart' more → apart (later ++ more)) : Harmless (text ++ later) apart' := by
  intro start calm
  obtain ⟨pieces, divides, calm'⟩ := first start calm
  obtain ⟨others, divides', calm''⟩ := second _ calm'
  refine ⟨_, divides.append divides' meets, ?_⟩
  rwa [readThrough_append]

theorem harmless_literal (codes : CodePoints) : Harmless (Literal.writeCodes codes) Anything :=
  fun start calm => ⟨_, divides_literal start codes, calm⟩

theorem harmless_blank (blank : c = ' ' ∨ c = '\n') : Harmless [c] NotBlank :=
  fun start calm => ⟨_, divides_blank start blank, calm⟩

theorem harmless_word (text : Text) (spelled : Spelled text) : Harmless text NotName :=
  fun start calm => ⟨_, divides_word start spelled, calm⟩

theorem harmless_mark (plain : c ∈ plainMarks) (unopened : c ≠ '(') : Harmless [c] Anything := by
  intro start calm
  refine ⟨_, divides_mark start plain, ?_⟩
  obtain ⟨count, conditions⟩ := calm
  simp only [readThrough, List.foldl_cons, List.foldl_nil, Reading.after]
  split
  · rename_i opened
    exact absurd (List.singleton_inj.mp opened) unopened
  · exact ⟨count - 1, by simp [conditions]⟩
  · exact ⟨count, conditions⟩
  · exact ⟨count, conditions⟩

theorem Harmless.follow (first : Harmless text Anything) (second : Harmless later apart) :
    Harmless (text ++ later) apart :=
  first.append second fun _ _ => trivial

-- A text that a blank in front of it is kept apart from.
def Begins (text : Text) : Prop := ∃ c rest, text = c :: rest ∧ Text.isBlank c = false

theorem Begins.notBlank (begins : Begins text) (more : Text) : NotBlank (text ++ more) := by
  obtain ⟨c, rest, rfl, visible⟩ := begins
  intro d same
  cases same
  exact visible

theorem Begins.append (begins : Begins text) (more : Text) : Begins (text ++ more) := by
  obtain ⟨c, rest, rfl, visible⟩ := begins
  exact ⟨c, rest ++ more, rfl, visible⟩

theorem begins_literal (codes : CodePoints) : Begins (Literal.writeCodes codes) := by
  obtain ⟨inner, parts, _⟩ := Literal.writeCodes_parts codes
  exact ⟨'"', inner ++ ['"'], parts, by decide⟩

theorem begins_word (spelled : Spelled text) : Begins text := by
  obtain ⟨c, rest, rfl⟩ := List.exists_cons_of_ne_nil spelled.1
  exact ⟨c, rest, rfl, spelled.visible c List.mem_cons_self⟩

theorem Harmless.spaced (second : Harmless later apart) (begins : Begins later) :
    Harmless ([' '] ++ later) apart :=
  (harmless_blank (.inl rfl)).append second fun more _ => begins.notBlank more

theorem Harmless.marked (plain : c ∈ plainMarks) (unopened : c ≠ '(')
    (second : Harmless later apart) : Harmless ([c] ++ later) apart :=
  (harmless_mark plain unopened).follow second

-- A list goes on behind a comma and a blank.
theorem Harmless.listed (second : Harmless later apart) (begins : Begins later) :
    Harmless ([','] ++ ([' '] ++ later)) apart :=
  (second.spaced begins).marked (by decide) (by decide)

-- A word with a parenthesis that holds no condition.
theorem harmless_opening (text : Text) (spelled : Spelled text) (plain : conditionWords.contains text = false)
    (gap : blank = [] ∨ blank = [' ']) :
    Harmless (text ++ (blank ++ ['('])) Anything := by
  intro start calm
  obtain ⟨count, conditions⟩ := calm
  have word := divides_word start spelled
  have opened : ∀ reading : Reading, Divides reading ['('] [⟨.mark, ['(']⟩] Anything :=
    fun reading => divides_mark reading (by decide)
  have unopened : ∀ more, Anything more → NotName (['('] ++ more) := by
    intro more _ c same
    cases same
    decide
  have absent : text ∉ conditionWords := by simpa using plain
  rcases gap with rfl | rfl
  · refine ⟨_, word.append (opened _) unopened, count + 1, ?_⟩
    simp [readThrough, Reading.after, Preceding.opensCondition, absent, conditions, List.replicate_succ]
  · have blank := (divides_blank (readThrough start [⟨.word, text⟩]) (.inl rfl)).append (opened _)
      (by
        intro more _ c same
        cases same
        decide)
    refine ⟨_, word.append blank ?_, count + 1, ?_⟩
    · intro more _ c same
      cases same
      decide
    · simp [readThrough, Reading.after, Preceding.opensCondition, absent, conditions, List.replicate_succ]

end Masking

end ModuleBundler
