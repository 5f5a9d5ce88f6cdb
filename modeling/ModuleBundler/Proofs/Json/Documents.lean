import ModuleBundler.Proofs.Json.Grammar
import ModuleBundler.Proofs.Renamed
import ModuleBundler.Proofs.Syntax.Expressions

/-!
Documents are code. Every form of the grammar is read as an expression by the masker and by the parser,
and a document begins and ends with a character that is not blank.
-/
namespace ModuleBundler.Json

open Masking (Anything NotBlank NotName Begins)
open Syntax (Code)

theorem digit_plain (digit : isDigit c = true) : Text.isDecimal c = true ∧ Text.isNameChar c = true ∧
    Text.isNameStart c = false ∧ Text.isBlank c = false ∧
    c ∉ ['.', '+', '-', '=', '/', '#', '?', 'x', 'X', 'o', 'O', 'b', 'B'] := by
  have table : ∀ n < 10, Text.isDecimal (Char.ofNat (48 + n)) = true ∧
      Text.isNameChar (Char.ofNat (48 + n)) = true ∧ Text.isNameStart (Char.ofNat (48 + n)) = false ∧
      Text.isBlank (Char.ofNat (48 + n)) = false ∧
      Char.ofNat (48 + n) ∉ ['.', '+', '-', '=', '/', '#', '?', 'x', 'X', 'o', 'O', 'b',
        'B'] := by decide +kernel
  simp only [isDigit, Bool.and_eq_true, decide_eq_true_eq] at digit
  have bounds : 48 ≤ c.toNat ∧ c.toNat ≤ 57 := digit
  have found := table (c.toNat - 48) (by omega)
  rwa [Nat.add_sub_cancel' bounds.1, Char.ofNat_toNat] at found

-- What may follow a value: no letter, no digit and no point.
def Delimited (more : Text) : Prop :=
  ∀ c, more.head? = some c → Text.isNameChar c = false ∧ c ≠ '.'

theorem Delimited.notName (delimited : Delimited more) : NotName more :=
  fun c same => (delimited c same).1

section
variable {text : Text}

theorem Digits.spelled (digits : Digits text) : Masking.Spelled text :=
  ⟨digits.1, fun c member => (digit_plain (digits.2 c member)).2.1⟩

theorem Digits.head (digits : Digits text) : ∃ c rest, text = c :: rest ∧ isDigit c = true := by
  obtain ⟨c, rest, rfl⟩ := List.exists_cons_of_ne_nil digits.1
  exact ⟨c, rest, rfl, digits.2 c List.mem_cons_self⟩

open Lexeme (isDigitOrGap run)

-- Digits are a run of their own in front of anything that is neither a digit nor an underscore.
def NotDigitOrGap (more : Text) : Prop := ∀ c, more.head? = some c → isDigitOrGap c = false ∧ c ≠ '.'

theorem Delimited.notDigitOrGap (delimited : Delimited more) : NotDigitOrGap more := by
  intro c same
  obtain ⟨unnamed, dot⟩ := delimited c same
  refine ⟨?_, dot⟩
  cases digit : isDigitOrGap c with
  | false => rfl
  | true =>
    rw [Lexeme.isNameChar_of_isDigitOrGap c digit] at unnamed
    cases unnamed

theorem run_digits (digits : ∀ c ∈ text, isDigit c = true) (apart : NotDigitOrGap more) :
    run isDigitOrGap (text ++ more) = text.length := by
  rw [Lexeme.run_append_apart _ _ fun c same => (apart c same).1]
  refine Lexeme.run_all fun c member => ?_
  rw [isDigitOrGap, (digit_plain (digits c member)).1]
  rfl

theorem exponentDigits?_power (sign : mark = [] ∨ mark = ['+'] ∨ mark = ['-']) (digits : Digits text)
    (apart : Delimited more) :
    Lexeme.exponentDigits? (mark ++ text ++ more) = some (mark ++ text).length := by
  have whole : Lexeme.run1? Text.isDecimal (text ++ more) = some text.length := by
    have counted : run Text.isDecimal (text ++ more) = text.length := by
      rw [Lexeme.run_append_apart, Lexeme.run_all fun c member => (digit_plain (digits.2 c member)).1]
      intro c same
      cases decimal : Text.isDecimal c with
      | false => rfl
      | true =>
        have unnamed := (apart c same).1
        rw [Text.isNameChar_of_isDecimal decimal] at unnamed
        cases unnamed
    obtain ⟨c, rest, rfl⟩ := List.exists_cons_of_ne_nil digits.1
    rw [Lexeme.run1?, counted]
    rfl
  rcases sign with rfl | rfl | rfl
  · obtain ⟨c, rest, rfl, digit⟩ := digits.head
    have plain := (digit_plain digit).2.2.2.2
    rw [List.nil_append, List.cons_append, Lexeme.exponentDigits?.eq_3]
    · exact whole
    · rintro _ ⟨⟩
      exact plain (by decide)
    · rintro _ ⟨⟩
      exact plain (by decide)
  · rw [List.append_assoc, List.singleton_append, Lexeme.exponentDigits?, whole]
    rfl
  · rw [List.append_assoc, List.singleton_append, Lexeme.exponentDigits?, whole]
    rfl

theorem exponent_power (power : Power text) (apart : Delimited more) :
    Lexeme.exponent (text ++ more) = text.length := by
  cases power with
  | absent =>
    have named : Text.isNameChar 'e' = true ∧ Text.isNameChar 'E' = true := by decide
    rw [List.nil_append, Lexeme.exponent.eq_3]
    · rfl
    all_goals
      rintro _ rfl
      have unnamed := (apart _ rfl).1
      simp [named] at unnamed
  | @digits c mark shown letter sign digits =>
    have read := exponentDigits?_power sign digits apart
    have opened : Lexeme.exponent (c :: (mark ++ shown ++ more))
        = ((Lexeme.exponentDigits? (mark ++ shown ++ more)).map (· + 1)).getD 0 := by
      rcases letter with rfl | rfl <;> rfl
    rw [List.cons_append, opened, read]
    rfl

theorem fraction_decimals (decimals : Decimals text) (apart : NotDigitOrGap more) :
    Lexeme.fraction (text ++ more) = text.length := by
  cases decimals with
  | absent =>
    refine Lexeme.fraction.eq_2 _ ?_
    rintro rest rfl
    exact (apart '.' rfl).2 rfl
  | digits digits =>
    rw [List.cons_append, Lexeme.fraction, run_digits digits.2 apart]
    rfl

theorem power_apart (power : Power text) (apart : Delimited more) : NotDigitOrGap (text ++ more) := by
  cases power with
  | absent => exact apart.notDigitOrGap
  | digits letter =>
    rintro c ⟨⟩
    rcases letter with rfl | rfl <;> decide

theorem decimals_apart (decimals : Decimals text) (apart : NotDigitOrGap more) :
    ∀ c, (text ++ more).head? = some c → isDigitOrGap c = false := by
  cases decimals with
  | absent => exact fun c same => (apart c same).1
  | digits =>
    rintro c ⟨⟩
    decide

theorem radixNumber?_numeral (whole : Digits text) (decimals : Decimals fractional) (power : Power powered)
    (apart : Delimited more) : Lexeme.radixNumber? (text ++ (fractional ++ (powered ++ more))) = none := by
  have bases : ∀ c ∈ ['x', 'X', 'o', 'O', 'b', 'B'], Text.isNameChar c = true := by decide
  have marks : ['x', 'X', 'o', 'O', 'b', 'B'] ⊆ ['.', '+', '-', '=', '/', '#', '?', 'x', 'X', 'o',
    'O', 'b', 'B'] :=
    List.subset_append_right ['.', '+', '-', '=', '/', '#', '?'] _
  have behind : ∀ d, (fractional ++ (powered ++ more)).head? = some d →
      d ∉ ['x', 'X', 'o', 'O', 'b', 'B'] := by
    cases decimals with
    | digits =>
      rintro d ⟨⟩
      decide
    | absent =>
      cases power with
      | digits letter =>
        rintro d ⟨⟩
        rcases letter with rfl | rfl <;> decide
      | absent =>
        intro d same base
        have unnamed := (apart d same).1
        rw [bases d base] at unnamed
        cases unnamed
  obtain ⟨c, rest, rfl, _⟩ := whole.head
  rw [List.cons_append]
  by_cases zero : c = '0'
  · subst zero
    cases rest with
    | nil =>
      cases found : fractional ++ (powered ++ more) with
      | nil => rfl
      | cons d later =>
        rw [List.nil_append, Lexeme.radixNumber?, if_neg]
        rw [found] at behind
        exact behind d rfl
    | cons d later =>
      have digit := digit_plain (whole.2 d (by simp))
      rw [List.cons_append, Lexeme.radixNumber?, if_neg]
      exact fun base => digit.2.2.2.2 (marks base)
  · exact Lexeme.radixNumber?_cons zero _

-- The lexer reads a numeral as a whole.
theorem number?_numeral (numeral : Numeral text) (apart : Delimited more) :
    Lexeme.number? (text ++ more) = some text.length := by
  cases numeral with
  | @parts shown fractional powered whole decimals power =>
    have behind := power_apart power apart
    have radix := radixNumber?_numeral whole decimals power apart
    have raised := exponent_power power apart
    have pointed := fraction_decimals decimals behind
    obtain ⟨c, rest, rfl, digit⟩ := whole.head
    have plain := digit_plain digit
    have counted : run isDigitOrGap (rest ++ (fractional ++ (powered ++ more))) = rest.length := by
      rw [Lexeme.run_append_apart _ _ (decimals_apart decimals behind)]
      refine Lexeme.run_all fun d member => ?_
      rw [isDigitOrGap, (digit_plain (whole.2 d (List.mem_cons_of_mem _ member))).1]
      rfl
    have suffix : Lexeme.bigSuffix more = 0 := by
      refine Lexeme.bigSuffix.eq_2 _ ?_
      rintro later rfl
      exact absurd (apart 'n' rfl).1 (by decide)
    have dot : c ≠ '.' := by
      rintro rfl
      exact plain.2.2.2.2 (by decide)
    have decimal : Lexeme.decimal? (c :: rest ++ (fractional ++ (powered ++ more)))
        = some (rest.length + 1 + fractional.length) := by
      rw [List.cons_append, Lexeme.decimal?_cons dot, if_pos plain.1, counted, List.drop_left, pointed]
    have parts : c :: rest ++ (fractional ++ powered) ++ more
        = c :: rest ++ (fractional ++ (powered ++ more)) := by simp
    have beforePower : (c :: rest ++ (fractional ++ (powered ++ more))).drop
        (rest.length + 1 + fractional.length) = powered ++ more := by
      rw [← List.append_assoc]
      exact List.drop_left' (by simp; omega)
    have beforeSuffix : (c :: rest ++ (fractional ++ (powered ++ more))).drop
        (rest.length + 1 + fractional.length + powered.length) = more := by
      rw [← List.drop_drop, beforePower, List.drop_left]
    rw [parts, Lexeme.number?, radix, decimal]
    simp only [Option.none_or, Option.map_some, beforePower, raised, beforeSuffix, suffix]
    simp
    omega

theorem shown_power (spelled : Masking.Spelled text) (power : Power later) :
    Masking.Shown (text ++ later) NotName := by
  cases power with
  | absent =>
    rw [List.append_nil]
    exact Masking.shown_word spelled
  | @digits c mark shown letter sign digits =>
    have named : Text.isNameChar c = true := by rcases letter with rfl | rfl <;> decide
    have opened : Masking.Spelled (text ++ [c]) := by
      refine ⟨by simp, List.forall_mem_append.mpr ⟨spelled.2, ?_⟩⟩
      simpa using named
    have signed : ∀ d, d = '+' ∨ d = '-' → Masking.Shown (text ++ c :: ([d] ++ shown)) NotName := by
      intro d sign
      have plain : d ∈ Masking.plainMarks ∧ Text.isNameChar d = false := by
        rcases sign with rfl | rfl <;> decide
      have behind : Masking.Shown ([d] ++ shown) NotName :=
        (Masking.shown_mark plain.1).append (Masking.shown_word digits.spelled) fun _ _ => trivial
      have joined := (Masking.shown_word opened).append behind fun more _ e same => by
        cases same
        exact plain.2
      rwa [List.append_assoc] at joined
    rcases sign with rfl | rfl | rfl
    · have whole : Masking.Spelled (text ++ c :: ([] ++ shown)) := by
        refine ⟨by simp, List.forall_mem_append.mpr ⟨spelled.2, ?_⟩⟩
        simpa [named] using digits.spelled.2
      exact Masking.shown_word whole
    · exact signed '+' (.inl rfl)
    · exact signed '-' (.inr rfl)

theorem shown_numeral (numeral : Numeral text) : Masking.Shown text NotName := by
  cases numeral with
  | @parts shown fractional powered whole decimals power =>
    cases decimals with
    | absent => exact shown_power whole.spelled power
    | @digits digits decimals =>
      have point : Masking.Shown (['.'] ++ (digits ++ powered)) NotName :=
        (Masking.shown_mark (by decide)).append (shown_power decimals.spelled power) fun _ _ => trivial
      refine (Masking.shown_word whole.spelled).append point fun more _ c same => ?_
      cases same
      decide

theorem Numeral.head (numeral : Numeral text) : ∃ c rest, text = c :: rest ∧ isDigit c = true := by
  cases numeral with
  | parts whole =>
    obtain ⟨c, rest, rfl, digit⟩ := whole.head
    exact ⟨c, _, rfl, digit⟩

theorem code_numeral (numeral : Numeral text) : Code text Delimited := by
  obtain ⟨c, rest, rfl, digit⟩ := numeral.head
  obtain ⟨_, _, unnamed, visible, plain⟩ := digit_plain digit
  have other : ∀ d ∈ ['.', '+', '-', '=', '/', '#', '?'], c ≠ d := by
    rintro d listed rfl
    exact plain (List.mem_append_left ['x', 'X', 'o', 'O', 'b', 'B'] listed)
  refine ⟨(shown_numeral numeral).weaken fun _ => Delimited.notName, ?_⟩
  have read : Syntax.ReadAs (c :: rest) (.token (.leaf .number) (c :: rest).length) Delimited := by
    refine Syntax.readAs_unnamed ?_ (List.cons_ne_nil _ _) fun expected code before more apart => ?_
    · rintro d ⟨⟩
      exact unnamed
    · have number : Lexer.leafSize? .number [] (c :: rest ++ more) = some (c :: rest).length :=
        number?_numeral numeral apart
      have name : Lexer.leafSize? .name [] (c :: rest ++ more) = none := by
        rw [List.cons_append, Lexer.leafSize?, Lexeme.name?, unnamed]
        rfl
      have member : Lexer.leafSize? .member [] (c :: rest ++ more) = none := by
        refine Lexeme.member?.eq_3 _ ?_ ?_
        · exact fun _ same => other '?' (by decide) (List.cons.inj same).1
        · exact fun _ same => other '.' (by decide) (List.cons.inj same).1
      have found := Lexer.leaf?_code code .number (by decide) (by decide) number
      rw [List.cons_append] at name member found ⊢
      rw [Lexer.lexeme?_visible (other '/' (by decide)) (other '#' (by decide)) visible,
        Lexer.leaf?_unread .name name, Lexer.leaf?_unread .member member, found]
      rfl
  exact Syntax.adds_leaf read (List.cons_ne_nil _ _)

-- What may follow the values between two brackets.
def Ended (more : Text) : Prop := ∀ c, more.head? = some c → c ∈ [',', ']', '}']

theorem Ended.delimited (ended : Ended more) : Delimited more := by
  have marks : ∀ c ∈ [',', ']', '}'], Text.isNameChar c = false ∧ c ≠ '.' := by decide
  exact fun c same => marks c (ended c same)

theorem Ended.notBlank (ended : Ended more) : NotBlank more := by
  have marks : ∀ c ∈ [',', ']', '}'], Text.isBlank c = false := by decide
  exact fun c same => marks c (ended c same)

theorem isGap_blank (gap : isGap c = true) :
    Text.isBlank c = true ∧ Text.isNameChar c = false ∧ c ≠ '.' := by
  have gaps : ∀ c ∈ [' ', '\t', '\n', '\r'],
      Text.isBlank c = true ∧ Text.isNameChar c = false ∧ c ≠ '.' := by decide
  exact gaps c (by simpa [isGap, or_assoc] using gap)

theorem code_gap (gap : Gap text) : Code text NotBlank := by
  cases text with
  | nil => exact Syntax.code_nil.weaken fun _ _ => trivial
  | cons c rest => exact Syntax.code_blanks (fun d member => (isGap_blank (gap d member)).1) (List.cons_ne_nil _ _)

theorem code_spaced (code : Code text Delimited) (gap : Gap back) : Code (text ++ back) Ended := by
  cases back with
  | nil =>
    rw [List.append_nil]
    exact code.weaken fun _ => Ended.delimited
  | cons c back =>
    refine code.append ((code_gap gap).weaken fun _ => Ended.notBlank) fun more _ d same => ?_
    cases same
    exact (isGap_blank (gap c List.mem_cons_self)).2

theorem code_behind (gap : Gap front) (code : Code text apart) (begins : Begins text) :
    Code (front ++ text) apart :=
  (code_gap gap).append code fun more _ => begins.notBlank more

def Form.apart : Form → Text → Prop
  | .value => Delimited
  | .elements | .members => Ended

theorem Ended.closing (more : Text) : Ended (']' :: more) ∧ Ended ('}' :: more) := by
  constructor
  all_goals
    rintro c ⟨⟩
    decide

theorem code_quoted {inner : Text} (closed : Literal.sealed inner = true) : Code (quoted inner) Anything :=
  Syntax.code_sealed closed

-- A key in front of its value and of what follows that.
theorem code_keyed (closed : Literal.sealed key = true) (before : Gap between) (behind : Gap front)
    (code : Code text apart) (begins : Begins text) :
    Code (quoted key ++ between ++ ':' :: (front ++ text)) apart ∧
      Begins (quoted key ++ between ++ ':' :: (front ++ text)) := by
  have colon : Code [':'] Anything := Syntax.code_mark (by decide)
  have name := (code_quoted closed).append (code_gap before) fun _ _ => trivial
  have value := colon.append (code_behind behind code begins) fun _ _ => trivial
  have opens : Begins (quoted key) := ⟨'"', _, rfl, by decide⟩
  refine ⟨name.append value ?_, (opens.append _).append _⟩
  rintro more _ c ⟨⟩
  decide

-- A value and the comma in front of what follows it.
theorem code_listed (code : Code text Delimited) (gap : Gap back) (next : Gap front)
    (others : Code more Ended) (begins : Begins more) : Code (text ++ back ++ ',' :: (front ++ more)) Ended := by
  have comma : Code [','] Anything := Syntax.code_mark (by decide)
  have later := comma.append (code_behind next others begins) fun _ _ => trivial
  refine (code_spaced code gap).append later ?_
  rintro more _ c ⟨⟩
  decide

theorem code_known (known : text ∈ words.map Prod.fst) : Code text Delimited ∧ Begins text := by
  have names : ∀ text ∈ ["null", "true", "false", "NaN", "Infinity"].map String.toList,
      Text.IsName text ∧ text ∉ Lexer.reserved ∧ text ∉ Lexer.declaring := by decide
  have named : ∀ text ∈ ["null", "true", "false", "NaN", "Infinity"].map String.toList,
      Code text Delimited ∧ Begins text := by
    intro text member
    obtain ⟨name, free, plain⟩ := names text member
    exact ⟨(Syntax.code_word name free plain).weaken fun _ => Delimited.notName,
      Masking.begins_word (Masking.spelled_of_isName name)⟩
  have either : ∀ text ∈ words.map Prod.fst,
      text ∈ ["null", "true", "false", "NaN", "Infinity"].map String.toList ∨
        text = '-' :: "Infinity".toList := by decide
  rcases either text known with name | rfl
  · exact named text name
  · refine ⟨Syntax.code_minus.append (named "Infinity".toList (by decide)).1 ?_, '-', _, rfl, by decide⟩
    rintro more _ c ⟨⟩
    decide

-- Every form of the grammar is code.
theorem Spelled.code (spelled : Spelled form text) : Code text form.apart ∧ Begins text := by
  induction spelled with
  | word known => exact code_known known
  | @number shown numeral =>
    obtain ⟨c, rest, rfl, digit⟩ := numeral.head
    exact ⟨code_numeral numeral, c, rest, rfl, (digit_plain digit).2.2.2.1⟩
  | @negative shown numeral =>
    refine ⟨Syntax.code_minus.append (code_numeral numeral) fun more _ c same => ?_,
      '-', shown, rfl, by decide⟩
    obtain ⟨d, rest, rfl, digit⟩ := numeral.head
    cases same
    have plain := (digit_plain digit).2.2.2.2
    constructor
    all_goals
      rintro rfl
      exact plain (by decide)
  | string closed => exact ⟨(code_quoted closed).weaken fun _ _ => trivial, '"', _, rfl, by decide⟩
  | emptyArray gap =>
    have group := (code_gap gap).group .square fun more => (Ended.closing more).1.notBlank
    exact ⟨group.weaken fun _ _ => trivial, '[', _, rfl, by decide⟩
  | array gap _ ih =>
    have group := (code_behind gap ih.1 ih.2).group .square fun more => (Ended.closing more).1
    exact ⟨group.weaken fun _ _ => trivial, '[', _, rfl, by decide⟩
  | emptyObject gap =>
    have group := (code_gap gap).group .brace fun more => (Ended.closing more).2.notBlank
    exact ⟨group.weaken fun _ _ => trivial, '{', _, rfl, by decide⟩
  | object gap _ ih =>
    have group := (code_behind gap ih.1 ih.2).group .brace fun more => (Ended.closing more).2
    exact ⟨group.weaken fun _ _ => trivial, '{', _, rfl, by decide⟩
  | element _ gap ih => exact ⟨code_spaced ih.1 gap, ih.2.append _⟩
  | elements _ gap next _ first others =>
    exact ⟨code_listed first.1 gap next others.1 others.2, (first.2.append _).append _⟩
  | member closed before behind _ gap ih =>
    exact code_keyed closed before behind (code_spaced ih.1 gap) (ih.2.append _)
  | members closed before behind _ gap next _ first others =>
    exact code_keyed closed before behind (code_listed first.1 gap next others.1 others.2)
      ((first.2.append _).append _)

def Ends (text : Text) : Prop := ∃ front c, text = front ++ [c] ∧ Text.isBlank c = false

theorem Ends.behind (ends : Ends text) (front : Text) : Ends (front ++ text) := by
  obtain ⟨before, c, rfl, visible⟩ := ends
  exact ⟨front ++ before, c, (List.append_assoc _ _ _).symm, visible⟩

theorem Digits.ends (digits : Digits text) : Ends text := by
  obtain ⟨front, c, rfl⟩ := (List.eq_nil_or_concat text).resolve_left digits.1
  exact ⟨front, c, by simp, (digit_plain (digits.2 c (by simp))).2.2.2.1⟩

theorem Numeral.ends (numeral : Numeral text) : Ends text := by
  cases numeral with
  | parts whole decimals power =>
    cases power with
    | digits _ _ digits => exact (((digits.ends.behind _).behind [_]).behind _).behind _
    | absent =>
      cases decimals with
      | absent => simpa using whole.ends
      | digits digits =>
        rw [List.append_nil]
        exact (digits.ends.behind ['.']).behind _

theorem Spelled.ends (spelled : Spelled .value text) : Ends text := by
  cases spelled with
  | word known =>
    have last : ∀ text ∈ words.map Prod.fst, text.getLast?.any (!Text.isBlank ·) = true := by decide
    obtain ⟨c, found, visible⟩ := (Option.any_eq_true _ _).mp (last text known)
    obtain ⟨front, rfl⟩ := List.getLast?_eq_some_iff.mp found
    exact ⟨front, c, rfl, by simpa using visible⟩
  | number numeral => exact numeral.ends
  | negative numeral => exact numeral.ends.behind ['-']
  | @string inner => exact ⟨'"' :: inner, '"', rfl, by decide⟩
  | @emptyArray front => exact ⟨'[' :: front, ']', rfl, by decide⟩
  | @array front inside => exact ⟨'[' :: (front ++ inside), ']', rfl, by decide⟩
  | @emptyObject front => exact ⟨'{' :: front, '}', rfl, by decide⟩
  | @object front inside => exact ⟨'{' :: (front ++ inside), '}', rfl, by decide⟩

-- Stripping a text takes the gaps around a value away and nothing else.
theorem strip_around (front : Gap before) (back : Gap after) (begins : Begins text) (ends : Ends text) :
    Text.strip (before ++ text ++ after) = text := by
  have blank : ∀ {gap}, Gap gap → ∀ c ∈ gap, Text.isBlank c = true :=
    fun gap c member => (isGap_blank (gap c member)).1
  have left : Text.stripLeft (before ++ text ++ after) = text ++ after := by
    obtain ⟨c, rest, rfl, visible⟩ := begins
    rw [Text.stripLeft, List.append_assoc, List.dropWhile_append_of_pos (blank front)]
    simp [visible]
  have right : Text.stripRight (text ++ after) = text := by
    obtain ⟨others, c, rfl, visible⟩ := ends
    have reversed : ∀ d ∈ after.reverse, Text.isBlank d = true :=
      fun d member => blank back d (List.mem_reverse.mp member)
    rw [Text.stripRight, List.reverse_append, List.dropWhile_append_of_pos reversed]
    simp [visible]
  rw [Text.strip, left, right]

end

end ModuleBundler.Json
