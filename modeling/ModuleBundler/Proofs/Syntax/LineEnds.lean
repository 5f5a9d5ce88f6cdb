import ModuleBundler.Proofs.Masking.LineEnds
import ModuleBundler.Proofs.Renamed
import ModuleBundler.Proofs.Syntax.Moved
import ModuleBundler.Proofs.Syntax.Places

/-!
The parser comes to the end of a line in the same way whether or not a semicolon ends it, and behind a
name on the next line it reads the same code, one place further on.
-/
namespace ModuleBundler

variable {text more later : Text}

namespace Lexeme

-- A character of a number.
def Numeric (c : Char) : Prop := Text.isNameChar c = true ∨ c = '.' ∨ c = '+' ∨ c = '-'

-- So many characters of a text, all of them characters of a number.
def Counted (text : Text) (size : Nat) : Prop := size ≤ text.length ∧ ∀ c ∈ text.take size, Numeric c

theorem counted_zero (text : Text) : Counted text 0 := ⟨Nat.zero_le _, by simp⟩

theorem Counted.cons (counted : Counted text size) (numeric : Numeric c) : Counted (c :: text) (size + 1) := by
  refine ⟨Nat.succ_le_succ counted.1, ?_⟩
  rw [List.take_succ_cons]
  exact List.forall_mem_cons.mpr ⟨numeric, counted.2⟩

theorem Counted.add (first : Counted text size) (second : Counted (text.drop size) count) :
    Counted text (size + count) := by
  obtain ⟨bounded, chars⟩ := first
  obtain ⟨bounded', chars'⟩ := second
  rw [List.length_drop] at bounded'
  refine ⟨by omega, ?_⟩
  rw [List.take_add]
  exact List.forall_mem_append.mpr ⟨chars, chars'⟩

theorem counted_run {within : Char → Bool} (names : ∀ c, within c = true → Text.isNameChar c = true)
    (text : Text) : Counted text (run within text) :=
  ⟨run_le within text, fun c member => .inl (names c (run_within within text c member))⟩

theorem counted_run1? {within : Char → Bool} (names : ∀ c, within c = true → Text.isNameChar c = true)
    (read : run1? within text = some size) : Counted text size := by
  have counted := counted_run names text
  rwa [run1?_run read] at counted

theorem radixNumber?_counted (read : radixNumber? text = some size) : Counted text size := by
  unfold radixNumber? at read
  split at read
  · rename_i base rest
    split at read
    · rename_i listed
      obtain ⟨digits, readDigits, rfl⟩ := Option.map_eq_some_iff.mp read
      have table : ∀ base ∈ ['x', 'X', 'o', 'O', 'b', 'B'], Text.isNameChar base = true := by decide
      exact ((counted_run1? isNameChar_of_isHexDigit readDigits).cons (.inl (table base listed))).cons
        (.inl (by decide))
    · cases read
  · cases read

theorem fraction_counted (text : Text) : Counted text (fraction text) := by
  unfold fraction
  split
  · exact (counted_run isNameChar_of_isDigitOrGap _).cons (.inr (.inl rfl))
  · exact counted_zero _

theorem decimal?_counted (read : decimal? text = some size) : Counted text size := by
  unfold decimal? at read
  split at read
  · split at read
    · rename_i decimal
      cases read
      exact ((counted_run isNameChar_of_isDigitOrGap _).cons (.inl (Text.isNameChar_of_isDecimal decimal))).cons
        (.inr (.inl rfl))
    · cases read
  · split at read
    · rename_i decimal
      cases read
      exact ((counted_run isNameChar_of_isDigitOrGap _).cons (.inl (Text.isNameChar_of_isDecimal decimal))).add
        (fraction_counted _)
    · cases read
  · cases read

theorem exponentDigits?_counted (read : exponentDigits? text = some size) : Counted text size := by
  have names : ∀ c, Text.isDecimal c = true → Text.isNameChar c = true := fun c => Text.isNameChar_of_isDecimal
  unfold exponentDigits? at read
  split at read
  · obtain ⟨digits, readDigits, rfl⟩ := Option.map_eq_some_iff.mp read
    exact (counted_run1? names readDigits).cons (.inr (.inr (.inl rfl)))
  · obtain ⟨digits, readDigits, rfl⟩ := Option.map_eq_some_iff.mp read
    exact (counted_run1? names readDigits).cons (.inr (.inr (.inr rfl)))
  · exact counted_run1? names read

theorem exponent_counted (text : Text) : Counted text (exponent text) := by
  have digits : ∀ (rest : Text) c, Text.isNameChar c = true →
      Counted (c :: rest) (((exponentDigits? rest).map (· + 1)).getD 0) := by
    intro rest c named
    cases read : exponentDigits? rest with
    | none => exact counted_zero _
    | some size => exact (exponentDigits?_counted read).cons (.inl named)
  unfold exponent
  split
  · exact digits _ _ (by decide)
  · exact digits _ _ (by decide)
  · exact counted_zero _

theorem bigSuffix_counted (text : Text) : Counted text (bigSuffix text) := by
  unfold bigSuffix
  split
  · exact (counted_zero _).cons (.inl (by decide))
  · exact counted_zero _

theorem number?_counted (read : number? text = some size) : Counted text size := by
  unfold number? at read
  obtain ⟨whole, readWhole, rfl⟩ := Option.map_eq_some_iff.mp read
  refine Counted.add ?_ (bigSuffix_counted _)
  rcases Option.or_eq_some_iff.mp readWhole with radix | ⟨_, decimal⟩
  · exact radixNumber?_counted radix
  · obtain ⟨digits, readDigits, rfl⟩ := Option.map_eq_some_iff.mp decimal
    exact (decimal?_counted readDigits).add (exponent_counted _)

theorem radixNumber?_lineEnd (ends : LineEnd more) (nonempty : text ≠ []) :
    radixNumber? (text ++ more) = radixNumber? text := by
  match text, nonempty with
  | [c], _ =>
    by_cases zero : c = '0'
    · subst zero
      cases ends <;> rfl
    · rw [List.singleton_append, radixNumber?_cons zero, radixNumber?_cons zero]
  | c :: base :: rest, _ =>
    by_cases zero : c = '0'
    · subst zero
      have digits : run1? isHexDigit (rest ++ more) = run1? isHexDigit rest :=
        run1?_lineEnd ends (by decide) (by decide) rest
      simp only [List.cons_append, radixNumber?, digits]
    · rw [List.cons_append, radixNumber?_cons zero, radixNumber?_cons zero]

theorem fraction_lineEnd (ends : LineEnd more) (text : Text) : fraction (text ++ more) = fraction text := by
  cases text with
  | nil => cases ends <;> rfl
  | cons c rest =>
    by_cases dot : c = '.'
    · subst dot
      exact congrArg (· + 1) (run_append_apart _ rest (ends.apart (by decide) (by decide)))
    · rw [List.cons_append, fraction.eq_2 _ (by simp [dot]), fraction.eq_2 _ (by simp [dot])]

theorem decimal?_lineEnd (ends : LineEnd more) (nonempty : text ≠ []) :
    decimal? (text ++ more) = decimal? text := by
  obtain ⟨c, rest, rfl⟩ := List.exists_cons_of_ne_nil nonempty
  have digits : ∀ rest : Text, run isDigitOrGap (rest ++ more) = run isDigitOrGap rest :=
    fun rest => run_append_apart _ rest (ends.apart (by decide) (by decide))
  by_cases dot : c = '.'
  · subst dot
    cases rest with
    | nil => cases ends <;> rfl
    | cons d rest => simp only [List.cons_append, decimal?, digits]
  · rw [List.cons_append, decimal?_cons dot, decimal?_cons dot, digits,
      List.drop_append_of_le_length (run_le _ rest), fraction_lineEnd ends]

theorem exponentDigits?_lineEnd (ends : LineEnd more) (text : Text) :
    exponentDigits? (text ++ more) = exponentDigits? text := by
  have digits : ∀ text : Text, run1? Text.isDecimal (text ++ more) = run1? Text.isDecimal text :=
    run1?_lineEnd ends (by decide) (by decide)
  cases text with
  | nil => cases ends <;> rfl
  | cons c rest =>
    by_cases plus : c = '+'
    · subst plus
      simp only [List.cons_append, exponentDigits?, digits]
    · by_cases minus : c = '-'
      · subst minus
        simp only [List.cons_append, exponentDigits?, digits]
      · rw [exponentDigits?_unsigned (by simpa using plus) (by simpa using minus),
          exponentDigits?_unsigned (by simpa using plus) (by simpa using minus), digits]

theorem exponent_lineEnd (ends : LineEnd more) (text : Text) : exponent (text ++ more) = exponent text := by
  cases text with
  | nil => cases ends <;> rfl
  | cons c rest =>
    by_cases letter : c = 'e' ∨ c = 'E'
    · rcases letter with rfl | rfl
      all_goals simp only [List.cons_append, exponent, exponentDigits?_lineEnd ends]
    · rw [not_or] at letter
      rw [List.cons_append, exponent.eq_3 _ (by simp [letter.1]) (by simp [letter.2]),
        exponent.eq_3 _ (by simp [letter.1]) (by simp [letter.2])]

theorem bigSuffix_lineEnd (ends : LineEnd more) (text : Text) : bigSuffix (text ++ more) = bigSuffix text := by
  cases text with
  | nil => cases ends <;> rfl
  | cons c rest =>
    by_cases letter : c = 'n'
    · subst letter
      rfl
    · rw [List.cons_append, bigSuffix.eq_2 _ (by simp [letter]), bigSuffix.eq_2 _ (by simp [letter])]

theorem number?_lineEnd (ends : LineEnd more) (nonempty : text ≠ []) :
    number? (text ++ more) = number? text := by
  have suffix : ∀ size, size ≤ text.length →
      size + bigSuffix ((text ++ more).drop size) = size + bigSuffix (text.drop size) := by
    intro size bounded
    rw [List.drop_append_of_le_length bounded, bigSuffix_lineEnd ends]
  unfold number?
  rw [radixNumber?_lineEnd ends nonempty, decimal?_lineEnd ends nonempty]
  cases based : radixNumber? text with
  | some size => exact congrArg some (suffix size (radixNumber?_counted based).1)
  | none =>
    cases read : decimal? text with
    | none => rfl
    | some size =>
      have counted := decimal?_counted read
      have raised : exponent ((text ++ more).drop size) = exponent (text.drop size) := by
        rw [List.drop_append_of_le_length counted.1, exponent_lineEnd ends]
      simp only [Option.none_or, Option.map_some, raised]
      exact congrArg some (suffix _ (counted.add (exponent_counted _)).1)

theorem name?_lineEnd (ends : LineEnd more) (nonempty : text ≠ []) : name? (text ++ more) = name? text := by
  obtain ⟨c, rest, rfl⟩ := List.exists_cons_of_ne_nil nonempty
  rw [List.cons_append, name?, name?, run_append_apart _ rest (ends.apart (by decide) (by decide))]

-- Behind its first character no fixed spelling has one of a line end.
theorem startsWith_lineEnd (ends : LineEnd more) (nonempty : text ≠ []) {word : Text}
    (apart : ∀ c ∈ word.drop 1, c ≠ '\n' ∧ c ≠ ';') :
    Text.startsWith (text ++ more) word = Text.startsWith text word := by
  have beyond : ∀ (text word : Text), (∀ c ∈ word, c ≠ '\n' ∧ c ≠ ';') →
      word.isPrefixOf (text ++ more) = word.isPrefixOf text := by
    intro text word
    induction word generalizing text with
    | nil => intro; simp
    | cons d word ih =>
      intro other
      obtain ⟨here, behind⟩ := List.forall_mem_cons.mp other
      cases text with
      | nil =>
        obtain ⟨c, later, rfl, rfl | rfl⟩ := ends.head
        · simp [List.isPrefixOf, here.1]
        · simp [List.isPrefixOf, here.2]
      | cons c text => rw [List.cons_append, List.isPrefixOf, List.isPrefixOf, ih text behind]
  obtain ⟨c, rest, rfl⟩ := List.exists_cons_of_ne_nil nonempty
  unfold Text.startsWith
  cases word with
  | nil => simp
  | cons d word => rw [List.cons_append, List.isPrefixOf, List.isPrefixOf, beyond rest word apart]

theorem punctuator?_lineEnd (ends : LineEnd more) (nonempty : text ≠ []) :
    punctuator? (text ++ more) = punctuator? text := by
  have table : ∀ mark ∈ punctuators, ∀ c ∈ mark.drop 1, c ≠ '\n' ∧ c ≠ ';' := by decide
  unfold punctuator?
  rw [List.find?_congr fun mark member => startsWith_lineEnd ends nonempty (table mark member)]

end Lexeme

-- What is read inside is read in both ways, and where nothing is read, nothing is read in the other way.
structure Stays (inside : α → Prop) (bare closed : Option α) : Prop where
  unread : bare = none → closed = none
  kept : ∀ found, inside found → bare = some found → closed = some found

theorem stays_refl (inside : α → Prop) (read : Option α) : Stays inside read read := ⟨id, fun _ _ => id⟩

theorem Stays.or {inside : α → Prop} (first : Stays inside bare closed) (second : Stays inside bare' closed') :
    Stays inside (bare.or bare') (closed.or closed') := by
  cases bare with
  | none =>
    rw [first.unread rfl]
    exact second
  | some found =>
    refine ⟨nofun, fun other within same => ?_⟩
    cases same
    rw [first.kept found within rfl]
    rfl

theorem Stays.map {inside : α → Prop} {within : β → Prop} {here there : α → β} (stays : Stays inside bare closed)
    (ends : ∀ found, within (here found) → inside found) (same : ∀ found,
      inside found → there found = here found) :
    Stays within (bare.map here) (closed.map there) := by
  cases bare with
  | none =>
    rw [stays.unread rfl]
    exact ⟨fun _ => rfl, nofun⟩
  | some found =>
    refine ⟨nofun, fun other beyond read => ?_⟩
    cases read
    rw [stays.kept found (ends found beyond) rfl, Option.map_some, same found (ends found beyond)]

namespace Lexeme

theorem Reach.stays (reach : Reach low within bare closed) {inside : Nat → Prop}
    (below : ∀ size, inside size → size < low) : Stays inside bare closed := by
  cases reach with
  | inside => exact stays_refl _ _
  | past far =>
    refine ⟨nofun, fun size within same => ?_⟩
    cases same
    exact absurd far (Nat.not_le.mpr (below _ within))

theorem isBlank_of_isMemberGap (gap : isMemberGap c = true) : Text.isBlank c = true := by
  simp only [isMemberGap, Bool.or_eq_true, beq_iff_eq] at gap
  rcases gap with ((rfl | rfl) | rfl) | rfl <;> decide

-- A name on the next line is the property of a dot, but not behind a semicolon.
theorem propertyName?_stays (solid : text = [] ∨ Solid text) (later : Text) :
    Stays (· ≤ text.length) (propertyName? (text ++ '\n' :: later)) (propertyName? (text ++ ';' :: '\n' :: later)) := by
  rcases solid with rfl | solid
  · refine ⟨fun _ => rfl, fun size inside read => ?_⟩
    obtain ⟨count, readName, rfl⟩ := Option.map_eq_some_iff.mp read
    have positive := name?_pos readName
    exact absurd inside (by simp only [List.length_nil]; omega)
  · have alone : ∀ more, LineEnd more → propertyName? (text ++ more) = propertyName? text := by
      intro more ends
      obtain ⟨c, last, visible, _⟩ := solid
      have apart : isMemberGap c = false := by
        refine Bool.eq_false_iff.mpr fun gap => ?_
        rw [isBlank_of_isMemberGap gap] at visible
        cases visible
      have among := List.mem_of_getLast? last
      have behind : text.drop (run isMemberGap text) ≠ [] := by
        intro ended
        rw [List.drop_eq_nil_iff] at ended
        have inside := run_within isMemberGap text
        rw [List.take_of_length_le ended] at inside
        rw [inside c among] at apart
        cases apart
      rw [propertyName?, propertyName?, run_append isMemberGap more among apart,
        List.drop_append_of_le_length (run_le _ _), name?_lineEnd ends behind]
    rw [alone _ .bare, alone _ .closed]
    exact stays_refl _ _

theorem member?_stays (solid : Solid text) (later : Text) :
    Stays (· ≤ text.length) (member? (text ++ '\n' :: later)) (member? (text ++ ';' :: '\n' :: later)) := by
  obtain ⟨c, rest, rfl⟩ := List.exists_cons_of_ne_nil solid.nonempty
  by_cases dot : c = '.'
  · subst dot
    have property := propertyName?_stays solid.rest later
    exact property.map (fun _ inside => Nat.le_of_succ_le_succ inside) fun _ _ => rfl
  · by_cases optional : c = '?'
    · subst optional
      have marks : ∀ more : Text, more.head? ≠ some '.' → member? ('?' :: more) = none := by
        intro more other
        exact member?.eq_3 _ (by rintro rest ⟨⟩; exact other rfl) (by rintro rest ⟨⟩)
      cases rest with
      | nil =>
        rw [List.cons_append, List.cons_append, marks _ (by simp), marks _ (by simp)]
        exact stays_refl _ _
      | cons d rest =>
        by_cases dot : d = '.'
        · subst dot
          have property := propertyName?_stays (solid.rest.resolve_left (by simp)).rest later
          exact property.map (fun _ inside => Nat.le_of_succ_le_succ (Nat.le_of_succ_le_succ inside)) fun _ _ => rfl
        · rw [List.cons_append, List.cons_append, List.cons_append, List.cons_append,
            marks _ (by simpa using dot),
            marks _ (by simpa using dot)]
          exact stays_refl _ _
    · rw [List.cons_append, List.cons_append, member?_mark (by simpa using optional) (by simpa using dot),
        member?_mark (by simpa using optional) (by simpa using dot)]
      exact stays_refl _ _

theorem Numeric.visible (numeric : Numeric c) : Text.isBlank c = false ∧ c ≠ '\\' := by
  rcases numeric with named | rfl | rfl | rfl
  · exact visible_name named
  all_goals decide

theorem propertyName?_solid (read : propertyName? (text ++ more) = some text.length) : Solid text := by
  obtain ⟨count, readName, size⟩ := Option.map_eq_some_iff.mp read
  generalize run isMemberGap (text ++ more) = gap at readName size
  have bounded : gap ≤ text.length := by omega
  rw [List.drop_append_of_le_length bounded] at readName
  have named := name?_isName readName
  have whole : count = (text.drop gap).length := by
    rw [List.length_drop]
    omega
  rw [whole, List.take_left] at named
  rw [← List.take_append_drop gap text]
  exact (solid_name named).behind _

theorem member?_solid (read : member? (text ++ more) = some text.length) : Solid text := by
  obtain ⟨c, rest, rfl⟩ := List.exists_cons_of_ne_nil (List.ne_nil_of_length_pos (member?_pos read))
  by_cases dot : c = '.'
  · subst dot
    obtain ⟨inner, readInner, size⟩ := Option.map_eq_some_iff.mp read
    have property : propertyName? (rest ++ more) = some inner := readInner
    rw [Nat.succ.inj size] at property
    exact (propertyName?_solid property).behind ['.']
  · by_cases optional : c = '?'
    · subst optional
      unfold member? at read
      split at read
      · rename_i tail parts
        obtain ⟨inner, readInner, size⟩ := Option.map_eq_some_iff.mp read
        cases rest with
        | nil => simp at size
        | cons d rest =>
          obtain ⟨rfl, rfl⟩ := List.cons.inj (List.cons.inj parts).2
          have inside : inner = rest.length := by simpa using size
          exact (propertyName?_solid (inside ▸ readInner)).behind ['?', '.']
      · rename_i same
        cases same
      · cases read
    · rw [List.cons_append, member?_mark (by simpa using optional) (by simpa using dot)] at read
      cases read

end Lexeme

namespace Lexer
open Lexeme

-- A lexeme that ends within so many characters; what is skipped ends before the last of them.
def Inside (size : Nat) : Lexed → Prop
  | .skipped count => count < size
  | .token _ count => count ≤ size

theorem ignored?_stays (solid : Solid text) (before later : Text) :
    Stays (· < text.length) (ignored? before (text ++ '\n' :: later))
      (ignored? before (text ++ ';' :: '\n' :: later)) := by
  have bare : LineEnd ('\n' :: later) := .bare
  have comment := comment?_reach (solid.whole bare) (solid.whole .closed) solid.nonempty
  simp only [ignored?, Option.orElse_eq_orElse, Option.orElse_eq_or, blanks?_lineEnd solid]
  refine (stays_refl _ _).or ((comment.stays fun _ => id).or ?_)
  split
  · exact (hashbang?_reach solid.nonempty).stays fun _ => id
  · exact stays_refl _ _

theorem regex?_lineEnd (ends : LineEnd more) (nonempty : text ≠ []) (before : Text) :
    regex? before (text ++ more) = regex? before text := by
  rw [regex?, regex?, Lexeme.regex?, Lexeme.regex?, regexBody?_lineEnd ends nonempty]
  cases read : regexBody? text with
  | none => rfl
  | some body => rw [Option.map_some, Option.map_some, flags_lineEnd ends (by decide) (by decide) read]

theorem leafSize?_stays (solid : Solid text) (before later : Text) (leaf : Leaf) :
    Stays (· ≤ text.length) (leafSize? leaf before (text ++ '\n' :: later))
      (leafSize? leaf before (text ++ ';' :: '\n' :: later)) := by
  have nonempty := solid.nonempty
  have bare : LineEnd ('\n' :: later) := .bare
  have closed : LineEnd (';' :: '\n' :: later) := .closed
  have same (alone : ∀ more, LineEnd more → leafSize? leaf before (text ++ more) = leafSize? leaf before text) :
      Stays (· ≤ text.length) (leafSize? leaf before (text ++ '\n' :: later))
        (leafSize? leaf before (text ++ ';' :: '\n' :: later)) := by
    rw [alone _ bare, alone _ closed]
    exact stays_refl _ _
  cases leaf with
  | name => exact same fun _ ends => name?_lineEnd ends nonempty
  | member => exact member?_stays solid later
  | number => exact same fun _ ends => number?_lineEnd ends nonempty
  | string => exact same fun _ ends => string?_lineEnd ends solid
  | template =>
    exact (template?_reach (solid.whole bare) (solid.whole closed) nonempty).stays fun _ => Nat.lt_succ_of_le
  | regex => exact same fun _ ends => regex?_lineEnd ends nonempty before
  | punctuator => exact same fun _ ends => punctuator?_lineEnd ends nonempty

theorem leaf?_stays (solid : Solid text) (before later : Text) (leaf : Leaf) :
    Stays (Inside text.length) (leaf? expected before (text ++ '\n' :: later) leaf)
      (leaf? expected before (text ++ ';' :: '\n' :: later) leaf) := by
  unfold leaf?
  split
  · refine (leafSize?_stays solid before later leaf).map ?_ ?_
    · intro size within
      cases leaf <;> exact within
    · intro size inside
      have cut : ∀ more, (text ++ more).take size = text.take size := fun more => List.take_append_of_le_length inside
      cases leaf <;> simp only [cut]
  · exact stays_refl _ _

theorem spelled?_lineEnd (ends : LineEnd more) (nonempty : text ≠ []) :
    spelled? expected (text ++ more) = spelled? expected text := by
  have table : ∀ entry ∈ spelled, ∀ c ∈ entry.2.drop 1, c ≠ '\n' ∧ c ≠ ';' := by decide
  unfold spelled?
  refine congrArg _ (List.find?_congr fun entry member => ?_)
  rw [startsWith_lineEnd ends nonempty (table entry member)]

-- What is read in front of the end of a line is the same whether or not a semicolon stands there.
theorem lexeme?_stays (solid : Solid text) (before later : Text) :
    Stays (Inside text.length) (lexeme? expected before (text ++ '\n' :: later))
      (lexeme? expected before (text ++ ';' :: '\n' :: later)) := by
  have leaf : ∀ leaf, Stays (Inside text.length) (leaf? expected before (text ++ '\n' :: later) leaf)
      (leaf? expected before (text ++ ';' :: '\n' :: later) leaf) := leaf?_stays solid before later
  have ignored : Stays (Inside text.length) ((ignored? before (text ++ '\n' :: later)).map Lexed.skipped)
      ((ignored? before (text ++ ';' :: '\n' :: later)).map Lexed.skipped) :=
    (ignored?_stays solid before later).map (fun _ => id) fun _ _ => rfl
  have bare : LineEnd ('\n' :: later) := .bare
  simp only [lexeme?, Option.orElse_eq_orElse, Option.orElse_eq_or]
  rw [spelled?_lineEnd bare solid.nonempty, spelled?_lineEnd .closed solid.nonempty]
  exact (leaf _).or (ignored.or ((leaf _).or ((leaf _).or ((leaf _).or ((leaf _).or ((leaf _).or
    ((leaf _).or (stays_refl _ _))))))))

theorem visible_flag (flag : isFlag c = true) : Text.isBlank c = false ∧ c ≠ '\\' := by
  rw [isFlag, Bool.and_eq_true, decide_eq_true_eq, decide_eq_true_eq, Char.le_def, Char.le_def,
    UInt32.le_iff_toNat_le, UInt32.le_iff_toNat_le] at flag
  have bounds : 97 ≤ c.toNat ∧ c.toNat ≤ 122 := flag
  constructor
  · simp only [Text.isBlank, Text.within, Text.blankRanges, List.any_cons, List.any_nil,
      Bool.or_false, Bool.or_eq_false_iff,
      Bool.and_eq_false_iff, decide_eq_false_iff_not]
    omega
  · rintro rfl
    exact absurd bounds (by decide)

-- A token ends with a visible character that takes no other one with it.
theorem leafSize?_solid (read : leafSize? leaf before (text ++ more) = some text.length) (nonempty : text ≠ []) :
    Solid text := by
  have whole : (text ++ more).take text.length = text := List.take_left
  cases leaf with
  | name =>
    have named := name?_isName read
    rw [whole] at named
    exact solid_name named
  | member => exact member?_solid read
  | number =>
    have counted := (number?_counted read).2
    rw [whole] at counted
    exact solid_chars nonempty fun c among => (counted c among).visible
  | string =>
    rcases string?_last read with last | last
    · exact ⟨_, last, by decide, by decide⟩
    · exact ⟨_, last, by decide, by decide⟩
  | template => exact ⟨_, template?_last read, by decide, by decide⟩
  | regex =>
    simp only [leafSize?, regex?, Lexeme.regex?] at read
    split at read
    · obtain ⟨body, readBody, size⟩ := Option.map_eq_some_iff.mp read
      obtain ⟨parts, slash, flags⟩ := regex_last readBody size.symm
      by_cases none_ : text.drop body = []
      · rw [none_, List.append_nil] at parts
        exact ⟨'/', parts ▸ slash, by decide, by decide⟩
      · rw [← parts]
        exact (solid_chars none_ fun c among => visible_flag (flags c among)).behind _
    · cases read
  | punctuator =>
    have table : ∀ mark ∈ punctuators, Solid mark := by decide
    obtain ⟨mark, found, size⟩ := Option.map_eq_some_iff.mp read
    have starts : Text.startsWith (text ++ more) mark = true := List.find?_some found
    have parts := List.prefix_iff_eq_take.mp (List.isPrefixOf_iff_prefix.mp starts)
    rw [size, whole] at parts
    exact parts ▸ table mark (List.mem_of_find?_eq_some found)

theorem lexeme?_solid (read : lexeme? expected before (text ++ more) = some (.token terminal text.length)) :
    Solid text := by
  have nonempty : text ≠ [] := List.ne_nil_of_length_pos (lexeme?_token_pos read)
  rcases lexeme?_token_cases read with ⟨leaf, readLeaf⟩ | ⟨entry, among, _, _, size, later, parts⟩
  · obtain ⟨_, size, same, readSize⟩ := leaf?_parts readLeaf
    cases same
    exact leafSize?_solid readSize nonempty
  · have table : ∀ entry ∈ spelled, Solid entry.2 := by decide
    exact (List.append_inj parts size).1 ▸ table entry among

end Lexer

namespace Cursor
variable {cursor : Cursor}

-- The same place in a text that goes on.
def followed (more : Text) (cursor : Cursor) : Cursor := { cursor with rest := cursor.rest ++ more }

theorem followed_step (remains : cursor.rest ≠ []) : (cursor.followed more).step = cursor.step.followed more := by
  obtain ⟨before, rest, offset, line, column⟩ := cursor
  obtain ⟨c, rest, rfl⟩ := List.exists_cons_of_ne_nil remains
  simp only [followed, step, List.cons_append]
  split <;> rfl

theorem followed_advance (inside : count ≤ cursor.rest.length) :
    (cursor.followed more).advance count = (cursor.advance count).followed more := by
  induction count generalizing cursor with
  | zero => rfl
  | succ count ih =>
    have remains : cursor.rest ≠ [] := List.ne_nil_of_length_pos (Nat.zero_lt_of_lt inside)
    rw [advance, advance, followed_step remains, ih]
    rw [rest_step, List.length_drop]
    omega

theorem followed_token (inside : size ≤ cursor.rest.length) :
    (cursor.followed more).token terminal size = cursor.token terminal size := by
  simp only [token, followed, List.take_append_of_le_length inside]

theorem Within.le_advance (within : Within text cursor) : cursor.offset ≤ (cursor.advance size).offset := by
  rw [within.offset_advance]
  exact Nat.le_add_right _ _

theorem Within.offset_followed (within : Within text cursor) (inside : cursor.offset < text.length)
    (ends : ((cursor.followed (c :: later)).advance size).offset ≤ text.length)
    (whole : Within (text ++ c :: later) (cursor.followed (c :: later))) :
    ((cursor.followed (c :: later)).advance size).offset = cursor.offset + size ∧
      cursor.offset + cursor.rest.length = text.length := by
  have moved := whole.offset_advance size
  have offset : (cursor.followed (c :: later)).offset = cursor.offset := rfl
  have rest : (cursor.followed (c :: later)).rest = cursor.rest ++ c :: later := rfl
  have left : cursor.rest.length = text.length - cursor.offset := by rw [within.rest, List.length_drop]
  rw [offset, rest, List.length_take, List.length_append, List.length_cons] at moved
  omega

theorem Within.line_advance (within : Within text cursor) (size : Nat) :
    (cursor.advance size).line = (cursor.token terminal size).lastLine := by
  have moved := (within.advance size).line
  rw [before_advance] at moved
  rw [moved, Token.lastLine, token, within.line]
  simp only [Text.newlines, List.count_append, List.count_reverse]
  omega

end Cursor

namespace Syntax
open Lexer

variable {machine next : Machine} {cursor place : Cursor}

-- What is read at a place in front of the end of the line is read there in either text.
theorem read_lineEnd (solid : Solid text) (within : Cursor.Within text place) (inside : place.offset < text.length)
    (read : lexeme? expected place.before (place.rest ++ '\n' :: later) = some lexed)
    (ends : Inside place.rest.length lexed) :
    lexeme? expected place.before (place.rest ++ ';' :: '\n' :: later) = some lexed := by
  have rest : Solid place.rest := within.rest ▸ solid.drop inside
  exact (lexeme?_stays rest place.before later).kept lexed ends read

-- The parser comes to the same places in front of the end of the line.
theorem Comes.lineEnd (solid : Solid text) (comes : Comes (text ++ '\n' :: later) machine cursor)
    (inside : cursor.offset < text.length) :
    ∃ place, cursor = place.followed ('\n' :: later) ∧ Cursor.Within text place ∧
      Comes (text ++ ';' :: '\n' :: later) machine (place.followed (';' :: '\n' :: later)) := by
  induction comes with
  | start => exact ⟨Cursor.start text, rfl, Cursor.start_within text, .start⟩
  | @skip machine cursor size comes read ih =>
    have earlier := Nat.lt_of_le_of_lt comes.within.le_advance inside
    obtain ⟨place, rfl, within, comes'⟩ := ih earlier
    obtain ⟨passed, left⟩ := within.offset_followed earlier (Nat.le_of_lt inside) comes.within
    have ends : size < place.rest.length := by omega
    refine ⟨place.advance size, Cursor.followed_advance (Nat.le_of_lt ends), within.advance size, ?_⟩
    rw [← Cursor.followed_advance (Nat.le_of_lt ends)]
    exact comes'.skip (read_lineEnd solid within earlier read ends)
  | @take machine cursor terminal size next comes read fed ih =>
    have earlier := Nat.lt_of_le_of_lt comes.within.le_advance inside
    obtain ⟨place, rfl, within, comes'⟩ := ih earlier
    obtain ⟨passed, left⟩ := within.offset_followed earlier (Nat.le_of_lt inside) comes.within
    have ends : size ≤ place.rest.length := by omega
    refine ⟨place.advance size, Cursor.followed_advance ends, within.advance size, ?_⟩
    rw [← Cursor.followed_advance ends]
    refine comes'.take (read_lineEnd solid within earlier read ends) ?_
    rw [Cursor.followed_token ends] at fed ⊢
    exact fed

-- The last token in front of the end of the line is taken in either text.
theorem Comes.ends_line (solid : Solid text) (comes : Comes (text ++ '\n' :: later) machine cursor)
    (read : lexeme? machine.expected cursor.before cursor.rest = some (.token terminal size))
    (fed : machine.feed (cursor.token terminal size) = some next) (ends : cursor.offset + size = text.length) :
    ∃ place : Cursor, place.rest = [] ∧ place.line = (cursor.token terminal size).lastLine ∧
      Comes (text ++ '\n' :: later) next (place.followed ('\n' :: later)) ∧
      Comes (text ++ ';' :: '\n' :: later) next (place.followed (';' :: '\n' :: later)) := by
  have positive := lexeme?_token_pos read
  have inside : cursor.offset < text.length := by omega
  obtain ⟨place, rfl, within, comes'⟩ := comes.lineEnd solid inside
  have whole : size = place.rest.length := by
    rw [within.rest, List.length_drop]
    exact Nat.eq_sub_of_add_eq' ends
  have reach : size ≤ place.rest.length := Nat.le_of_eq whole
  have read' := read_lineEnd solid within inside read reach
  have bare := comes.take read fed
  rw [Cursor.followed_advance reach] at bare
  rw [Cursor.followed_token reach] at fed ⊢
  have closed := comes'.take read' (by rwa [Cursor.followed_token reach])
  rw [Cursor.followed_advance reach] at closed
  exact ⟨place.advance size, by rw [Cursor.rest_advance, whole, List.drop_length],
    within.line_advance size, bare, closed⟩

theorem Machine.expected_idle (machine : Machine) (closed : machine.frames = [])
    (idle : machine.progress = .idle afterNode) : machine.expected ∈ codeSets := by
  rw [Machine.expected, closed]
  simp only [idle]
  cases afterNode <;> exact (by decide)

-- A name at the beginning of a line, and a semicolon at its end.
theorem lexeme?_named (named : Text.IsName name) (free : name ∉ reserved) (apart : Masking.NotName behind)
    (closed : machine.frames = []) (idle : machine.progress = .idle afterNode) (before : Text) :
    lexeme? machine.expected before (name ++ behind) = some (.token (.leaf .name) name.length) := by
  have code := machine.expected_idle closed idle
  rw [Segment.lexeme?_word named behind apart code, nameTerminal_code code free]

theorem lexeme?_semicolon (closed : machine.frames = []) (idle : machine.progress = .idle afterNode) (before : Text) :
    lexeme? machine.expected before (';' :: '\n' :: behind) = some (.token (.leaf .punctuator) 1) := by
  have sound : Segment.Sound (.punctuator [';']) := by decide
  have apart : Segment.apart (.punctuator [';']) ('\n' :: behind) := by
    rintro _ ⟨⟩
    decide
  exact Segment.lexeme?_segment sound trivial apart (machine.expected_idle closed idle) nofun before

theorem Machine.feed_idle (machine : Machine) (closed : machine.frames = []) (idle : machine.progress = .idle afterNode)
    (token : Token) (lexed : token.terminal = .leaf leaf) :
    machine.feed token = some (machine.addNode (.leaf token)) :=
  Step.fed (.begins closed idle (.leaf lexed))

-- Behind the name that the next line begins with the rest is read alike, one place further on behind a semicolon.
theorem parse_lineEnd (ended : place.rest = []) (closed : next.frames = []) (idle : next.progress = .idle afterNode)
    (named : Text.IsName name) (free : name ∉ reserved) (apart : Masking.NotName behind)
    (bare : Comes (text ++ '\n' :: (name ++ behind)) next (place.followed ('\n' :: (name ++ behind))))
    (marked : Comes (text ++ ';' :: '\n' :: (name ++ behind)) next
      (place.followed (';' :: '\n' :: (name ++ behind)))) :
    ∃ (word semicolon : Token) (rest : Option Module), word.terminal = .leaf .name ∧ word.line = place.line + 1 ∧
      semicolon.isPunctuator [';'] = true ∧
      (parse (text ++ '\n' :: (name ++ behind))).toOption
        = rest.map (onto (.lines 0) (.node (.leaf word) :: next.items)) ∧
      (parse (text ++ ';' :: '\n' :: (name ++ behind))).toOption
        = rest.map (onto (.lines 1) (.node (.leaf (word.moved (.lines 1))) :: .node (.leaf semicolon) :: next.items)) := by
  obtain ⟨before, _, offset, line, column⟩ := place
  obtain ⟨items, _, _⟩ := next
  cases ended
  cases closed
  cases idle
  have visible : Masking.NotBlank (name ++ behind) := by
    have chars := (Masking.spelled_of_isName named).visible
    obtain ⟨c, rest, rfl, _⟩ := named
    rintro _ ⟨⟩
    exact chars c List.mem_cons_self
  have nonempty := (Masking.spelled_of_isName named).1
  -- The places in front of the name.
  let here : Cursor := ⟨'\n' :: before, name ++ behind, offset + 1, line + 1, 1⟩
  let there : Cursor := ⟨'\n' :: ';' :: before, name ++ behind, offset + 2, line + 1, 1⟩
  let word := here.token (.leaf .name) name.length
  let semicolon : Token := ⟨.leaf .punctuator, [';'], offset, line, column⟩
  have beside : Beside 1 here there := ⟨rfl, rfl, rfl, rfl⟩
  have recalls : Recalls here.before there.before here.rest := .inr ⟨[], before, ';' :: before, rfl, rfl⟩
  have own : Recalls here.before here.before here.rest := .inr ⟨[], before, before, rfl, rfl⟩
  have onward : ∀ other : Cursor, other.rest = here.rest → Recalls here.before other.before here.rest →
      Recalls (here.advance name.length).before (other.advance name.length).before
        (here.advance name.length).rest := by
    intro other same recalls
    rw [Cursor.before_advance, Cursor.before_advance, Cursor.rest_advance, same]
    exact recalls.advance (List.length_pos_iff.mpr nonempty) (by simp [here, nonempty])
  have first : Comes (text ++ '\n' :: (name ++ behind)) ⟨.node (.leaf word) :: items, .idle true, []⟩
      (here.advance name.length) := by
    have line := bare.skip (Segment.lexeme?_gap (.inr rfl) visible _ _)
    exact line.take (lexeme?_named named free apart rfl rfl _) (Machine.feed_idle _ rfl rfl _ rfl)
  have second : Comes (text ++ ';' :: '\n' :: (name ++ behind))
      ⟨.node (.leaf (word.moved (.lines 1))) :: .node (.leaf semicolon) :: items, .idle true,
        []⟩ (there.advance name.length) := by
    have line := (marked.take (lexeme?_semicolon rfl rfl _) (Machine.feed_idle _ rfl rfl _ rfl)).skip
      (Segment.lexeme?_gap (.inr rfl) visible _ _)
    exact line.take (lexeme?_named named free apart rfl rfl _) (Machine.feed_idle _ rfl rfl _ rfl)
  obtain ⟨fuel, previous, enough, goes⟩ := first.parse
  obtain ⟨otherFuel, otherPrevious, otherEnough, otherGoes⟩ := second.parse
  let start : Machine := ⟨[], .idle true, []⟩
  refine ⟨word, semicolon, (parseFrom fuel start (here.advance name.length) none).toOption, rfl,
    rfl, rfl, ?_, ?_⟩
  · rw [goes]
    change (parseFrom fuel (start.onto (.lines 0) (.node (.leaf word) :: items)) _ _).toOption = _
    exact parseFrom_onto ⟨rfl, rfl, rfl, rfl⟩ (onward here rfl own) enough enough
  · have left : (there.advance name.length).rest = (here.advance name.length).rest := (beside.advance _).rest
    rw [left] at otherEnough
    rw [otherGoes]
    change (parseFrom otherFuel (start.onto (.lines 1) (.node (.leaf (word.moved (.lines 1))) :: .node (.leaf semicolon) :: items))
      _ _).toOption = _
    exact parseFrom_onto (beside.advance _) (onward there rfl recalls) enough otherEnough

end Syntax
end ModuleBundler
