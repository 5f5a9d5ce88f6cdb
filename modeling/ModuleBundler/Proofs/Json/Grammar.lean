import ModuleBundler.Logged
import ModuleBundler.Proofs.Literal

/-!
How documents are spelled. What the reader takes off a text is a value of this grammar, and a document
is one value with gaps around it.
-/
namespace ModuleBundler.Json

def Gap (text : Text) : Prop := ∀ c ∈ text, isGap c = true

def Digits (text : Text) : Prop := text ≠ [] ∧ ∀ c ∈ text, isDigit c = true

inductive Decimals : Text → Prop where
  | absent : Decimals []
  | digits (digits : Digits shown) : Decimals ('.' :: shown)

inductive Power : Text → Prop where
  | absent : Power []
  | digits (letter : c = 'e' ∨ c = 'E') (sign : mark = [] ∨ mark = ['+'] ∨ mark = ['-'])
      (digits : Digits shown) : Power (c :: (mark ++ shown))

-- A number behind its sign.
inductive Numeral : Text → Prop where
  | parts (whole : Digits shown) (decimals : Decimals more) (power : Power later) :
      Numeral (shown ++ (more ++ later))

def quoted (inner : Text) : Text := '"' :: (inner ++ ['"'])

inductive Form where
  | value
  -- What stands between the brackets, from the first value or key on.
  | elements
  | members
  deriving DecidableEq, Repr

inductive Spelled : Form → Text → Prop where
  | word (known : shown ∈ words.map Prod.fst) : Spelled .value shown
  | number (numeral : Numeral shown) : Spelled .value shown
  | negative (numeral : Numeral shown) : Spelled .value ('-' :: shown)
  | string {inner : Text} (closed : Literal.sealed inner = true) : Spelled .value (quoted inner)
  | emptyArray (gap : Gap front) : Spelled .value ('[' :: (front ++ [']']))
  | array (gap : Gap front) (inside : Spelled .elements shown) :
      Spelled .value ('[' :: (front ++ shown ++ [']']))
  | emptyObject (gap : Gap front) : Spelled .value ('{' :: (front ++ ['}']))
  | object (gap : Gap front) (inside : Spelled .members shown) :
      Spelled .value ('{' :: (front ++ shown ++ ['}']))
  | element (value : Spelled .value shown) (gap : Gap back) : Spelled .elements (shown ++ back)
  | elements (value : Spelled .value shown) (gap : Gap back) (next : Gap front)
      (others : Spelled .elements more) : Spelled .elements (shown ++ back ++ ',' :: (front ++ more))
  | member (closed : Literal.sealed key = true) (before : Gap between) (behind : Gap front)
      (value : Spelled .value shown) (gap : Gap back) :
      Spelled .members (quoted key ++ between ++ ':' :: (front ++ (shown ++ back)))
  | members (closed : Literal.sealed key = true) (before : Gap between) (behind : Gap front)
      (value : Spelled .value shown) (gap : Gap back) (next : Gap first) (others : Spelled .members more) :
      Spelled .members
        (quoted key ++ between ++ ':' :: (front ++ (shown ++ back ++ ',' :: (first ++ more))))

section
variable {text : Text} {value : Json}

theorem gap_skipGap (text : Text) : ∃ gap, text = gap ++ skipGap text ∧ Gap gap :=
  ⟨text.takeWhile isGap, List.takeWhile_append_dropWhile.symm, List.all_eq_true.mp List.all_takeWhile⟩

theorem digits_takeWhile (text : Text) (nonempty : text.takeWhile isDigit ≠ []) :
    Digits (text.takeWhile isDigit) :=
  ⟨nonempty, List.all_eq_true.mp List.all_takeWhile⟩

theorem fraction_parts (text : Text) :
    ∃ decimals, text = decimals ++ (fraction text).2 ∧ Decimals decimals ∧
      ((fraction text).1 = [] → decimals = []) := by
  unfold fraction
  split
  · rename_i c rest
    split
    · rename_i digit
      have shown := digits_takeWhile (c :: rest) (by simp [digit])
      rw [List.takeWhile_cons, if_pos digit] at shown
      refine ⟨'.' :: c :: rest.takeWhile isDigit, ?_, .digits shown, nofun⟩
      rw [List.cons_append, List.cons_append, List.takeWhile_append_dropWhile]
    · exact ⟨[], rfl, .absent, fun _ => rfl⟩
  · exact ⟨[], rfl, .absent, fun _ => rfl⟩

theorem exponentSign_parts (text : Text) :
    ∃ sign, text = sign ++ (exponentSign text).2 ∧ (sign = [] ∨ sign = ['+'] ∨ sign = ['-']) := by
  unfold exponentSign
  split
  · exact ⟨['-'], rfl, .inr (.inr rfl)⟩
  · exact ⟨['+'], rfl, .inr (.inl rfl)⟩
  · exact ⟨[], rfl, .inl rfl⟩

theorem exponent?_parts (read : exponent? text = some (size, rest)) :
    ∃ power, text = power ++ rest ∧ Power power := by
  have behind : ∀ c later, c = 'e' ∨ c = 'E' → exponent? (c :: later) = some (size, rest) →
      ∃ power, c :: later = power ++ rest ∧ Power power := by
    intro c later letter read
    have opened : exponent? (c :: later) = exponent? ('e' :: later) := by
      rcases letter with rfl | rfl <;> rfl
    rw [opened, exponent?] at read
    obtain ⟨sign, parts, known⟩ := exponentSign_parts later
    generalize exponentSign later = signed at read parts
    dsimp only at read
    split at read
    · cases read
    · rename_i nonempty
      cases read
      have shown := digits_takeWhile signed.2 (fun none => nonempty none)
      refine ⟨c :: (sign ++ signed.2.takeWhile isDigit), ?_, .digits letter known shown⟩
      rw [List.cons_append, List.append_assoc, List.takeWhile_append_dropWhile, ← parts]
  unfold exponent? at read
  split at read
  · exact behind 'e' _ (.inl rfl) read
  · exact behind 'E' _ (.inr rfl) read
  · cases read

theorem readNumber_parts (read : readNumber start negative text = .ok (value, rest)) :
    ∃ numeral, text = numeral ++ rest ∧ Numeral numeral := by
  unfold readNumber at read
  extract_lets whole at read
  have digits : whole ≠ [] → Digits whole ∧ text = whole ++ text.drop whole.length := by
    subst whole
    split
    · exact fun nonempty => ⟨⟨nonempty, by decide⟩, rfl⟩
    · exact fun nonempty => ⟨digits_takeWhile text nonempty,
        (List.prefix_iff_eq_append.mp (List.takeWhile_prefix isDigit)).symm⟩
  split at read
  · cases read
  · rename_i shown
    obtain ⟨front, parts⟩ := digits (by simpa using shown)
    obtain ⟨decimals, cut, fractional, bare⟩ := fraction_parts (text.drop whole.length)
    generalize fraction (text.drop whole.length) = found at read cut bare
    obtain ⟨shown, after⟩ := found
    dsimp only at read cut bare
    split at read
    · split at read
      · cases read
      · obtain ⟨_, rfl⟩ := Prod.mk.inj (Except.ok.inj read)
        exact ⟨whole ++ ([] ++ []), by simpa using parts, .parts front .absent .absent⟩
    · cases read
      refine ⟨whole ++ (decimals ++ []), ?_, .parts front fractional .absent⟩
      rw [List.append_nil, List.append_assoc, ← cut, ← parts]
    · rename_i exponent later raised
      cases read
      obtain ⟨power, rest, powered⟩ := exponent?_parts raised
      refine ⟨whole ++ (decimals ++ power), ?_, .parts front fractional powered⟩
      rw [List.append_assoc, List.append_assoc, ← rest, ← cut, ← parts]

theorem readWordOrNumber_parts (read : readWordOrNumber text = .ok (value, rest)) :
    ∃ spelled, text = spelled ++ rest ∧ Spelled .value spelled := by
  unfold readWordOrNumber at read
  split at read
  · rename_i word found same
    cases read
    have listed := List.mem_of_find?_eq_some same
    have starts := List.find?_some same
    refine ⟨word, ?_, .word (List.mem_map_of_mem listed)⟩
    exact (List.prefix_iff_eq_append.mp (List.isPrefixOf_iff_prefix.mp starts)).symm
  · split at read
    · obtain ⟨numeral, rfl, shown⟩ := readNumber_parts read
      exact ⟨'-' :: numeral, rfl, .negative shown⟩
    · obtain ⟨numeral, rfl, shown⟩ := readNumber_parts read
      exact ⟨numeral, rfl, .number shown⟩

theorem hexValue?_plain (value : hexValue? c = some n) : c ≠ '"' ∧ c ≠ '\\' ∧ c ≠ '\n' := by
  refine ⟨?_, ?_, ?_⟩
  all_goals
    rintro rfl
    cases value

theorem hex4?_parts (read : hex4? text = some (unit, rest)) :
    ∃ digits, text = digits ++ rest ∧ Literal.sealed digits = true := by
  unfold hex4? at read
  split at read
  · rename_i a b c d later
    obtain ⟨first, one, read⟩ := Option.bind_eq_some_iff.mp read
    obtain ⟨second, two, read⟩ := Option.bind_eq_some_iff.mp read
    obtain ⟨third, three, read⟩ := Option.bind_eq_some_iff.mp read
    obtain ⟨fourth, four, read⟩ := Option.bind_eq_some_iff.mp read
    cases read
    refine ⟨[a, b, c, d], rfl, ?_⟩
    have digit : ∀ {c n} {more : Text}, hexValue? c = some n → Literal.sealed more = true →
        Literal.sealed (c :: more) = true := by
      intro c n more value also
      obtain ⟨unquoted, plain, unbroken⟩ := hexValue?_plain value
      rw [Literal.sealed_cons plain]
      simp [unquoted, unbroken, also]
    exact digit one (digit two (digit three (digit four rfl)))
  · cases read

-- An escape may join two code units.
theorem unicodeEscape?_parts (read : unicodeEscape? ('u' :: text) = .ok (c, rest)) :
    ∃ escape, text = escape ++ rest ∧ Literal.sealed escape = true := by
  unfold unicodeEscape? at read
  split at read
  · rename_i unit after found
    obtain ⟨digits, cut, closed⟩ := hex4?_parts found
    change text = _ at cut
    subst cut
    have single : after = rest →
        ∃ escape, digits ++ after = escape ++ rest ∧ Literal.sealed escape = true := by
      rintro rfl
      exact ⟨digits, rfl, closed⟩
    split at read
    · cases read
    · split at read
      · split at read
        · split at read
          · rename_i more second later other
            split at read
            · obtain ⟨others, rfl, also⟩ := hex4?_parts other
              obtain ⟨_, rfl⟩ := Prod.mk.inj (Except.ok.inj read)
              exact ⟨digits ++ '\\' :: 'u' :: others, by simp, Literal.sealed_append closed also⟩
            · exact single (Prod.mk.inj (Except.ok.inj read)).2
          · cases read
        · exact single (Prod.mk.inj (Except.ok.inj read)).2
      · exact single (Prod.mk.inj (Except.ok.inj read)).2
  · cases read

theorem readString_parts (read : readString opening fuel text = .ok (decoded, rest)) :
    ∃ inner, text = inner ++ '"' :: rest ∧ Literal.sealed inner = true := by
  induction fuel generalizing text decoded with
  | zero => cases read
  | succ fuel ih =>
    cases text with
    | nil => cases read
    | cons c text =>
      rw [readString.eq_def] at read
      dsimp only at read
      split at read
      · rename_i quote
        cases read
        exact ⟨[], by rw [beq_iff_eq.mp quote]; rfl, rfl⟩
      · rename_i unquoted
        split at read
        · rename_i backslash
          rw [beq_iff_eq.mp backslash]
          split at read
          · cases read
          · obtain ⟨⟨d, after⟩, escaped, read⟩ := ok_of_bind read
            obtain ⟨⟨others, last⟩, later, same⟩ := ok_of_bind read
            cases same
            obtain ⟨inner, rfl, closed⟩ := ih later
            obtain ⟨escape, rfl, also⟩ := unicodeEscape?_parts escaped
            exact ⟨'\\' :: 'u' :: (escape ++ inner), by simp, Literal.sealed_append also closed⟩
          · rename_i letter after _
            split at read
            · obtain ⟨⟨others, last⟩, later, same⟩ := ok_of_bind read
              cases same
              obtain ⟨inner, rfl, closed⟩ := ih later
              exact ⟨'\\' :: letter :: inner, rfl, closed⟩
            · cases read
        · rename_i plain
          split at read
          · cases read
          · rename_i printable
            obtain ⟨⟨others, last⟩, later, same⟩ := ok_of_bind read
            cases same
            obtain ⟨inner, rfl, closed⟩ := ih later
            refine ⟨c :: inner, rfl, ?_⟩
            have unbroken : c ≠ '\n' := by
              rintro rfl
              exact printable (by decide)
            rw [Literal.sealed_cons (by simpa using plain), closed]
            simpa [unbroken] using unquoted

-- With so much fuel each form is taken off a text as it is spelled.
structure Reads (fuel : Nat) : Prop where
  values : ∀ text found rest, readValue fuel text = .ok (found, rest) →
    ∃ spelled, text = spelled ++ rest ∧ Spelled .value spelled
  elements : ∀ text found rest, readElements fuel text = .ok (found, rest) →
    ∃ spelled, text = spelled ++ ']' :: rest ∧ Spelled .elements spelled
  members : ∀ known text found rest, readMembers fuel known text = .ok (found, rest) →
    ∃ spelled, text = spelled ++ '}' :: rest ∧ Spelled .members spelled

theorem Reads.readValue (reads : Reads fuel) (read : readValue (fuel + 1) text = .ok (value, rest)) :
    ∃ spelled, text = spelled ++ rest ∧ Spelled .value spelled := by
  rw [Json.readValue.eq_def] at read
  dsimp only at read
  split at read
  · obtain ⟨⟨decoded, after⟩, string, same⟩ := ok_of_bind read
    cases same
    obtain ⟨inner, rfl, closed⟩ := readString_parts string
    exact ⟨quoted inner, by simp [quoted], .string closed⟩
  · rename_i later
    obtain ⟨front, parts, gap⟩ := gap_skipGap later
    split at read
    · rename_i after closes
      cases read
      rw [parts, closes]
      exact ⟨'[' :: (front ++ [']']), by simp, .emptyArray gap⟩
    · obtain ⟨⟨elements, after⟩, inside, same⟩ := ok_of_bind read
      cases same
      obtain ⟨spelled, cut, elements⟩ := reads.elements _ _ _ inside
      rw [parts, cut]
      exact ⟨'[' :: (front ++ spelled ++ [']']), by simp, .array gap elements⟩
  · rename_i later
    obtain ⟨front, parts, gap⟩ := gap_skipGap later
    split at read
    · rename_i after closes
      cases read
      rw [parts, closes]
      exact ⟨'{' :: (front ++ ['}']), by simp, .emptyObject gap⟩
    · obtain ⟨⟨members, after⟩, inside, same⟩ := ok_of_bind read
      cases same
      obtain ⟨spelled, cut, members⟩ := reads.members _ _ _ _ inside
      rw [parts, cut]
      exact ⟨'{' :: (front ++ spelled ++ ['}']), by simp, .object gap members⟩
  · exact readWordOrNumber_parts read

theorem Reads.readElements (reads : Reads fuel)
    (read : readElements (fuel + 1) text = .ok (found, rest)) :
    ∃ spelled, text = spelled ++ ']' :: rest ∧ Spelled .elements spelled := by
  rw [Json.readElements] at read
  obtain ⟨⟨element, after⟩, first, continued⟩ := ok_of_bind read
  obtain ⟨spelled, rfl, value⟩ := reads.values _ _ _ first
  obtain ⟨back, parts, gap⟩ := gap_skipGap after
  dsimp only at continued
  split at continued
  · rename_i later closes
    cases continued
    rw [parts, closes]
    exact ⟨spelled ++ back, by simp, .element value gap⟩
  · rename_i later comma
    obtain ⟨⟨others, last⟩, next, same⟩ := ok_of_bind continued
    cases same
    obtain ⟨front, behind, space⟩ := gap_skipGap later
    obtain ⟨more, cut, others⟩ := reads.elements _ _ _ next
    rw [parts, comma, behind, cut]
    exact ⟨spelled ++ back ++ ',' :: (front ++ more), by simp, .elements value gap space others⟩
  · cases continued

theorem Reads.readMembers (reads : Reads fuel)
    (read : readMembers (fuel + 1) known text = .ok (found, rest)) :
    ∃ spelled, text = spelled ++ '}' :: rest ∧ Spelled .members spelled := by
  rw [Json.readMembers.eq_def] at read
  dsimp only at read
  split at read
  · rename_i later
    obtain ⟨⟨decoded, after⟩, string, behindKey⟩ := ok_of_bind read
    obtain ⟨key, rfl, closed⟩ := readString_parts string
    obtain ⟨between, parts, before⟩ := gap_skipGap after
    dsimp only at behindKey
    split at behindKey
    · rename_i afterColon colon
      obtain ⟨⟨value, afterValue⟩, first, behindValue⟩ := ok_of_bind behindKey
      obtain ⟨front, behind, space⟩ := gap_skipGap afterColon
      obtain ⟨spelled, cut, value⟩ := reads.values _ _ _ first
      obtain ⟨back, ends, gap⟩ := gap_skipGap afterValue
      dsimp only at behindValue
      split at behindValue
      · rename_i last closes
        cases behindValue
        rw [parts, colon, behind, cut, ends, closes]
        exact ⟨quoted key ++ between ++ ':' :: (front ++ (spelled ++ back)), by simp [quoted],
          .member closed before space value gap⟩
      · rename_i last comma
        obtain ⟨start, skipped, next⟩ := gap_skipGap last
        obtain ⟨more, rest, others⟩ := reads.members _ _ _ _ behindValue
        rw [parts, colon, behind, cut, ends, comma, skipped, rest]
        exact ⟨quoted key ++ between ++ ':' :: (front ++ (spelled ++ back ++ ',' :: (start ++ more))),
          by simp [quoted], .members closed before space value gap next others⟩
      · cases behindValue
    · cases behindKey
  · cases read

theorem reads_all (fuel : Nat) : Reads fuel := by
  induction fuel with
  | zero => exact ⟨nofun, nofun, nofun⟩
  | succ fuel ih =>
    exact ⟨fun _ _ _ => ih.readValue, fun _ _ _ => ih.readElements, fun _ _ _ _ => ih.readMembers⟩

-- A document is one value with gaps around it.
theorem read_parts (accepted : read source = .ok value) :
    ∃ front spelled back, source = front ++ spelled ++ back ∧ Gap front ∧ Gap back ∧
      Spelled .value spelled := by
  unfold read at accepted
  split at accepted
  · cases accepted
  · split at accepted
    · cases accepted
    · rename_i found rest inside
      obtain ⟨front, parts, gap⟩ := gap_skipGap source
      obtain ⟨spelled, cut, value⟩ := (reads_all _).values _ _ _ inside
      obtain ⟨back, ends, space⟩ := gap_skipGap rest
      split at accepted
      · rename_i nothing
        refine ⟨front, spelled, back, ?_, gap, space, value⟩
        rw [parts, cut, ends, nothing]
        simp
      · cases accepted

end

end ModuleBundler.Json
