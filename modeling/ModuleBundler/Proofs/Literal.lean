import ModuleBundler.Proofs.CodePoints
import ModuleBundler.Proofs.Lexeme
import ModuleBundler.Rewriting.Prologue

/-!
Written literals and generated expressions consist of printable ASCII characters alone.
-/
namespace ModuleBundler

-- A character from the space through the tilde.
def Text.Visible (c : Char) : Prop := 32 ≤ c.toNat ∧ c.toNat ≤ 126

instance : DecidablePred Text.Visible := fun _ => inferInstanceAs (Decidable (_ ∧ _))

theorem Text.not_visible_newline : ¬ Visible '\n' := by decide

theorem Text.visible_append {first second : Text} (left : ∀ c ∈ first,
    Visible c) (right : ∀ c ∈ second, Visible c) :
    ∀ c ∈ first ++ second, Visible c := by
  intro c member
  exact (List.mem_append.mp member).elim (left c) (right c)

namespace Json

theorem hexDigit_mem (n : Nat) : hexDigit n ∈ "0123456789abcdef".toList := by
  unfold hexDigit
  rw [List.getD_eq_getElem?_getD]
  cases found : "0123456789abcdef".toList[n]? with
  | none => decide
  | some digit => exact List.mem_of_getElem? found

theorem hexDigit_visible (n : Nat) : Text.Visible (hexDigit n) := by
  have digits : ∀ digit ∈ "0123456789abcdef".toList, Text.Visible digit := by decide
  exact digits _ (hexDigit_mem n)

theorem unicodeEscape_visible (n : Nat) : ∀ c ∈ unicodeEscape n, Text.Visible c := by
  intro c member
  simp only [unicodeEscape, hex4, List.mem_cons, List.not_mem_nil, or_false] at member
  rcases member with rfl | rfl | rfl | rfl | rfl | rfl
  · decide
  · decide
  · exact hexDigit_visible _
  · exact hexDigit_visible _
  · exact hexDigit_visible _
  · exact hexDigit_visible _

-- The letters of the short escapes, each with the character that it stands for.
def shortEscapes : List (Char × Char) :=
  [('"', '"'), ('\\', '\\'), ('n', '\n'), ('r', '\r'), ('t', '\t'), ('f', '\x0c'), ('b', '\x08')]

-- The forms that a character is written in.
inductive Quoted (c : Char) : Text → Prop where
  | short (letter : Char) (listed : (letter, c) ∈ shortEscapes) : Quoted c ['\\', letter]
  | plain (unquoted : c ≠ '"') (unescaped : c ≠ '\\') (printable : Text.Visible c) : Quoted c [c]
  | unit (small : c.toNat < 65536) : Quoted c (unicodeEscape c.toNat)
  | pair (large : 65536 ≤ c.toNat) : Quoted c (unicodeEscape (55296 + (c.toNat - 65536) / 1024)
      ++ unicodeEscape (56320 + (c.toNat - 65536) % 1024))

-- A character is written as its short escape, or in a way that the other characters may be written in.
theorem Quoted.escape (listed : (letter, d) ∈ shortEscapes) (other : c ≠ d → Quoted c written) :
    Quoted c (if c == d then ['\\', letter] else written) := by
  split
  · rename_i same
    rw [eq_of_beq same]
    exact .short letter listed
  · rename_i differs
    exact other fun same => differs (beq_iff_eq.mpr same)

theorem quoteChar_quoted (c : Char) : Quoted c (quoteChar c) := by
  unfold quoteChar
  refine .escape (by decide) fun unquoted => .escape (by decide) fun unescaped => ?_
  iterate 5 refine .escape (by decide) fun _ => ?_
  split
  · rename_i printable
    exact .plain unquoted unescaped (by simpa [Text.Visible] using printable)
  split
  · exact .unit ‹_›
  · exact .pair (by omega)

theorem quoteChar_visible (c : Char) : ∀ d ∈ quoteChar c, Text.Visible d := by
  have short : ∀ escape ∈ shortEscapes, ∀ d ∈ ['\\', escape.1], Text.Visible d := by decide
  have quoted := quoteChar_quoted c
  generalize quoteChar c = written at quoted ⊢
  cases quoted with
  | short letter listed => exact short _ listed
  | plain _ _ printable => simpa using printable
  | unit small => exact unicodeEscape_visible _
  | pair large => exact Text.visible_append (unicodeEscape_visible _) (unicodeEscape_visible _)

-- A code point is written as its character or as an escape of its own.
theorem quoteCode_cases (code : Nat) :
    (∃ c : Char, c.toNat = code ∧ quoteCode code = quoteChar c) ∨
      ¬ code.isValidChar ∧ quoteCode code = unicodeEscape code := by
  unfold quoteCode
  split
  · rename_i valid
    exact .inl ⟨Char.ofNat code, CodePoints.toNat_ofNat valid, rfl⟩
  · exact .inr ⟨‹_›, rfl⟩

theorem quoteCode_toNat (c : Char) : quoteCode c.toNat = quoteChar c := by
  have valid : c.toNat.isValidChar := c.valid
  rw [quoteCode, if_pos valid, Char.ofNat_toNat]

theorem quoteCode_visible (code : Nat) : ∀ c ∈ quoteCode code, Text.Visible c := by
  obtain ⟨c, _, same⟩ | ⟨_, same⟩ := quoteCode_cases code
  · rw [same]
    exact quoteChar_visible c
  · rw [same]
    exact unicodeEscape_visible code

theorem quoteCodes_visible (codes : CodePoints) : ∀ c ∈ quoteCodes codes, Text.Visible c := by
  intro c member
  simp only [quoteCodes, List.cons_append, List.mem_cons, List.mem_append, List.mem_flatMap,
    List.not_mem_nil, or_false] at member
  rcases member with rfl | ⟨original, _, member⟩ | rfl
  · decide
  · exact quoteCode_visible original c member
  · decide

theorem natText_digits (n : Nat) : ∀ c ∈ natText n, c.isDigit = true :=
  fun _ member => Nat.isDigit_of_mem_toDigits (by decide) (by decide) member

theorem isDigit_bounds {c : Char} (digit : c.isDigit = true) : 48 ≤ c.toNat ∧ c.toNat ≤ 57 := by
  simp only [Char.isDigit, ge_iff_le, Bool.and_eq_true, decide_eq_true_eq] at digit
  exact digit

theorem isNameChar_of_isDigit {c : Char} (digit : c.isDigit = true) : Text.isNameChar c = true := by
  have small : c.toNat < 128 := by
    have := isDigit_bounds digit
    omega
  simp [Text.isNameChar, Text.isWord, small, Char.isAlphanum, digit]

theorem natText_visible (n : Nat) : ∀ c ∈ natText n, Text.Visible c := by
  intro c member
  obtain ⟨low, high⟩ := isDigit_bounds (natText_digits n c member)
  exact ⟨by omega, by omega⟩

end Json

-- Every character of a text with replacements comes from the text or from the replacement.
theorem Text.mem_replaceFrom (member : c ∈ replaceFrom part replacement skip text) :
    c ∈ replacement ∨ c ∈ text := by
  fun_induction replaceFrom part replacement skip text with
  | case1 => exact .inr member
  | case2 first rest skip ih => exact (ih member).imp_right (List.mem_cons_of_mem _)
  | case3 first rest _ ih =>
    rcases List.mem_append.mp member with inside | later
    · exact .inl inside
    · exact (ih later).imp_right (List.mem_cons_of_mem _)
  | case4 first rest _ ih =>
    rcases List.mem_cons.mp member with rfl | later
    · exact .inr List.mem_cons_self
    · exact (ih later).imp_right (List.mem_cons_of_mem _)

theorem Literal.writeCodes_visible (codes : CodePoints) : ∀ c ∈ writeCodes codes, Text.Visible c := by
  intro c member
  rcases Text.mem_replaceFrom member with inside | original
  · have closer : ∀ c ∈ ['<', '\\', '/'], Text.Visible c := by decide
    exact closer c inside
  · exact Json.quoteCodes_visible codes c original

theorem Literal.write_visible (text : Text) : ∀ c ∈ write text, Text.Visible c :=
  writeCodes_visible text

namespace Literal

@[simp] theorem guardClosers_nil : guardClosers [] = [] := rfl

@[simp] theorem guardClosers_closer (rest : Text) :
    guardClosers ('<' :: '/' :: rest) = '<' :: '\\' :: '/' :: guardClosers rest := rfl

theorem guardClosers_cons (c : Char) (rest : Text)
    (other : ∀ later, c = '<' → rest = '/' :: later → False) :
    guardClosers (c :: rest) = c :: guardClosers rest := by
  have differs : Text.startsWith (c :: rest) ['<', '/'] = false := by
    cases rest with
    | nil => simp [Text.startsWith, List.isPrefixOf]
    | cons d rest =>
      simp only [Text.startsWith, List.isPrefixOf, Bool.and_true, Bool.and_eq_false_iff,
        beq_eq_false_iff_ne, ne_eq]
      by_cases opens : '<' = c
      · exact .inr fun slash => other rest opens.symm (slash ▸ rfl)
      · exact .inl opens
  unfold guardClosers Text.replace
  rw [Text.replaceFrom]
  simp only [differs]
  rfl

theorem guardClosers_other (other : c ≠ '<') (rest : Text) :
    guardClosers (c :: rest) = c :: guardClosers rest :=
  guardClosers_cons c rest fun _ opens => absurd opens other

-- A closer stands at the front and is guarded, or the first character stays as it is.
theorem guardClosers_cases (c : Char) (rest : Text) :
    (∃ later, c = '<' ∧ rest = '/' :: later ∧ guardClosers (c :: rest) = '<' :: '\\' :: guardClosers rest) ∨
      (∀ later, c = '<' → rest ≠ '/' :: later) ∧ guardClosers (c :: rest) = c :: guardClosers rest := by
  by_cases closer : ∃ later, c = '<' ∧ rest = '/' :: later
  · obtain ⟨later, rfl, rfl⟩ := closer
    exact .inl ⟨later, rfl, rfl, by rw [guardClosers_closer, guardClosers_other (by decide)]⟩
  · have other : ∀ later, c = '<' → rest ≠ '/' :: later :=
      fun later opens slash => closer ⟨later, opens, slash⟩
    exact .inr ⟨other, guardClosers_cons c rest other⟩

-- A slash is looked for behind `<` alone, so a text may be guarded in parts that do not begin with
-- one.
theorem guardClosers_append (more : Text) (plain : more.head? ≠ some '/') (text : Text) :
    guardClosers (text ++ more) = guardClosers text ++ guardClosers more := by
  induction text with
  | nil => rfl
  | cons c rest ih =>
    obtain ⟨later, rfl, rfl, guarded⟩ | ⟨other, kept⟩ := guardClosers_cases c rest
    · rw [List.cons_append, guardClosers_other (by decide)] at ih
      rw [guarded, List.cons_append, List.cons_append, guardClosers_closer, ih, List.cons_append,
        List.cons_append]
    · have still : ∀ later, c = '<' → rest ++ more = '/' :: later → False := by
        intro later opens same
        cases rest with
        | nil => exact plain (by rw [show more = _ from same]; rfl)
        | cons d rest =>
          cases same
          exact other rest opens rfl
      rw [List.cons_append, guardClosers_cons c _ still, kept, ih, List.cons_append]

theorem guardClosers_plain (plain : '<' ∉ text) : guardClosers text = text := by
  induction text with
  | nil => rfl
  | cons c rest ih =>
    simp only [List.mem_cons, not_or] at plain
    rw [guardClosers_other (Ne.symm plain.1), ih plain.2]

-- Text that stays inside a double-quoted literal: escapes are whole, and nothing ends the literal.
def sealed : Text → Bool
  | [] => true
  | ['\\'] => false
  | '\\' :: _ :: rest => sealed rest
  | c :: rest => c != '"' && c != '\n' && sealed rest

theorem sealed_cons (plain : c ≠ '\\') (rest : Text) :
    sealed (c :: rest) = (c != '"' && c != '\n' && sealed rest) := by
  refine sealed.eq_4 c rest ?_ ?_
  · exact fun same => absurd same plain
  · exact fun _ _ same => absurd same plain

theorem sealed_append (closed : sealed text = true) (also : sealed more = true) :
    sealed (text ++ more) = true := by
  fun_induction sealed text with
  | case1 => exact also
  | case2 => cases closed
  | case3 c rest ih => exact ih closed
  | case4 c rest single pair ih =>
    simp only [Bool.and_eq_true] at closed
    rw [List.cons_append, sealed_cons (Lexeme.not_backslash single pair), closed.1.1, closed.1.2, ih closed.2]
    rfl

theorem sealed_of_visible (visible : ∀ c ∈ text, Text.Visible c) (plain : '\\' ∉ text)
    (unquoted : '"' ∉ text) : sealed text = true := by
  induction text with
  | nil => rfl
  | cons c rest ih =>
    simp only [List.mem_cons, not_or] at plain unquoted
    have here := visible c List.mem_cons_self
    have unbroken : c ≠ '\n' := by
      rintro rfl
      exact Text.not_visible_newline here
    rw [sealed_cons (Ne.symm plain.1), ih (fun d member => visible d (List.mem_cons_of_mem _ member))
      plain.2 unquoted.2]
    simp [Ne.symm unquoted.1, unbroken]

theorem sealed_unicodeEscape (n : Nat) : sealed (Json.unicodeEscape n) = true := by
  have digits : ∀ digit ∈ "0123456789abcdef".toList, digit ≠ '\\' ∧ digit ≠ '"' := by decide
  have digit : ∀ n, Json.hexDigit n ≠ '\\' ∧ Json.hexDigit n ≠ '"' := fun n =>
    digits _ (Json.hexDigit_mem n)
  have visible : ∀ c ∈ Json.hex4 n, Text.Visible c := fun c member =>
    Json.unicodeEscape_visible n c (List.mem_cons_of_mem _ (List.mem_cons_of_mem _ member))
  show sealed (Json.hex4 n) = true
  refine sealed_of_visible visible ?_ ?_
  · simp [Json.hex4, Ne.symm (digit _).1]
  · simp [Json.hex4, Ne.symm (digit _).2]

theorem sealed_quoteChar (c : Char) : sealed (Json.quoteChar c) = true := by
  have short : ∀ escape ∈ Json.shortEscapes, sealed ['\\', escape.1] = true := by decide
  have quoted := Json.quoteChar_quoted c
  generalize Json.quoteChar c = written at quoted ⊢
  cases quoted with
  | short letter listed => exact short _ listed
  | plain unquoted unescaped printable =>
    exact sealed_of_visible (by simpa using printable) (by simpa using unescaped.symm)
      (by simpa using unquoted.symm)
  | unit small => exact sealed_unicodeEscape _
  | pair large => exact sealed_append (sealed_unicodeEscape _) (sealed_unicodeEscape _)

theorem sealed_quoteCode (code : Nat) : sealed (Json.quoteCode code) = true := by
  obtain ⟨c, _, same⟩ | ⟨_, same⟩ := Json.quoteCode_cases code
  · rw [same]
    exact sealed_quoteChar c
  · rw [same]
    exact sealed_unicodeEscape code

theorem sealed_flatMap_quoteCode (codes : CodePoints) :
    sealed (codes.flatMap Json.quoteCode) = true := by
  induction codes with
  | nil => rfl
  | cons code rest ih =>
    rw [List.flatMap_cons]
    exact sealed_append (sealed_quoteCode code) ih

-- A guard stands in front of a slash that is no part of an escape.
theorem sealed_guardClosers (closed : sealed text = true) : sealed (guardClosers text) = true := by
  fun_induction sealed text with
  | case1 => rfl
  | case2 => cases closed
  | case3 c rest ih =>
    rw [guardClosers_other (by decide)]
    have inner := ih closed
    obtain ⟨later, rfl, rfl, guarded⟩ | ⟨_, kept⟩ := guardClosers_cases c rest
    · rw [guarded]
      exact inner
    · rw [kept]
      exact inner
  | case4 c rest single pair ih =>
    simp only [Bool.and_eq_true] at closed
    have inner := ih closed.2
    obtain ⟨later, rfl, rfl, guarded⟩ | ⟨_, kept⟩ := guardClosers_cases c rest
    · rw [guarded]
      exact inner
    · rw [kept, sealed_cons (Lexeme.not_backslash single pair), closed.1.1, closed.1.2, inner]
      rfl

theorem writeCodes_body (codes : CodePoints) :
    writeCodes codes = '"' :: guardClosers (codes.flatMap Json.quoteCode) ++ ['"'] := by
  have plain : (['"'] : Text).head? ≠ some '/' := by decide
  rw [writeCodes, Json.quoteCodes, List.cons_append, guardClosers_other (by decide),
    guardClosers_append _ plain]
  rfl

-- A written literal is a pair of quotes around sealed text.
theorem writeCodes_parts (codes : CodePoints) :
    ∃ inner, writeCodes codes = '"' :: inner ++ ['"'] ∧ sealed inner = true :=
  ⟨_, writeCodes_body codes, sealed_guardClosers (sealed_flatMap_quoteCode codes)⟩

end Literal

namespace Prologue

theorem bindingExpression_visible (index : Nat) (imported : Imported) :
    ∀ c ∈ bindingExpression index imported, Text.Visible c := by
  have dependency : ∀ c ∈ dependencyVariable index, Text.Visible c :=
    Text.visible_append (by decide) (Json.natText_visible index)
  cases imported with
  | default =>
    exact Text.visible_append (Text.visible_append (by decide) (Json.natText_visible index))
      (by decide)
  | «namespace» => exact dependency
  | named name =>
    have opening : ∀ c ∈ ['['], Text.Visible c := by decide
    have inner := Text.visible_append opening (Literal.write_visible name)
    exact Text.visible_append (Text.visible_append dependency inner) (by decide)

end Prologue
end ModuleBundler
