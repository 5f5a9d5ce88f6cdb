import Mathlib.Algebra.Group.Nat.Defs
import ModuleBundler.Logged
import ModuleBundler.Proofs.Literal
import ModuleBundler.Rewriting.Basic

/-!
Reading a written literal gives back its text as it is shown, so that no two texts are written alike. Of
its code points those past the first plane come back as the two halves that they are escaped in.
-/
namespace ModuleBundler

namespace Json

theorem hexValue?_hexDigit : ∀ digit < 16, hexValue? (hexDigit digit) = some digit := by decide

theorem plain_hexDigit (n : Nat) : hexDigit n ≠ '<' := by
  have digits : ∀ digit ∈ "0123456789abcdef".toList, digit ≠ '<' := by decide
  exact digits _ (hexDigit_mem n)

theorem plain_unicodeEscape (n : Nat) : '<' ∉ unicodeEscape n := by
  simp [unicodeEscape, hex4, (plain_hexDigit _).symm]

-- Only `<` itself is written with a `<`.
theorem plain_quoteChar (other : c ≠ '<') : '<' ∉ quoteChar c := by
  have short : ∀ escape ∈ shortEscapes, '<' ∉ ['\\', escape.1] := by decide
  have quoted := quoteChar_quoted c
  generalize quoteChar c = written at quoted ⊢
  cases quoted with
  | short letter listed => exact short _ listed
  | plain _ _ _ => simpa using other.symm
  | unit small => exact plain_unicodeEscape _
  | pair large => exact List.not_mem_append (plain_unicodeEscape _) (plain_unicodeEscape _)

end Json

namespace Literal

open CodePoints

-- The code units that a character is escaped in.
def units (c : Char) : List Nat :=
  if c.toNat < 65536 then [c.toNat]
  else [55296 + (c.toNat - 65536) / 1024, 56320 + (c.toNat - 65536) % 1024]

theorem joined_units (c : Char) (codes : CodePoints) :
    joined (units c ++ codes) = c.toNat :: joined codes := by
  unfold units
  split
  · exact joined_cons fun _ _ _ => by rw [halves, toNat_high, Bool.false_and]
  · rename_i large
    obtain ⟨both, same⟩ := halves_toNat (Nat.le_of_not_lt large)
    rw [List.cons_append, List.singleton_append, joined_pair both, same]

theorem joined_flatMap_units (text : Text) : joined (text.flatMap units) = CodePoints.ofText text := by
  induction text with
  | nil => rfl
  | cons c rest ih =>
    rw [List.flatMap_cons, joined_units, ih]
    rfl

theorem shown_flatMap_units (text : Text) : shown (text.flatMap units) = text := by
  have whole : ∀ c : Char, scalar c.toNat = c := by
    intro c
    have known : c.toNat.isValidChar := c.valid
    rw [scalar, if_pos known, Char.ofNat_toNat]
  rw [shown, joined_flatMap_units, CodePoints.ofText, List.map_map]
  simp only [Function.comp_def, whole, List.map_id']

-- What a stretch of a literal stands for, whatever follows it.
def Decodes (written : Text) (codes : List Nat) : Prop :=
  ∀ more, decodeBody (written ++ more) = (decodeBody more).map (codes ++ ·)

theorem Decodes.append (first : Decodes written codes) (second : Decodes later others) :
    Decodes (written ++ later) (codes ++ others) := by
  intro more
  rw [List.append_assoc, first, second]
  cases decodeBody more <;> simp [Except.map]

theorem decodes_plain (plain : c ≠ '\\') : Decodes [c] [c.toNat] := by
  intro more
  rw [List.singleton_append, decodeBody.eq_4 _ _ (by simp [plain]) (by simp [plain])]
  cases decodeBody more <;> rfl

theorem decodes_simple (letter : Char) (simple : escape letter = fun _ => .ok ([simpleEscape letter], 0)) :
    Decodes ['\\', letter] [simpleEscape letter] := by
  intro more
  rw [List.cons_append, List.singleton_append, decodeBody, simple]
  simp only [bind, Except.bind, List.drop_zero]
  cases decodeBody more <;> rfl

theorem hexNumber_hex4 (small : n < 65536) : hexNumber (Json.hex4 n) = n := by
  have digit : ∀ k, (Json.hexValue? (Json.hexDigit (k % 16))).getD 0 = k % 16 := by
    intro k
    rw [Json.hexValue?_hexDigit _ (Nat.mod_lt k (by decide))]
    rfl
  simp only [hexNumber, Json.hex4, List.foldl_cons, List.foldl_nil, digit]
  omega

theorem isHexDigit_hexDigit (k : Nat) : isHexDigit (Json.hexDigit (k % 16)) = true := by
  rw [isHexDigit, Json.hexValue?_hexDigit _ (Nat.mod_lt k (by decide))]
  rfl

theorem decodes_unicodeEscape (small : n < 65536) : Decodes (Json.unicodeEscape n) [n] := by
  intro more
  have braced : bracedDigits? (Json.hex4 n ++ more) = none := by
    have digits : ∀ k < 16, Json.hexDigit k ≠ '{' := by decide
    have first := digits (n / 4096 % 16) (Nat.mod_lt _ (by decide))
    unfold bracedDigits?
    split
    · rename_i same
      exact absurd (List.cons.inj same).1 first
    · rfl
  have fixed : fixedDigits? 4 (Json.hex4 n ++ more) = some (Json.hex4 n) := by
    have taken : (Json.hex4 n ++ more).take 4 = Json.hex4 n := rfl
    have all : (Json.hex4 n).all isHexDigit = true := by
      simp only [Json.hex4, List.all_cons, isHexDigit_hexDigit, List.all_nil, Bool.and_self]
    simp only [fixedDigits?, taken, all]
    rfl
  have escaped : escape 'u' (Json.hex4 n ++ more) = .ok ([n], 4) := by
    unfold escape
    simp only [if_true, braced, fixed, hexNumber_hex4 small]
    rfl
  rw [Json.unicodeEscape, List.cons_append, List.cons_append, decodeBody, escaped]
  change (decodeBody more >>= fun later => pure ([n] ++ later)) = _
  cases decodeBody more <;> rfl

theorem hexValue?_lt (value : Json.hexValue? c = some digit) : digit < 16 := by
  have bounds : ∀ (first last : Char), (first ≤ c && c ≤ last) = true →
      first.toNat ≤ c.toNat ∧ c.toNat ≤ last.toNat := by
    intro first last within
    rwa [Bool.and_eq_true, decide_eq_true_eq, decide_eq_true_eq, Char.le_def, Char.le_def,
      UInt32.le_iff_toNat_le, UInt32.le_iff_toNat_le] at within
  unfold Json.hexValue? at value
  split at value
  · rename_i shown
    have range := bounds '0' '9' shown
    simp at range value
    omega
  · split at value
    · rename_i shown
      have range := bounds _ _ shown
      simp at range value
      omega
    · split at value
      · rename_i shown
        have range := bounds _ _ shown
        simp at range value
        omega
      · cases value

theorem hexNumber_lt (digits : Text) : hexNumber digits < 16 ^ digits.length := by
  suffices run : ∀ start, digits.foldl (fun number c => number * 16 + (Json.hexValue? c).getD 0) start
      < (start + 1) * 16 ^ digits.length by simpa [hexNumber] using run 0
  induction digits with
  | nil => exact fun start => by simp
  | cons c digits ih =>
    intro start
    have first : (Json.hexValue? c).getD 0 < 16 := by
      cases value : Json.hexValue? c with
      | none => decide
      | some digit => exact hexValue?_lt value
    have later := ih (start * 16 + (Json.hexValue? c).getD 0)
    have most := Nat.mul_le_mul_right (16 ^ digits.length)
      (show start * 16 + (Json.hexValue? c).getD 0 + 1 ≤ (start + 1) * 16 by omega)
    rw [List.foldl_cons, List.length_cons, Nat.pow_succ', ← Nat.mul_assoc]
    exact Nat.lt_of_lt_of_le later most

theorem length_fixedDigits? (taken : fixedDigits? count text = some digits) : digits.length = count := by
  unfold fixedDigits? at taken
  extract_lets found at taken
  split at taken
  · rename_i whole
    simp only [Bool.and_eq_true, decide_eq_true_eq] at whole
    rw [← Option.some.inj taken]
    exact whole.1
  · cases taken

theorem codePoint_lt (coded : codePoint number = .ok code) : code < 1114112 := by
  unfold codePoint at coded
  split at coded
  · cases coded
  · split at coded
    · cases coded
    · cases coded
      omega

theorem simpleEscape_lt (c : Char) : simpleEscape c < 1114112 := by
  have bound := CodePoints.toNat_lt c
  unfold simpleEscape
  split <;> omega

-- An escape stands for code points that there are.
theorem escape_bounded (escaped : escape letter rest = .ok (codes, size)) : CodePoints.Bounded codes := by
  unfold escape at escaped
  dsimp only at escaped
  split at escaped
  · rename_i digits _
    cases coded : codePoint (hexNumber digits) with
    | error fault =>
      rw [coded] at escaped
      cases escaped
    | ok code =>
      rw [coded] at escaped
      cases escaped
      exact .single (codePoint_lt coded)
  · rename_i digits _ given
    cases escaped
    have few : digits.length ≤ 4 := by
      split at given
      · exact Nat.le_of_eq (length_fixedDigits? given)
      · split at given
        · exact Nat.le_trans (Nat.le_of_eq (length_fixedDigits? given)) (by decide)
        · cases given
    have bound := hexNumber_lt digits
    have most : 16 ^ digits.length ≤ 16 ^ 4 := Nat.pow_le_pow_right (by decide) few
    exact .single (by omega)
  · split at escaped
    · cases escaped
    · split at escaped
      · cases escaped
        nofun
      · cases escaped
        exact .single (simpleEscape_lt letter)

theorem decodeBody_bounded (text : Text) (decoded : decodeBody text = .ok codes) : CodePoints.Bounded codes := by
  fun_induction decodeBody text generalizing codes with
  | case1 => cases decoded; nofun
  | case2 => cases decoded; decide
  | case3 letter rest ih =>
    obtain ⟨⟨first, size⟩, escaped, decoded⟩ := ok_of_bind decoded
    obtain ⟨more, later, same⟩ := ok_of_bind decoded
    cases same
    exact List.forall_mem_append.mpr ⟨escape_bounded escaped, ih _ later⟩
  | case4 c rest _ _ ih =>
    obtain ⟨more, later, same⟩ := ok_of_bind decoded
    cases same
    exact List.forall_mem_cons.mpr ⟨CodePoints.toNat_lt c, ih later⟩

theorem decode_bounded (decoded : decode literal = .ok codes) : CodePoints.Bounded codes :=
  decodeBody_bounded _ decoded

theorem decodes_short (listed : (letter, c) ∈ Json.shortEscapes) : Decodes ['\\', letter] (units c) := by
  simp only [Json.shortEscapes, List.mem_cons, Prod.mk.injEq, List.not_mem_nil, or_false] at listed
  rcases listed with ⟨rfl, rfl⟩ | ⟨rfl, rfl⟩ | ⟨rfl, rfl⟩ | ⟨rfl, rfl⟩ | ⟨rfl, rfl⟩ | ⟨rfl,
    rfl⟩ | ⟨rfl, rfl⟩ <;>
    exact decodes_simple _ rfl

theorem decodes_quoteChar (c : Char) : Decodes (Json.quoteChar c) (units c) := by
  have quoted := Json.quoteChar_quoted c
  generalize Json.quoteChar c = written at quoted ⊢
  cases quoted with
  | short letter listed => exact decodes_short listed
  | plain _ unescaped printable =>
    rw [units, if_pos (by have := printable.2; omega)]
    exact decodes_plain unescaped
  | unit small =>
    rw [units, if_pos small]
    exact decodes_unicodeEscape small
  | pair large =>
    have bound := CodePoints.toNat_lt c
    rw [units, if_neg (by omega)]
    exact (decodes_unicodeEscape (by omega)).append (decodes_unicodeEscape (by omega))

-- The slash of a closing tag stands for itself behind its backslash too.
theorem decodeBody_closer (rest : Text) :
    decodeBody ('\\' :: '/' :: rest) = decodeBody ('/' :: rest) := by
  have escaped := decodes_simple '/' rfl rest
  have plain := decodes_plain (c := '/') (by decide) rest
  exact escaped.trans plain.symm

theorem guardClosers_append_plain (plain : '<' ∉ text) (more : Text) :
    guardClosers (text ++ more) = text ++ guardClosers more := by
  induction text with
  | nil => rfl
  | cons c rest ih =>
    simp only [List.mem_cons, not_or] at plain
    rw [List.cons_append, guardClosers_other (Ne.symm plain.1), ih plain.2,
      List.cons_append]

theorem decodeBody_guarded (text : Text) :
    decodeBody (guardClosers (text.flatMap Json.quoteChar)) = .ok (text.flatMap units) := by
  induction text with
  | nil => rw [List.flatMap_nil, guardClosers_nil, decodeBody, List.flatMap_nil]
  | cons c rest ih =>
    rw [List.flatMap_cons, List.flatMap_cons]
    by_cases opens : c = '<'
    · subst opens
      have tag : decodeBody (guardClosers ('<' :: rest.flatMap Json.quoteChar))
          = decodeBody ('<' :: guardClosers (rest.flatMap Json.quoteChar)) := by
        obtain ⟨later, _, same, guarded⟩ | ⟨_, kept⟩ := guardClosers_cases '<' (rest.flatMap Json.quoteChar)
        · have slash := guardClosers_other (c := '/') (by decide) later
          have open_ := decodes_plain (c := '<') (by decide)
          rw [guarded, same, slash]
          exact (open_ _).trans ((congrArg _ (decodeBody_closer _)).trans (open_ _).symm)
        · rw [kept]
      change decodeBody (guardClosers ('<' :: rest.flatMap Json.quoteChar)) = _
      have plain := decodes_plain (c := '<') (by decide)
        (guardClosers (rest.flatMap Json.quoteChar))
      rw [ih] at plain
      exact tag.trans plain
    · rw [guardClosers_append_plain (Json.plain_quoteChar opens), decodes_quoteChar c, ih]
      rfl

theorem flatMap_quoteCode (text : Text) :
    (CodePoints.ofText text).flatMap Json.quoteCode = text.flatMap Json.quoteChar := by
  rw [CodePoints.ofText, List.flatMap_map]
  simp only [Json.quoteCode_toNat]

theorem write_body (text : Text) :
    write text = '"' :: guardClosers (text.flatMap Json.quoteChar) ++ ['"'] := by
  rw [write, writeCodes_body, flatMap_quoteCode]

-- The code points of a written literal are the code units that its text is escaped in.
theorem decode_write (text : Text) : decode (write text) = .ok (text.flatMap units) := by
  have inner : ((write text).drop 1).dropLast = guardClosers (text.flatMap Json.quoteChar) := by
    rw [write_body, List.cons_append, List.drop_one, List.tail_cons, List.dropLast_concat]
  rw [decode, inner, decodeBody_guarded]

-- A literal that was written is shown as its text.
theorem value_write (text : Text) : value (write text) = .ok text := by
  rw [value, decode_write]
  simp only [Except.map, shown_flatMap_units]

theorem write_injective (first second : Text) (same : write first = write second) : first = second := by
  have read := value_write first
  rw [same, value_write] at read
  exact (Except.ok.inj read).symm

-- One code unit is the code point itself; of two the first one is a half.
theorem flatMap_units_iff (text : Text) :
    text.flatMap units = text.map Char.toNat ↔ ∀ c ∈ text, c.toNat < 65536 := by
  induction text with
  | nil => simp
  | cons c rest ih =>
    rw [List.flatMap_cons, List.map_cons, List.forall_mem_cons, ← ih, units]
    split
    · rename_i small
      simp [small]
    · rename_i large
      have bound := CodePoints.toNat_lt c
      constructor
      · intro same
        have half : 55296 + (c.toNat - 65536) / 1024 = c.toNat := (List.cons.inj same).1
        omega
      · intro both
        exact absurd both.1 large

-- A written literal is read back code point by code point exactly if its text has no character past the
-- first plane. Of such a character the two halves stay apart, though they are shown as the character.
theorem written_restored_iff (text : Text) :
    decode (write text) = .ok (text.flatMap units) ∧ value (write text) = .ok text ∧
      (decode (write text) = .ok (text.map Char.toNat) ↔ ∀ c ∈ text, c.toNat < 65536) := by
  refine ⟨decode_write text, value_write text, ?_⟩
  rw [decode_write, Except.ok.injEq]
  exact flatMap_units_iff text

-- A specifier as it is and as it is written.
def repeatedSource : Text := "import'😀';import\"\\ud83d\\ude00\"".toList

-- It is required twice.
theorem repeated_apart : write ['😀'] = "\"\\ud83d\\ude00\"".toList ∧
    decode (write ['😀']) = .ok [55357, 56832] ∧ decode (write ['😀']) ≠ .ok (['😀'].map Char.toNat) ∧
    ∃ analysis, Rewriting.analyzeSource repeatedSource = .ok analysis ∧
      analysis.imports.dependencies = [[128512], [55357, 56832]] ∧
      analysis.imports.statements = [.require 0 [128512], .require 1 [55357, 56832]] := by
  have halves : decode (write ['😀']) = .ok [55357, 56832] := decode_write ['😀']
  have found : (Rewriting.analyzeSource repeatedSource).toOption.map (fun analysis =>
      (analysis.imports.dependencies, analysis.imports.statements))
      = some ([[128512], [55357, 56832]], [.require 0 [128512], .require 1 [55357, 56832]]) := by
    unfold repeatedSource
    rw [String.toList_ofList]
    decide +kernel
  refine ⟨by decide +kernel, halves, ?_, ?_⟩
  · rw [halves]
    intro same
    exact absurd (Except.ok.inj same) (by decide)
  · obtain ⟨analysis, analyzed, shown⟩ := ok_of_toOption_map found
    obtain ⟨dependencies, statements⟩ := Prod.mk.inj shown
    exact ⟨analysis, analyzed, dependencies, statements⟩

end Literal
end ModuleBundler
