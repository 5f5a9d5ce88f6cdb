import Mathlib.Data.List.Find
import ModuleBundler.Proofs.Masking.Cut

/-!
Most readers do not look at letters. Comments, literals and punctuators are read alike in two texts
that differ in word characters only.
-/
namespace ModuleBundler

-- All word characters look the same.
def Text.veil (c : Char) : Char := if isWord c then 'a' else c

namespace Lexeme
open Text

theorem veil_eq_iff (mark : isWord m = false) : veil c = m ↔ c = m := by
  unfold veil
  split
  · rename_i word
    constructor
    · rintro rfl
      exact absurd mark (by decide)
    · rintro rfl
      rw [word] at mark
      cases mark
  · rfl

theorem veil_ne (mark : isWord m = false) (other : c ≠ m) : veil c ≠ m := fun same =>
  other ((veil_eq_iff mark).mp same)

theorem veil_mark (mark : isWord m = false) : veil m = m := (veil_eq_iff mark).mpr rfl

theorem veil_beq (mark : isWord m = false) : (veil c == m) = (c == m) := by
  rw [Bool.eq_iff_iff, beq_iff_eq, beq_iff_eq]
  exact veil_eq_iff mark

theorem run_veil {within : Char → Bool} (sees : ∀ c, within (veil c) = within c) (text : Text) :
    run within (text.map veil) = run within text := by
  induction text with
  | nil => rfl
  | cons c rest ih => rw [List.map_cons, run, run, sees, ih]

theorem isBlank_veil (c : Char) : isBlank (veil c) = isBlank c := by
  unfold veil
  split
  · rename_i word
    have apart : isBlank c = false := by
      cases blank : isBlank c with
      | false => rfl
      | true =>
        have outside := isNameChar_of_isBlank blank
        rw [isNameChar, word] at outside
        cases outside
    rw [apart]
    decide
  · rfl

theorem notBreak_veil (c : Char) : (veil c != '\n') = (c != '\n') := by
  rw [bne, bne, veil_beq (by decide)]

theorem blanks?_veil (text : Text) : blanks? (text.map veil) = blanks? text := by
  unfold blanks? run1?
  rw [run_veil isBlank_veil]

-- Two marks in a row begin both texts or neither.
theorem veil_pair (mark : isWord m = false) (mark' : isWord m' = false) (text : Text) :
    (∃ rest, text = m :: m' :: rest ∧ text.map veil = m :: m' :: rest.map veil) ∨
      (∀ rest, text ≠ m :: m' :: rest) ∧ ∀ rest, text.map veil ≠ m :: m' :: rest := by
  by_cases begins : ∃ rest, text = m :: m' :: rest
  · obtain ⟨rest, rfl⟩ := begins
    exact .inl ⟨rest, rfl, by simp [veil_mark mark, veil_mark mark']⟩
  · refine .inr ⟨fun rest same => begins ⟨rest, same⟩, fun rest same => begins ?_⟩
    obtain ⟨c, tail, rfl, first, behind⟩ := List.map_eq_cons_iff.mp same
    obtain ⟨d, tail, rfl, second, _⟩ := List.map_eq_cons_iff.mp behind
    exact ⟨tail, by rw [(veil_eq_iff mark).mp first, (veil_eq_iff mark').mp second]⟩

theorem lineComment?_veil (text : Text) : lineComment? (text.map veil) = lineComment? text := by
  obtain ⟨rest, rfl, same⟩ | ⟨other, other'⟩ := veil_pair (show isWord '/' = false by decide)
      (show isWord '/' = false by decide) text
  · rw [same, lineComment?, lineComment?, run_veil notBreak_veil]
  · rw [lineComment?.eq_2 _ other, lineComment?.eq_2 _ other']

theorem blockCommentRest?_veil (text : Text) :
    blockCommentRest? (text.map veil) = blockCommentRest? text := by
  fun_induction blockCommentRest? text with
  | case1 rest =>
    rw [List.map_cons, List.map_cons, veil_mark (by decide), veil_mark (by decide), blockCommentRest?]
  | case2 c rest other ih =>
    have other' : ∀ later, veil c = '*' → rest.map veil = '/' :: later → False := by
      intro later star slash
      obtain ⟨d, tail, rfl, same, _⟩ := List.map_eq_cons_iff.mp slash
      exact other tail ((veil_eq_iff (by decide)).mp star)
        (congrArg (· :: tail) ((veil_eq_iff (by decide)).mp same))
    rw [List.map_cons, blockCommentRest?.eq_2 _ _ other', ih]
  | case3 => rfl

theorem blockComment?_veil (text : Text) : blockComment? (text.map veil) = blockComment? text := by
  obtain ⟨rest, rfl, same⟩ | ⟨other, other'⟩ := veil_pair (show isWord '/' = false by decide)
      (show isWord '*' = false by decide) text
  · rw [same, blockComment?, blockComment?, blockCommentRest?_veil]
  · rw [blockComment?.eq_2 _ other, blockComment?.eq_2 _ other']

theorem comment?_veil (text : Text) : comment? (text.map veil) = comment? text := by
  rw [comment?, lineComment?_veil, blockComment?_veil]
  rfl

theorem hashbang?_veil (text : Text) : hashbang? (text.map veil) = hashbang? text := by
  obtain ⟨rest, rfl, same⟩ | ⟨other, other'⟩ := veil_pair (show isWord '#' = false by decide)
      (show isWord '!' = false by decide) text
  · rw [same, hashbang?, hashbang?, run_veil notBreak_veil]
  · rw [hashbang?.eq_2 _ other, hashbang?.eq_2 _ other']

theorem quotedRest?_veil (mark : isWord quote = false) (text : Text) :
    quotedRest? quote (text.map veil) = quotedRest? quote text := by
  fun_induction quotedRest? quote text with
  | case1 => rfl
  | case2 =>
    rw [List.map_cons, veil_mark (by decide)]
    rfl
  | case3 c rest ih => rw [List.map_cons, List.map_cons, veil_mark (by decide), quotedRest?, ih]
  | case4 c rest single pair stops =>
    have plain := veil_ne (by decide) (not_backslash single pair)
    rw [List.map_cons, quotedRest?_cons plain, veil_beq mark, if_pos stops]
  | case5 c rest single pair other broken =>
    have plain := veil_ne (by decide) (not_backslash single pair)
    rw [List.map_cons, quotedRest?_cons plain, veil_beq mark, if_neg other, veil_beq (by decide),
      if_pos broken]
  | case6 c rest single pair other whole ih =>
    have plain := veil_ne (by decide) (not_backslash single pair)
    rw [List.map_cons, quotedRest?_cons plain, veil_beq mark, if_neg other, veil_beq (by decide),
      if_neg whole, ih]

theorem string?_veil (text : Text) : string? (text.map veil) = string? text := by
  cases text with
  | nil => rfl
  | cons c rest =>
    by_cases double : c = '"'
    · subst double
      rw [List.map_cons, veil_mark (by decide), string?, string?, quotedRest?_veil (by decide)]
    · by_cases single : c = '\''
      · subst single
        rw [List.map_cons, veil_mark (by decide), string?, string?, quotedRest?_veil (by decide)]
      · have double' : veil c ≠ '"' := veil_ne (by decide) double
        have single' : veil c ≠ '\'' := veil_ne (by decide) single
        rw [List.map_cons, string?.eq_3 _ (by simp [double']) (by simp [single']),
          string?.eq_3 _ (by simp [double]) (by simp [single])]

theorem templateRest?_veil (part : TemplatePart) (text : Text) :
    templateRest? part (text.map veil) = templateRest? part text := by
  fun_induction templateRest? part text with
  | case1 => rw [List.map_cons, veil_mark (by decide), templateRest?]
  | case2 c rest ih | case11 c rest ih =>
    rw [List.map_cons, List.map_cons, veil_mark (by decide), templateRest?, ih]
  | case3 | case12 =>
    rw [List.map_cons, veil_mark (by decide)]
    rfl
  | case4 rest ih =>
    rw [List.map_cons, List.map_cons, veil_mark (by decide), veil_mark (by decide), templateRest?, ih]
  | case5 c rest quote pair single dollar ih =>
    have plain := not_backslash single pair
    have dollar' : ∀ later, veil c = '$' → rest.map veil = '{' :: later → False := by
      intro later same opens
      obtain ⟨d, tail, rfl, same', _⟩ := List.map_eq_cons_iff.mp opens
      exact dollar tail ((veil_eq_iff (by decide)).mp same)
        (congrArg (· :: tail) ((veil_eq_iff (by decide)).mp same'))
    rw [List.map_cons, templateRest?_text_cons (veil_ne (by decide) quote) (veil_ne (by decide) plain) dollar', ih]
  | case6 rest ih | case7 rest ih | case8 rest ih | case10 rest ih | case14 rest ih =>
    rw [List.map_cons, veil_mark (by decide), templateRest?, ih]
  | case9 c rest closer quote opener ih =>
    rw [List.map_cons, templateRest?.eq_9 _ _ (veil_ne (by decide) closer) (veil_ne (by decide) quote)
      (veil_ne (by decide) opener), ih]
  | case13 c rest quote pair single ih =>
    rw [List.map_cons, templateRest?_nested_cons (veil_ne (by decide) quote)
      (veil_ne (by decide) (not_backslash single pair)), ih]
  | case15 => rw [List.map_cons, veil_mark (by decide), templateRest?]
  | case16 c rest closer opener ih =>
    rw [List.map_cons, templateRest?.eq_16 _ _ (veil_ne (by decide) closer) (veil_ne (by decide) opener), ih]
  | case17 => simp [templateRest?]

theorem template?_veil (text : Text) : template? (text.map veil) = template? text := by
  cases text with
  | nil => rfl
  | cons c rest =>
    by_cases quote : c = '\x60'
    · subst quote
      rw [List.map_cons, veil_mark (by decide), template?, template?, templateRest?_veil]
    · have quote' : veil c ≠ '\x60' := veil_ne (by decide) quote
      rw [List.map_cons, template?.eq_2 _ (by simp [quote']), template?.eq_2 _ (by simp [quote])]

theorem regexRest?_veil (inClass : Bool) (text : Text) :
    regexRest? inClass (text.map veil) = regexRest? inClass text := by
  fun_induction regexRest? inClass text with
  | case1 => simp [regexRest?]
  | case2 =>
    rw [List.map_cons, veil_mark (by decide)]
    simp [regexRest?]
  | case3 =>
    rw [List.map_cons, veil_mark (by decide)]
    simp [regexRest?]
  | case4 =>
    rw [List.map_cons, List.map_cons, veil_mark (by decide), veil_mark (by decide)]
    simp [regexRest?]
  | case5 inClass c rest unbroken ih =>
    rw [List.map_cons, List.map_cons, veil_mark (by decide),
      regexRest?.eq_5 _ _ _ (veil_ne (by decide) unbroken), ih]
  | case6 c rest single unbroken _ pair ih =>
    have closes : (veil c != ']') = (c != ']') := by rw [bne, bne, veil_beq (by decide)]
    rw [List.map_cons, regexRest?_class_cons (veil_ne (by decide) (not_backslash single pair))
      (veil_ne (by decide) unbroken), closes, ih]
  | case7 => rw [List.map_cons, veil_mark (by decide), regexRest?]
  | case8 c rest single unbroken _ pair slash ih =>
    rw [List.map_cons, regexRest?_cons (veil_ne (by decide) (not_backslash single pair))
      (veil_ne (by decide) unbroken) (veil_ne (by decide) slash), veil_beq (by decide), ih]

theorem regexBody?_veil (text : Text) : regexBody? (text.map veil) = regexBody? text := by
  match text with
  | [] => rfl
  | [c] => simp [regexBody?]
  | c :: d :: rest =>
    by_cases slash : c = '/'
    · subst slash
      have inner := regexRest?_veil false (d :: rest)
      rw [List.map_cons] at inner
      simp only [List.map_cons, veil_mark (show isWord '/' = false by decide), regexBody?, inner,
        veil_beq (show isWord '/' = false by decide), veil_beq (show isWord '*' = false by decide)]
    · have slash' : veil c ≠ '/' := veil_ne (by decide) slash
      rw [List.map_cons, regexBody?.eq_2 _ (by simp [slash']), regexBody?.eq_2 _ (by simp [slash])]

theorem startsWith_veil (marks : ∀ m ∈ part, isWord m = false) (text : Text) :
    Text.startsWith (text.map veil) part = Text.startsWith text part := by
  unfold Text.startsWith
  induction part generalizing text with
  | nil => simp
  | cons m part ih =>
    cases text with
    | nil => rfl
    | cons c rest =>
      have here : (m == veil c) = (m == c) := by
        rw [Bool.beq_comm, veil_beq (marks m List.mem_cons_self), Bool.beq_comm]
      rw [List.map_cons, List.isPrefixOf, List.isPrefixOf, here,
        ih fun m' member => marks m' (List.mem_cons_of_mem _ member)]

theorem punctuator?_veil (text : Text) : punctuator? (text.map veil) = punctuator? text := by
  have marks : ∀ part ∈ punctuators, ∀ m ∈ part, isWord m = false := by decide
  unfold punctuator?
  refine congrArg _ (List.find?_congr fun part member => ?_)
  exact startsWith_veil (marks part member) text

end Lexeme
end ModuleBundler
