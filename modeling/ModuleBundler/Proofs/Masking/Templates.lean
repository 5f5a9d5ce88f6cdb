import ModuleBundler.Proofs.Masking.Blanks
import ModuleBundler.Proofs.Masking.Slashes

/-!
Template literals by how deep braces are nested in their substitutions. Their reader knows braces inside a
substitution, and none inside those.
-/
namespace ModuleBundler

namespace Lexeme

-- Code with balanced braces, and how many of them are open at most.
inductive Braced : Nat → Text → Prop where
  | nil : Braced 0 []
  | char (plain : c ∉ ['\x7b', '\x7d', '\x60']) (later : Braced depth rest) : Braced depth (c :: rest)
  | braces (inside : Braced own code) (later : Braced depth rest) :
      Braced (max (own + 1) depth) ('\x7b' :: (code ++ '\x7d' :: rest))

-- What stands between the backticks of a template literal: characters, escaped ones, and substitutions, with how
-- deep the braces of their codes are nested.
inductive Template : Nat → Text → Prop where
  | nil : Template 0 []
  | char (mark : c ≠ '\x60') (unescaped : c ≠ '\\') (unopened : c = '$' → rest.head? ≠ some '\x7b')
      (later : Template depth rest) : Template depth (c :: rest)
  | escape (later : Template depth rest) : Template depth ('\\' :: c :: rest)
  | substitution (braced : Braced own code) (later : Template depth rest) :
      Template (max own depth) ('$' :: '\x7b' :: (code ++ '\x7d' :: rest))

def quoted (text : Text) : Text := '\x60' :: (text ++ ['\x60'])

variable {depth : Nat} {code text more : Text}

theorem templateRest?_braces_cons (plain : c ∉ ['\x7b', '\x7d', '\x60']) (more : Text) :
    templateRest? .braces (c :: more) = (templateRest? .braces more).map (· + 1) := by
  simp only [List.mem_cons, List.not_mem_nil, or_false, not_or] at plain
  exact templateRest?.eq_16 c more plain.2.1 plain.1

theorem templateRest?_substitution_cons (plain : c ∉ ['\x7b', '\x7d', '\x60']) (more : Text) :
    templateRest? .substitution (c :: more) = (templateRest? .substitution more).map (· + 1) := by
  simp only [List.mem_cons, List.not_mem_nil, or_false, not_or] at plain
  exact templateRest?.eq_9 c more plain.2.1 plain.2.2 plain.1

-- In braces no other ones are read.
theorem templateRest?_braces (braced : Braced depth code) (more : Text) :
    templateRest? .braces (code ++ '\x7d' :: more)
      = if depth = 0 then (templateRest? .substitution more).map (· + (code.length + 1)) else none := by
  induction braced with
  | nil => rfl
  | char plain _ ih =>
    rw [List.cons_append, templateRest?_braces_cons plain, ih]
    split
    · rw [Option.map_map]
      rfl
    · rfl
  | braces _ _ _ _ =>
    rw [if_neg (Nat.ne_of_gt (Nat.lt_of_lt_of_le (Nat.succ_pos _) (Nat.le_max_left _ _)))]
    rfl

theorem templateRest?_substitution (braced : Braced depth code) (more : Text) :
    templateRest? .substitution (code ++ more)
      = if depth ≤ 1 then (templateRest? .substitution more).map (· + code.length) else none := by
  induction braced with
  | nil => simp
  | char plain _ ih =>
    rw [List.cons_append, templateRest?_substitution_cons plain, ih]
    split
    · rw [Option.map_map]
      rfl
    · rfl
  | @braces own code depth rest inside _ _ ih =>
    rw [List.cons_append, List.append_assoc, List.cons_append, templateRest?, templateRest?_braces inside]
    by_cases shallow : own = 0
    · rw [if_pos shallow, ih]
      have within : max (own + 1) depth ≤ 1 ↔ depth ≤ 1 := by omega
      simp only [within]
      split
      · simp only [Option.map_map, List.length_cons, List.length_append]
        congr 1
        funext size
        simp only [Function.comp_apply]
        omega
      · rfl
    · rw [if_neg shallow, if_neg (by omega)]
      rfl

theorem templateRest?_text (template : Template depth text) (more : Text) :
    templateRest? .text (text ++ '\x60' :: more) = if depth ≤ 1 then some (text.length + 1) else none := by
  induction template with
  | nil => rfl
  | @char c depth rest mark unescaped unopened _ ih =>
    have single : ∀ later, c = '$' → rest ++ '\x60' :: more = '\x7b' :: later → False := by
      intro later dollar opened
      cases rest with
      | nil => cases opened
      | cons d rest => exact unopened dollar (congrArg some (List.cons.inj opened).1)
    rw [List.cons_append, templateRest?_text_cons mark unescaped single, ih]
    split
    · rfl
    · rfl
  | escape _ ih =>
    rw [List.cons_append, List.cons_append, templateRest?, ih]
    split
    · rfl
    · rfl
  | @substitution own code depth rest braced _ ih =>
    rw [List.cons_append, List.cons_append, List.append_assoc, List.cons_append, templateRest?,
      templateRest?_substitution braced]
    by_cases shallow : own ≤ 1
    · rw [if_pos shallow, templateRest?, ih]
      have within : max own depth ≤ 1 ↔ depth ≤ 1 := by omega
      simp only [within]
      split
      · simp only [Option.map_some, List.length_cons, List.length_append, Option.some.injEq]
        omega
      · rfl
    · rw [if_neg shallow, if_neg (by omega)]
      rfl

theorem length_quoted (text : Text) : (quoted text).length = text.length + 2 := by
  simp [quoted]

theorem quoted_append (text more : Text) : quoted text ++ more = '\x60' :: (text ++ '\x60' :: more) := by
  simp [quoted]

-- A template literal is read as a whole exactly if braces are nested in no braces of a substitution.
theorem template?_quoted (template : Template depth text) (more : Text) :
    template? (quoted text ++ more) = if depth ≤ 1 then some (quoted text).length else none := by
  rw [quoted_append, template?, templateRest?_text template, length_quoted]
  split
  · rfl
  · rfl

end Lexeme

namespace Masking
open Lexeme
variable {depth : Nat} {text : Text}

-- At a backtick there is a template literal or a mark.
theorem nextPiece_backtick (preceding : Preceding) (rest : Text) :
    nextPiece preceding ('\x60' :: rest)
      = ((template? ('\x60' :: rest)).map fun size => (PieceKind.literal, size - 1)).getD (.mark, 0) := by
  have body : regexBody? ('\x60' :: rest) = none := rfl
  have blanks : blanks? ('\x60' :: rest) = none := rfl
  have comment : comment? ('\x60' :: rest) = none := rfl
  have string : string? ('\x60' :: rest) = none := rfl
  have word : run1? Text.isNameChar ('\x60' :: rest) = none := rfl
  unfold nextPiece
  simp only [body, blanks, comment, string, word, Option.map_none, ite_self]
  cases template? ('\x60' :: rest) with
  | none => rfl
  | some size => rfl

theorem nextPiece_quoted (template : Template depth text) (preceding : Preceding) (more : Text) :
    nextPiece preceding (quoted text ++ more)
      = if depth ≤ 1 then (.literal, (quoted text).length - 1) else (.mark, 0) := by
  have read := template?_quoted template more
  rw [quoted_append] at read ⊢
  rw [nextPiece_backtick, read]
  split
  · rfl
  · rfl

end Masking
end ModuleBundler
