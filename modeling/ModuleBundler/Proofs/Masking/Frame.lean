import Mathlib.Data.List.Forall2
import ModuleBundler.Proofs.Lexeme

/-!
Masking only blanks characters: every character of a source stays where it is or becomes a space,
and line breaks stay.
-/
namespace ModuleBundler.Masking

def Blanked (shown original : Char) : Prop := shown = original ∨ (shown = ' ' ∧ original ≠ '\n')

theorem blanked_refl (text : Text) : List.Forall₂ Blanked text text :=
  List.forall₂_same.mpr fun _ _ => .inl rfl

theorem blanked_spaces (unbroken : '\n' ∉ text) :
    List.Forall₂ Blanked (List.replicate text.length ' ') text := by
  induction text with
  | nil => exact .nil
  | cons c rest ih =>
    simp only [List.mem_cons, not_or] at unbroken
    exact .cons (.inr ⟨rfl, Ne.symm unbroken.1⟩) (ih unbroken.2)

theorem nextPiece_regex (read : nextPiece preceding text = (.regex body, more)) :
    Lexeme.regexBody? text = some body ∧ body ≤ more + 1 := by
  have plain : ∀ kind (size? : Option Nat), kind ≠ .regex body →
      size?.map (fun size => (kind, size - 1)) ≠ some (PieceKind.regex body, more) := by
    intro kind size? other same
    obtain ⟨_, _, paired⟩ := Option.map_eq_some_iff.mp same
    exact other (congrArg Prod.fst paired)
  have found := Option.getD_eq_iff.mp read
  simp only [Option.orElse_eq_orElse, Option.orElse_eq_or, Option.or_eq_some_iff, plain, ne_eq,
    reduceCtorEq, not_false_eq_true, and_false, or_false, Prod.mk.injEq, false_and] at found
  split at found
  · obtain ⟨size, readBody, paired⟩ := Option.map_eq_some_iff.mp found
    cases paired
    exact ⟨readBody, by omega⟩
  · cases found

-- A piece shows all of its characters, apart from the body of a regex.
theorem masked_blanked (text : Text)
    (read : nextPiece preceding (c :: text) = (kind, more)) :
    List.Forall₂ Blanked (Piece.masked ⟨kind, c :: text.take more⟩) (c :: text.take more) := by
  cases kind with
  | regex body =>
    obtain ⟨readBody, within⟩ := nextPiece_regex read
    obtain ⟨bounded, marked, line⟩ := Lexeme.regexBody?_line readBody
    obtain ⟨inner, rfl⟩ := Nat.exists_eq_add_of_le' marked
    simp only [List.length_cons] at bounded
    have parts : c :: text.take more
        = [c] ++ (text.take inner ++ (c :: text.take more).drop (inner + 1)) := by
      rw [List.drop_succ_cons, List.singleton_append, List.cons_inj_right]
      conv_lhs => rw [← List.take_append_drop inner (text.take more)]
      rw [List.take_take, Nat.min_eq_left (by omega)]
    have unbroken : '\n' ∉ text.take inner := by
      intro member
      rw [List.take_succ_cons] at line
      exact line (List.mem_cons_of_mem _ (List.take_subset_take_left _ (by omega) member))
    have spaces := blanked_spaces unbroken
    rw [List.length_take, Nat.min_eq_left (by omega)] at spaces
    simp only [Piece.masked, Nat.add_sub_cancel, List.append_assoc]
    conv => arg 3; rw [parts]
    exact List.rel_append (blanked_refl _) (List.rel_append spaces (blanked_refl _))
  | hashbang | blanks | comment | literal | word | mark => exact blanked_refl _

theorem piecesFrom_blanked (reading : Reading) (text : Text) :
    List.Forall₂ Blanked ((piecesFrom reading text).flatMap Piece.masked) text := by
  fun_induction piecesFrom reading text with
  | case1 => exact .nil
  | case2 reading c rest kind more read text ih =>
    conv => arg 3; rw [← List.take_append_drop more rest]
    exact List.rel_append (masked_blanked rest read) ih

theorem mask_blanked (source : Text) : List.Forall₂ Blanked (mask source) source := by
  unfold mask pieces
  split
  · rename_i size _
    conv => arg 3; rw [← List.take_append_drop size source]
    exact List.rel_append (blanked_refl _) (piecesFrom_blanked _ _)
  · exact piecesFrom_blanked _ _

theorem length_mask (source : Text) : (mask source).length = source.length :=
  (mask_blanked source).length_eq

theorem newlines_blanked (blanked : List.Forall₂ Blanked shown original) :
    Text.newlines shown = Text.newlines original := by
  induction blanked with
  | nil => rfl
  | cons here _ ih =>
    unfold Text.newlines at ih ⊢
    rw [List.count_cons, List.count_cons, ih]
    rcases here with rfl | ⟨rfl, unbroken⟩
    · rfl
    · simp [unbroken]

-- A span of a masked source has the line breaks of the same span of the source.
theorem newlines_mask (source : Text) (start size : Nat) :
    Text.newlines (((mask source).drop start).take size)
      = Text.newlines ((source.drop start).take size) :=
  newlines_blanked (List.forall₂_take _ (List.forall₂_drop _ (mask_blanked source)))

end ModuleBundler.Masking
