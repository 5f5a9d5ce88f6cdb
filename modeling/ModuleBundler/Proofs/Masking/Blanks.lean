import ModuleBundler.Proofs.Masking.Frame

/-!
What is blanked in a masked source stands behind the opening slash of a regex or behind another blank, so that
names are shown whole or not at all.
-/
namespace ModuleBundler.Masking

-- A text that goes on behind some character, with what is shown of it.
inductive Veiled : Char → Text → Text → Prop where
  | nil : Veiled before [] []
  | shown (later : Veiled c text original) : Veiled before (c :: text) (c :: original)
  | blank (behind : before = '/' ∨ before = ' ') (later : Veiled ' ' text original) :
      Veiled before (' ' :: text) (c :: original)

-- The same by the blanked characters themselves: `may` tells whether one can stand here, behind a slash or behind
-- another one.
inductive Blotted : Bool → Text → Text → Prop where
  | nil : Blotted may [] []
  | shown (later : Blotted (c == '/') text original) : Blotted may (c :: text) (c :: original)
  | blank (later : Blotted true text original) : Blotted true (' ' :: text) (c :: original)

variable {may : Bool} {before c : Char} {front back text original rest : Text}

theorem blotted_refl (may : Bool) (text : Text) : Blotted may text text := by
  induction text generalizing may with
  | nil => exact .nil
  | cons c rest ih => exact .shown (ih _)

theorem Blotted.append (first : Blotted may front original) (second : ∀ may, Blotted may back rest) :
    Blotted may (front ++ back) (original ++ rest) := by
  induction first with
  | nil => exact second _
  | shown _ ih => exact .shown ih
  | blank _ ih => exact .blank ih

theorem blotted_spaces (text : Text) : Blotted true (List.replicate text.length ' ') text := by
  induction text with
  | nil => exact .nil
  | cons c rest ih => exact .blank ih

theorem masked_blotted (may : Bool) (text : Text) (read : nextPiece preceding (c :: text) = (kind, more)) :
    Blotted may (Piece.masked ⟨kind, c :: text.take more⟩) (c :: text.take more) := by
  cases kind with
  | regex body =>
    obtain ⟨readBody, within⟩ := nextPiece_regex read
    obtain ⟨bounded, marked, _⟩ := Lexeme.regexBody?_line readBody
    obtain ⟨inner, rfl⟩ := Nat.exists_eq_add_of_le' marked
    rw [List.length_cons] at bounded
    have slash : c = '/' := by
      obtain ⟨_, _, _, opened, _⟩ := Lexeme.regexBody?_opened readBody
      exact (List.cons.inj opened).1
    have parts : text.take more = text.take inner ++ (c :: text.take more).drop (inner + 1) := by
      rw [List.drop_succ_cons]
      conv_lhs => rw [← List.take_append_drop inner (text.take more)]
      rw [List.take_take, Nat.min_eq_left (by omega)]
    have spaces := blotted_spaces (text.take inner)
    rw [List.length_take, Nat.min_eq_left (by omega)] at spaces
    simp only [Piece.masked, Nat.add_sub_cancel, List.append_assoc]
    conv => arg 3; rw [parts]
    refine .shown ?_
    rw [slash]
    exact spaces.append fun may => blotted_refl may _
  | hashbang | blanks | comment | literal | word | mark => exact blotted_refl _ _

theorem piecesFrom_blotted (may : Bool) (reading : Reading) (text : Text) :
    Blotted may ((piecesFrom reading text).flatMap Piece.masked) text := by
  fun_induction piecesFrom reading text generalizing may with
  | case1 => exact .nil
  | case2 reading c rest kind more read text ih =>
    conv => arg 3; rw [← List.take_append_drop more rest]
    exact (masked_blotted may rest read).append ih

theorem mask_blotted (source : Text) : Blotted false (mask source) source := by
  unfold mask pieces
  split
  · rename_i size _
    conv => arg 3; rw [← List.take_append_drop size source]
    exact (blotted_refl false _).append fun may => piecesFrom_blotted may _ _
  · exact piecesFrom_blotted false _ _

theorem Blotted.veiled (blotted : Blotted may text original)
    (behind : may = true → before = '/' ∨ before = ' ') : Veiled before text original := by
  induction blotted generalizing before with
  | nil => exact .nil
  | shown _ ih => exact .shown (ih fun slash => .inl (beq_iff_eq.mp slash))
  | blank _ ih => exact .blank (behind rfl) (ih fun _ => .inr rfl)

theorem mask_veiled (before : Char) (source : Text) : Veiled before (mask source) source :=
  (mask_blotted source).veiled fun hidden => absurd hidden Bool.false_ne_true

theorem Blotted.drop (blotted : Blotted may text original) (count : Nat) :
    ∃ may, Blotted may (text.drop count) (original.drop count) := by
  induction blotted generalizing count with
  | @nil may => exact ⟨may, by simpa using .nil⟩
  | @shown c text original may later ih =>
    cases count with
    | zero => exact ⟨may, .shown later⟩
    | succ count => exact ih count
  | blank later ih =>
    cases count with
    | zero => exact ⟨true, .blank later⟩
    | succ count => exact ih count

-- A part that begins with no space and has none behind a slash stands in the source as it is shown.
theorem Blotted.begins (blotted : Blotted may (front ++ back) original) (solid : may = true → front.head? ≠ some ' ')
    (unspaced : ¬ ['/', ' '] <:+: front) : front <+: original := by
  induction front generalizing may original with
  | nil => exact List.nil_prefix
  | cons c letters ih =>
    cases blotted with
    | shown later =>
      refine List.cons_prefix_cons.mpr ⟨rfl,
        ih later ?_ fun inside => unspaced (inside.trans (List.suffix_cons c letters).isInfix)⟩
      intro slash space
      obtain ⟨others, rfl⟩ := List.head?_eq_some_iff.mp space
      rw [beq_iff_eq.mp slash] at unspaced
      exact unspaced ⟨[], others, rfl⟩
    | blank later => exact absurd rfl (solid rfl)

theorem Veiled.drop (veiled : Veiled before text original) (count : Nat) :
    ∃ before, Veiled before (text.drop count) (original.drop count) := by
  induction veiled generalizing count with
  | nil => exact ⟨' ', by simpa using .nil⟩
  | @shown c text original before later ih =>
    cases count with
    | zero => exact ⟨before, .shown later⟩
    | succ count => exact ih count
  | @blank before text original c behind later ih =>
    cases count with
    | zero => exact ⟨before, .blank behind later⟩
    | succ count => exact ih count

-- Where a name is shown, it stands in the source and ends where it does there.
theorem Veiled.name (veiled : Veiled before (front ++ back) original)
    (chars : ∀ c ∈ front, Text.isNameChar c = true) (inside : front ≠ [] ∨ Text.isNameChar before = true) :
    ∃ behind, original = front ++ behind ∧ behind.head? = back.head? := by
  induction front generalizing before original with
  | nil =>
    cases veiled with
    | nil => exact ⟨[], rfl, rfl⟩
    | shown later => exact ⟨_, rfl, rfl⟩
    | blank behind later =>
      rcases inside with some_ | named
      · exact absurd rfl some_
      · rcases behind with rfl | rfl
        · exact absurd named (by decide)
        · exact absurd named (by decide)
  | cons c letters ih =>
    obtain ⟨own, others⟩ := List.forall_mem_cons.mp chars
    cases veiled with
    | shown later =>
      obtain ⟨behind, rfl, heads⟩ := ih later others (.inr own)
      exact ⟨behind, rfl, heads⟩
    | blank behind later => exact absurd own (by decide)

end ModuleBundler.Masking
