import ModuleBundler.Proofs.Masking.Cut
import ModuleBundler.Token.Terminal

/-!
How the brackets among the pieces of a source nest, and where its pieces begin and end.
-/
namespace ModuleBundler.Masking

-- The open brackets behind one more piece, the innermost first.
def nestStep (stack : List Bracket) (piece : Piece) : Option (List Bracket) :=
  match piece.kind, piece.text with
  | .mark, ['('] => some (.paren :: stack)
  | .mark, [')'] => if stack.head? = some .paren then some stack.tail else none
  | .mark, ['['] => some (.square :: stack)
  | .mark, [']'] => if stack.head? = some .square then some stack.tail else none
  | .mark, ['{'] => some (.brace :: stack)
  | .mark, ['}'] => if stack.head? = some .brace then some stack.tail else none
  | _, _ => some stack

-- There is no answer where a bracket closes what was not opened last.
def nest (stack : List Bracket) : List Piece → Option (List Bracket)
  | [] => some stack
  | piece :: later => (nestStep stack piece).bind fun stack => nest stack later

theorem nest_append (stack : List Bracket) (front back : List Piece) :
    nest stack (front ++ back) = (nest stack front).bind fun stack => nest stack back := by
  induction front generalizing stack with
  | nil => rfl
  | cons piece front ih =>
    simp only [List.cons_append, nest, Option.bind_assoc]
    exact congrArg _ (funext ih)

variable {reading : Reading}

-- As many conditions are remembered as parentheses are open.
theorem nestStep_conditions (nested : nestStep stack piece = some stack')
    (level : reading.conditions.length = stack.count .paren) :
    (reading.after piece.kind piece.text).conditions.length = stack'.count .paren := by
  obtain ⟨kind, text⟩ := piece
  have closed : ∀ bracket, (if stack.head? = some bracket then some stack.tail else none) = some stack' →
      stack = bracket :: stack' := by
    intro bracket found
    split at found
    · rename_i head
      cases found
      obtain ⟨later, rfl⟩ := List.head?_eq_some_iff.mp head
      rfl
    · cases found
  unfold nestStep at nested
  dsimp only at nested
  split at nested
  · cases nested
    simp [Reading.after, level]
  · rw [closed _ nested] at level
    simp [Reading.after, level]
  · cases nested
    simpa [Reading.after] using level
  · rw [closed _ nested] at level
    simpa [Reading.after] using level
  · cases nested
    simpa [Reading.after] using level
  · rw [closed _ nested] at level
    simpa [Reading.after] using level
  · rename_i opened closed' _ _ _ _
    cases nested
    cases kind with
    | mark =>
      unfold Reading.after
      dsimp only
      split
      · exact absurd rfl (opened rfl)
      · exact absurd rfl (closed' rfl)
      · exact level
      · exact level
    | _ => exact level

theorem nest_conditions {pieces : List Piece} (nested : nest stack pieces = some stack')
    (level : reading.conditions.length = stack.count .paren) :
    (readThrough reading pieces).conditions.length = stack'.count .paren := by
  induction pieces generalizing stack reading with
  | nil =>
    cases nested
    exact level
  | cons piece pieces ih =>
    obtain ⟨between, step, later⟩ := Option.bind_eq_some_iff.mp nested
    exact ih later (nestStep_conditions step level)

theorem piecesFrom_nonempty (reading : Reading) (source : Text) :
    ∀ piece ∈ piecesFrom reading source, piece.text ≠ [] := by
  fun_induction piecesFrom reading source with
  | case1 => simp
  | case2 reading c rest kind size read text ih =>
    intro piece member
    rcases List.mem_cons.mp member with rfl | later
    · exact List.cons_ne_nil _ _
    · exact ih piece later

theorem pieces_nonempty (source : Text) : ∀ piece ∈ pieces source, piece.text ≠ [] := by
  unfold pieces
  split
  · rename_i size line
    intro piece member
    rcases List.mem_cons.mp member with rfl | later
    · obtain ⟨_, rfl, rfl⟩ := Lexeme.hashbang?_cases line
      exact List.cons_ne_nil _ _
    · exact piecesFrom_nonempty _ _ piece later
  · exact piecesFrom_nonempty _ _

theorem pieces_eq_nil {pieces : List Piece} (nonempty : ∀ piece ∈ pieces, piece.text ≠ [])
    (texts : pieces.flatMap Piece.text = []) : pieces = [] := by
  cases pieces with
  | nil => rfl
  | cons piece pieces =>
    have empty := List.flatMap_eq_nil_iff.mp texts piece List.mem_cons_self
    exact absurd empty (nonempty piece List.mem_cons_self)

-- Pieces can be parted at a place in one way only.
theorem parted_unique {pieces others : List Piece} (same : pieces ++ later = others ++ later')
    (nonempty : ∀ piece ∈ pieces ++ later, piece.text ≠ [])
    (texts : pieces.flatMap Piece.text = others.flatMap Piece.text) :
    pieces = others ∧ later = later' := by
  rcases List.append_eq_append_iff.mp same with ⟨between, rfl, rfl⟩ | ⟨between, rfl, rfl⟩
  · have empty : between.flatMap Piece.text = [] := by simpa using texts
    have none := pieces_eq_nil (fun piece member => nonempty piece (by simp [member])) empty
    simp [none]
  · have empty : between.flatMap Piece.text = [] := by simpa using texts
    have none := pieces_eq_nil (fun piece member => nonempty piece (by simp [member])) empty
    simp [none]

-- Where a piece ends no other piece goes on.
theorem parted_uncrossed {pieces : List Piece} (same : pieces ++ later = front ++ piece :: back)
    (before : (front.flatMap Piece.text).length < (pieces.flatMap Piece.text).length) :
    (front.flatMap Piece.text).length + piece.text.length ≤ (pieces.flatMap Piece.text).length := by
  rcases List.append_eq_append_iff.mp same with ⟨between, rfl, _⟩ | ⟨between, rfl, parts⟩
  · simp only [List.flatMap_append, List.length_append] at before
    omega
  · cases between with
    | nil => simp at before
    | cons first between =>
      cases parts
      simp only [List.flatMap_append, List.flatMap_cons, List.length_append]
      omega

end ModuleBundler.Masking
