import ModuleBundler.Proofs.Literal
import ModuleBundler.Proofs.Syntax.Tokens

/-!
Reference edits lie in the tokens they are made for, in the order of the tokens, and change no line
break.
-/
namespace ModuleBundler

namespace Edit

def span (edit : Edit) : Span := (edit.start, edit.stop)

-- What an edit takes out of a text.
def removed (source : Text) (edit : Edit) : Text :=
  (source.drop edit.start).take (edit.stop - edit.start)

-- Edits in order between two offsets that keep the number of line breaks.
structure Fit (source : Text) (low high : Nat) (edits : List Edit) : Prop where
  ordered : Span.Ordered low high (edits.map span)
  breaks : ∀ edit ∈ edits, Text.newlines edit.text = Text.newlines (edit.removed source)

theorem Fit.none (between : low ≤ high) : Fit source low high [] := ⟨between, nofun⟩

theorem Fit.append (before : Fit source low middle edits) (after : Fit source middle high others) :
    Fit source low high (edits ++ others) where
  ordered := by
    rw [List.map_append]
    exact before.ordered.append after.ordered
  breaks := by
    intro edit among
    rcases List.mem_append.mp among with earlier | later
    · exact before.breaks edit earlier
    · exact after.breaks edit later

theorem Fit.widen (fit : Fit source low high edits) (below : lowest ≤ low) (above : high ≤ highest) :
    Fit source lowest highest edits :=
  ⟨(fit.ordered.lower below).raise above, fit.breaks⟩

theorem Fit.cons (after : low ≤ edit.start) (proper : edit.start < edit.stop)
    (kept : Text.newlines edit.text = Text.newlines (edit.removed source))
    (fit : Fit source edit.stop high edits) : Fit source low high (edit :: edits) where
  ordered := ⟨after, proper, fit.ordered⟩
  breaks := by
    intro member among
    rcases List.mem_cons.mp among with rfl | later
    · exact kept
    · exact fit.breaks member later

end Edit

namespace Reference

-- The expressions for imported names have no line breaks.
def Unbroken (live : LiveBindings) : Prop :=
  ∀ name expression, live.lookup name = some expression → Text.newlines expression = 0

theorem newlines_eq_zero_of_visible (visible : ∀ c ∈ text, Text.Visible c) :
    Text.newlines text = 0 :=
  List.count_eq_zero.mpr fun broken => Text.not_visible_newline (visible _ broken)

theorem newlines_eq_zero_of_name (named : ∀ c ∈ text, Text.isNameChar c = true) :
    Text.newlines text = 0 := by
  refine List.count_eq_zero.mpr fun broken => ?_
  have word := named _ broken
  revert word
  decide

theorem replacement?_cases (replaced : replacement? level around name expression = some text) :
    text = expression ∨ text = name ++ ':' :: ' ' :: expression := by
  unfold replacement? at replaced
  dsimp only at replaced
  repeat' split at replaced
  all_goals cases replaced
  all_goals simp

variable {source text : Text} {live : LiveBindings}

theorem prefix_drop (within : text <+: source.drop offset) (count : Nat) :
    text.drop count <+: source.drop (offset + count) := by
  obtain ⟨more, parts⟩ := within
  rw [← List.drop_drop, ← parts, List.drop_append]
  exact List.prefix_append _ _

-- The edit for a name that stands at a place and is imported.
def nameEdit? (live : LiveBindings) (found : Nat × Text) : Option Edit :=
  (live.lookup found.2).map fun expression => ⟨found.1, found.1 + found.2.length, expression⟩

theorem nameEdit?_fit {later : List Edit} (unbroken : Unbroken live)
    (within : name <+: source.drop place) (named : ∀ c ∈ name, Text.isNameChar c = true)
    (nonempty : name ≠ []) (fit : Edit.Fit source (place + name.length) high later) :
    Edit.Fit source place high ((nameEdit? live (place, name)).toList ++ later) := by
  cases looked : live.lookup name with
  | none =>
    simp only [nameEdit?, looked, Option.map_none, Option.toList_none, List.nil_append]
    exact fit.widen (Nat.le_add_right _ _) (Nat.le_refl high)
  | some expression =>
    have size := List.length_pos_iff.mpr nonempty
    simp only [nameEdit?, looked, Option.map_some, Option.toList_some, List.singleton_append]
    refine .cons (Nat.le_refl place) (Nat.lt_add_of_pos_right size) ?_ fit
    have removed := List.prefix_iff_eq_take.mp within
    rw [unbroken name expression looked, Edit.removed, Nat.add_sub_cancel_left, ← removed]
    exact (newlines_eq_zero_of_name named).symm

-- Names lie in the text they are found in, one behind the other.
theorem namesIn_fit (unbroken : Unbroken live) (within : text <+: source.drop offset)
    (passed : covered ≤ text.length) :
    Edit.Fit source (offset + covered) (offset + text.length)
      ((namesIn previous offset covered text).filterMap (nameEdit? live)) := by
  fun_induction namesIn previous offset covered text with
  | case1 => exact .none (Nat.add_le_add_left passed _)
  | case2 previous offset c rest covered ih =>
    rw [List.length_cons] at passed ⊢
    have later := ih (prefix_drop within 1) (Nat.le_of_succ_le_succ passed)
    exact later.widen (by omega) (by omega)
  | case3 previous offset c rest begins starts more ih =>
    have bounded := Lexeme.run_le Text.isNameChar rest
    have size : (c :: rest.take more).length = more + 1 := by
      rw [List.length_cons, List.length_take, Nat.min_eq_left bounded]
    have named : ∀ d ∈ c :: rest.take more, Text.isNameChar d = true := by
      intro d member
      rcases List.mem_cons.mp member with rfl | inside
      · simp only [begins, Bool.and_eq_true] at starts
        exact Text.isNameChar_of_isNameStart starts.1
      · exact Lexeme.run_within _ _ d inside
    have here : c :: rest.take more <+: source.drop offset :=
      ((List.prefix_cons_inj c).mpr (List.take_prefix _ _)).trans within
    have later := ih (prefix_drop within 1) bounded
    rw [show offset + 1 + more = offset + (c :: rest.take more).length by omega] at later
    have both := nameEdit?_fit unbroken here named (List.cons_ne_nil _ _) later
    rw [List.filterMap_cons, List.length_cons]
    have grown := both.widen (Nat.le_refl (offset + 0))
      (show _ ≤ offset + (rest.length + 1) by omega)
    cases edited : nameEdit? live (offset, c :: rest.take more) with
    | none => simpa [edited] using grown
    | some edit => simpa [edited] using grown
  | case4 previous offset c rest begins starts ih =>
    have later := ih (prefix_drop within 1) (Nat.zero_le _)
    rw [List.length_cons]
    exact later.widen (by omega) (by omega)

theorem substitutionRest?_bounds (read : substitutionRest? part text = some size) :
    size ≤ text.length ∧ 0 < size := by
  fun_induction substitutionRest? part text generalizing size with
  | case1 | case8 | case11 => cases read
  | case2 =>
    cases read
    simp
  | case3 rest ih | case4 rest ih | case6 rest ih | case10 rest ih => exact Lexeme.size_behind_mark read ih
  | case5 c rest _ _ _ ih => exact Lexeme.size_behind_mark read ih
  | case7 c rest ih =>
    have bounds := Lexeme.size_behind_mark read ih
    exact bounds
  | case9 c rest _ _ _ ih => exact Lexeme.size_behind_mark read ih
  | case12 c rest _ _ ih => exact Lexeme.size_behind_mark read ih

-- Edits made in the substitutions of a template lie in the template.
theorem substitutions_fit (within : text <+: source.drop offset) (passed : covered ≤ text.length)
    (make : Nat × Text → List Edit)
    (inner : ∀ place body, body <+: source.drop place →
      Edit.Fit source place (place + body.length) (make (place, body))) :
    Edit.Fit source (offset + covered) (offset + text.length)
      ((substitutions previous offset covered text).flatMap make) := by
  fun_induction substitutions previous offset covered text with
  | case1 => exact .none (Nat.add_le_add_left passed _)
  | case2 previous offset c rest covered ih =>
    rw [List.length_cons] at passed ⊢
    have later := ih (prefix_drop within 1) (Nat.le_of_succ_le_succ passed)
    exact later.widen (by omega) (by omega)
  | case3 previous offset c rest size? size found ih =>
    simp only [size?] at found
    split at found
    · rename_i body
      split at found
      · cases found
      · obtain ⟨bounded, positive⟩ := substitutionRest?_bounds found
        rw [List.flatMap_cons, List.length_cons, List.length_cons]
        rw [List.length_cons] at ih
        have later := ih (prefix_drop within 1) (by omega)
        have taken : body.take (size - 1) <+: source.drop (offset + 2) :=
          (List.take_prefix _ _).trans (prefix_drop within 2)
        have here := inner (offset + 2) (body.take (size - 1)) taken
        rw [List.length_take, Nat.min_eq_left (by omega)] at here
        have both := (here.widen (Nat.le_add_right _ 2) (by omega)).append later
        exact both.widen (Nat.le_refl _) (by omega)
    · cases found
  | case4 previous offset c rest size? absent ih =>
    have later := ih (prefix_drop within 1) (Nat.zero_le _)
    rw [List.length_cons]
    exact later.widen (by omega) (by omega)

theorem templateEdits_fit (unbroken : Unbroken live) (cut : token.CutFrom source) :
    Edit.Fit source token.start token.stop (templateEdits live token) := by
  have within : token.text <+: source.drop token.start := by
    rw [cut.slice]
    exact List.take_prefix _ _
  refine substitutions_fit within (Nat.zero_le _) _ fun place body inside => ?_
  dsimp only
  split
  · exact namesIn_fit unbroken inside (Nat.zero_le _)
  · exact .none (Nat.le_add_right _ _)

theorem leafEdits_fit (unbroken : Unbroken live) (cut : token.CutFrom source) :
    Edit.Fit source token.start token.stop (leafEdits live level around token) := by
  unfold leafEdits
  split
  · exact templateEdits_fit unbroken cut
  · rename_i named
    split
    · rename_i expression looked
      cases replaced : replacement? level around token.text expression with
      | none => exact .none (Nat.le_add_right _ _)
      | some text =>
        have plain := newlines_eq_zero_of_name (cut.named (.inl named)).chars
        have kept : Text.newlines text = 0 := by
          rcases replacement?_cases replaced with rfl | rfl
          · exact unbroken _ _ looked
          · have fresh := unbroken _ _ looked
            unfold Text.newlines at plain fresh ⊢
            rw [List.count_append, plain, List.count_cons_of_ne (by decide),
              List.count_cons_of_ne (by decide), fresh]
        have removed : Edit.removed source ⟨token.start, token.stop, text⟩ = token.text := by
          rw [cut.slice]
          simp [Edit.removed, Token.stop]
        exact .cons (Nat.le_refl _) cut.start_lt (by rw [removed, plain, kept])
          (.none (Nat.le_refl _))
    · exact .none (Nat.le_add_right _ _)
  · exact .none (Nat.le_add_right _ _)

mutual
theorem nodeEdits_fit (unbroken : Unbroken live) (level : Level) (around : Around) : (node : Node) →
    Syntax.Laid source low high node.tokens → Edit.Fit source low high (nodeEdits live level around node)
  | .leaf token, laid => by
    rw [Node.tokens_leaf] at laid
    obtain ⟨after, _, before⟩ := laid.ordered
    rw [nodeEdits]
    exact (leafEdits_fit unbroken (laid.cut token List.mem_cons_self)).widen after before
  | .group bracket children, laid => by
    rw [Node.tokens_group] at laid
    rw [nodeEdits]
    exact levelEdits_fit unbroken _ _ children laid

-- The edits of one nesting level lie in its tokens.
theorem levelEdits_fit (unbroken : Unbroken live) (level : Level) (before : List Sibling) :
    (nodes : List Node) → Syntax.Laid source low high (nodes.flatMap Node.tokens) →
      Edit.Fit source low high (levelEdits live level before nodes)
  | [], laid => by
    rw [levelEdits]
    exact .none laid.ordered.le
  | node :: nodes, laid => by
    rw [List.flatMap_cons] at laid
    obtain ⟨middle, here, later⟩ := laid.split
    rw [levelEdits]
    exact (nodeEdits_fit unbroken level _ node here).append
      (levelEdits_fit unbroken level _ nodes later)
end

end Reference
end ModuleBundler
