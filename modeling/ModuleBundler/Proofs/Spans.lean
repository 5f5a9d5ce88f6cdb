import ModuleBundler.Token.Basic

/-!
Spans that lie one behind the other between two offsets, none of them empty.
-/
namespace ModuleBundler

abbrev Span := Nat × Nat

def Token.span (token : Token) : Span := (token.start, token.stop)

namespace Span

def Ordered (low high : Nat) : List Span → Prop
  | [] => low ≤ high
  | span :: spans => low ≤ span.1 ∧ span.1 < span.2 ∧ Ordered span.2 high spans

theorem Ordered.le (ordered : Ordered low high spans) : low ≤ high := by
  induction spans generalizing low with
  | nil => exact ordered
  | cons span spans ih =>
    obtain ⟨after, proper, later⟩ := ordered
    have rest := ih later
    omega

theorem Ordered.lower (ordered : Ordered low high spans) (below : lowest ≤ low) :
    Ordered lowest high spans := by
  cases spans with
  | nil => exact Nat.le_trans below ordered
  | cons span spans => exact ⟨Nat.le_trans below ordered.1, ordered.2⟩

theorem Ordered.append (before : Ordered low middle spans) (after : Ordered middle high others) :
    Ordered low high (spans ++ others) := by
  induction spans generalizing low with
  | nil => exact after.lower before
  | cons span spans ih => exact ⟨before.1, before.2.1, ih before.2.2⟩

theorem Ordered.raise (ordered : Ordered low high spans) (above : high ≤ higher) :
    Ordered low higher spans := by
  have empty : Ordered high higher [] := above
  have extended := ordered.append empty
  rwa [List.append_nil] at extended

theorem Ordered.split (ordered : Ordered low high (spans ++ others)) :
    ∃ middle, Ordered low middle spans ∧ Ordered middle high others := by
  induction spans generalizing low with
  | nil => exact ⟨low, Nat.le_refl low, ordered⟩
  | cons span spans ih =>
    obtain ⟨after, proper, later⟩ := ordered
    obtain ⟨middle, inner, outer⟩ := ih later
    exact ⟨middle, ⟨after, proper, inner⟩, outer⟩

theorem Ordered.sublist (ordered : Ordered low high spans) (fewer : others.Sublist spans) :
    Ordered low high others := by
  induction fewer generalizing low with
  | slnil => exact ordered
  | cons span _ ih =>
    obtain ⟨after, proper, later⟩ := ordered
    exact ih (later.lower (by omega))
  | cons_cons span _ ih => exact ⟨ordered.1, ordered.2.1, ih ordered.2.2⟩

theorem Ordered.bounds (ordered : Ordered low high spans) :
    ∀ span ∈ spans, low ≤ span.1 ∧ span.1 < span.2 ∧ span.2 ≤ high := by
  induction spans generalizing low with
  | nil => simp
  | cons span spans ih =>
    obtain ⟨after, proper, later⟩ := ordered
    intro member among
    rcases List.mem_cons.mp among with rfl | below
    · exact ⟨after, proper, later.le⟩
    · obtain ⟨first, rest⟩ := ih later member below
      exact ⟨by omega, rest⟩

theorem Ordered.pairwise (ordered : Ordered low high spans) :
    spans.Pairwise fun earlier later => earlier.2 ≤ later.1 := by
  induction spans generalizing low with
  | nil => exact .nil
  | cons span spans ih =>
    obtain ⟨_, _, later⟩ := ordered
    exact .cons (fun member among => (later.bounds member among).1) (ih later)

end Span
end ModuleBundler
