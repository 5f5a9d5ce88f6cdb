import ModuleBundler.Proofs.Rewriting.RegexLiterals

/-!
What masking leaves alone. The places that are blanked are the bodies of the regex literals: spans that lie one
behind the other, each on one line between two slashes that stay.
-/
namespace ModuleBundler

def Span.Covers (span : Span) (place : Nat) : Prop := span.1 ≤ place ∧ place < span.2

-- A span with the one place in front of it and the one behind it.
def Span.framed (span : Span) : Span := (span.1 - 1, span.2 + 1)

namespace Masking
open Lexeme

-- The bodies of the regex literals among pieces that begin at an offset.
def bodiesFrom (offset : Nat) : List Piece → List Span
  | [] => []
  | ⟨.regex body, text⟩ :: later => (offset + 1, offset + body - 1) :: bodiesFrom (offset + text.length) later
  | ⟨_, text⟩ :: later => bodiesFrom (offset + text.length) later

def bodies (source : Text) : List Span := bodiesFrom 0 (pieces source)

-- A span of a source that is the body of a regex literal, and the slashes around it, which are shown.
structure Body (source : Text) (span : Span) : Prop where
  literal : regexBody? (source.drop (span.1 - 1)) = some (span.2 + 2 - span.1)
  after : 0 < span.1
  nonempty : span.1 < span.2
  opening : source[span.1 - 1]? = some '/' ∧ (mask source)[span.1 - 1]? = some '/'
  closing : source[span.2]? = some '/' ∧ (mask source)[span.2]? = some '/'
  line : '\n' ∉ source.between span.1 span.2

variable {source : Text} {pieces_ : List Piece} {piece : Piece} {span : Span} {offset place : Nat}

-- A regex literal has a body between its slashes, all inside of it.
def Piece.Proper (piece : Piece) : Prop :=
  ∀ body, piece.kind = .regex body → 3 ≤ body ∧ body ≤ piece.text.length

theorem pieces_proper (among : piece ∈ pieces source) : piece.Proper := by
  intro body regex
  obtain ⟨front, later, parted⟩ := List.append_of_mem among
  obtain ⟨kind, text⟩ := piece
  cases regex
  cases pieces_split parted with
  | inl hashbang => cases hashbang.2
  | inr reads =>
    obtain ⟨_, readBody, size⟩ := reads
    dsimp only at size ⊢
    have least := regexBody?_least readBody
    exact ⟨least, by omega⟩

theorem Piece.Proper.length_masked (proper : piece.Proper) : piece.masked.length = piece.text.length := by
  obtain ⟨kind, text⟩ := piece
  cases kind with
  | regex body =>
    obtain ⟨least, inside⟩ := proper body rfl
    dsimp only at inside
    simp only [Piece.masked, List.length_append, List.length_take, List.length_replicate, List.length_drop]
    omega
  | _ => rfl

-- In front of the body of a regex literal and behind it a piece is shown as it is.
theorem Piece.Proper.shown (proper : piece.Proper)
    (outside : ∀ body, piece.kind = .regex body → place < 1 ∨ body - 1 ≤ place) :
    piece.masked[place]? = piece.text[place]? := by
  obtain ⟨kind, text⟩ := piece
  cases kind with
  | regex body =>
    obtain ⟨least, inside⟩ := proper body rfl
    dsimp only at inside
    have opened : (text.take 1).length = 1 := by simp only [List.length_take]; omega
    have front : (text.take 1 ++ List.replicate (body - 2) ' ').length = body - 1 := by
      simp only [List.length_append, opened, List.length_replicate]
      omega
    simp only [Piece.masked]
    cases outside body rfl with
    | inl before =>
      rw [List.append_assoc, List.getElem?_append_left (by omega), List.getElem?_take_of_lt before]
    | inr behind =>
      rw [List.getElem?_append_right (by omega), front, List.getElem?_drop, Nat.add_sub_cancel' behind]
  | _ => rfl

-- A body belongs to one of the pieces.
theorem mem_bodiesFrom (listed : span ∈ bodiesFrom offset pieces_) :
    ∃ front body text later, pieces_ = front ++ ⟨.regex body, text⟩ :: later ∧
      span = (offset + (front.flatMap Piece.text).length + 1,
        offset + (front.flatMap Piece.text).length + body - 1) := by
  fun_induction bodiesFrom offset pieces_ with
  | case1 => cases listed
  | case2 offset body text later ih =>
    cases listed with
    | head => exact ⟨[], body, text, later, rfl, rfl⟩
    | tail _ behind =>
      obtain ⟨front, own, letters, others, rfl, rfl⟩ := ih behind
      exact ⟨⟨.regex body, text⟩ :: front, own, letters, others, rfl, by simp [Nat.add_assoc]⟩
  | case3 offset kind text later _ ih =>
    obtain ⟨front, own, letters, others, rfl, rfl⟩ := ih listed
    exact ⟨⟨kind, text⟩ :: front, own, letters, others, rfl, by simp [Nat.add_assoc]⟩

-- Two bodies have their slashes to themselves.
theorem bodiesFrom_ordered (proper : ∀ piece ∈ pieces_, piece.Proper) :
    Span.Ordered offset (offset + (pieces_.flatMap Piece.text).length) ((bodiesFrom offset pieces_).map Span.framed) := by
  fun_induction bodiesFrom offset pieces_ with
  | case1 => exact Nat.le_refl _
  | case2 offset body text later ih =>
    obtain ⟨least, inside⟩ := proper _ List.mem_cons_self body rfl
    have behind := ih fun piece among => proper piece (List.mem_cons_of_mem _ among)
    rw [List.flatMap_cons, List.length_append, ← Nat.add_assoc, List.map_cons]
    dsimp only at inside
    refine ⟨?_, ?_, behind.lower ?_⟩
    all_goals simp only [Span.framed]; omega
  | case3 offset kind text later _ ih =>
    have behind := ih fun piece among => proper piece (List.mem_cons_of_mem _ among)
    rw [List.flatMap_cons, List.length_append, ← Nat.add_assoc]
    exact behind.lower (Nat.le_add_right _ _)

-- Where no body is, pieces are shown as they are.
theorem bodiesFrom_shown (proper : ∀ piece ∈ pieces_, piece.Proper)
    (outside : ∀ span ∈ bodiesFrom offset pieces_, ¬ span.Covers (offset + place)) :
    (pieces_.flatMap Piece.masked)[place]? = (pieces_.flatMap Piece.text)[place]? := by
  induction pieces_ generalizing offset place with
  | nil => rfl
  | cons piece later ih =>
    have own := proper piece List.mem_cons_self
    have behind : ∀ span ∈ bodiesFrom (offset + piece.text.length) later, ¬ span.Covers (offset + place) := by
      intro span listed
      apply outside
      obtain ⟨kind, text⟩ := piece
      cases kind with
      | regex body => exact List.mem_cons_of_mem _ listed
      | _ => exact listed
    simp only [List.flatMap_cons]
    by_cases within : place < piece.text.length
    · rw [List.getElem?_append_left (own.length_masked ▸ within), List.getElem?_append_left within]
      apply own.shown
      intro body regex
      obtain ⟨kind, text⟩ := piece
      cases regex
      have apart := outside _ List.mem_cons_self
      simp only [Span.Covers] at apart
      omega
    · obtain ⟨further, rfl⟩ := Nat.exists_eq_add_of_le (Nat.le_of_not_lt within)
      rw [List.getElem?_append_right (by rw [own.length_masked]; exact Nat.le_add_right _ _),
        own.length_masked,
        List.getElem?_append_right (Nat.le_add_right _ _), Nat.add_sub_cancel_left]
      apply ih (fun piece among => proper piece (List.mem_cons_of_mem _ among))
      rwa [Nat.add_assoc]

theorem mem_bodies (listed : span ∈ bodies source) :
    ∃ literal : RegexLiteral source, span = (literal.start + 1, literal.start + literal.body - 1) := by
  obtain ⟨front, body, text, later, parted, rfl⟩ := mem_bodiesFrom listed
  exact ⟨⟨front, body, text, later, parted⟩, by simp only [RegexLiteral.start, Nat.zero_add]⟩

-- The source reads, where a literal starts, as that literal.
theorem RegexLiteral.reads (literal : RegexLiteral source) :
    regexBody? (source.drop literal.start) = some literal.body := by
  obtain ⟨front, body, text, later, parted⟩ := literal
  have texts := pieces_texts source
  rw [parted, List.flatMap_append] at texts
  cases pieces_split parted with
  | inl hashbang => cases hashbang.2
  | inr reads =>
    have behind := congrArg (List.drop (front.flatMap Piece.text).length) texts
    rw [List.drop_left] at behind
    simp only [start, ← behind]
    exact reads.2.1

theorem body_of_mem (listed : span ∈ bodies source) : Body source span := by
  obtain ⟨literal, rfl⟩ := mem_bodies listed
  obtain ⟨count, size, _, _, shown⟩ := literal.shown
  have reads := literal.reads
  obtain ⟨bounded, _, line⟩ := regexBody?_line reads
  have slashes := regexBody?_slashes (by rwa [List.append_nil (source.drop literal.start)]) bounded
  rw [size] at reads bounded line slashes
  have first : ∀ text : Text, text[literal.start + 1 - 1]? = (text.drop literal.start)[0]? := by
    intro text
    rw [List.getElem?_drop]
    rfl
  have last : ∀ text : Text, text[literal.start + literal.body - 1]? = (text.drop literal.start)[count + 2]? := by
    intro text
    rw [List.getElem?_drop, size]
    rfl
  refine ⟨?_, Nat.succ_pos _, ?_, ⟨?_, ?_⟩, ⟨?_, ?_⟩, ?_⟩
  · dsimp only
    rw [Nat.add_sub_cancel, reads]
    congr 1
    omega
  · dsimp only
    omega
  · rw [first, ← List.getElem?_take_of_lt Nat.one_pos, slashes.1]
    rfl
  · rw [first, shown]
    rfl
  · have behind := congrArg List.head? slashes.2
    rw [List.head?_drop] at behind
    rw [last]
    exact behind
  · rw [last, shown]
    simp
  · intro broken
    apply line
    have cut : source.between (literal.start + 1) (literal.start + literal.body - 1)
        = ((source.drop literal.start).take (count + 2)).drop 1 := by
      rw [Text.between, List.drop_take, List.drop_drop]
      congr 1
      omega
    exact List.take_subset_take_left _ (Nat.le_succ _) (List.mem_of_mem_drop (cut ▸ broken))

theorem bodies_blanked (listed : span ∈ bodies source) (covers : span.Covers place) :
    (mask source)[place]? = some ' ' := by
  obtain ⟨literal, rfl⟩ := mem_bodies listed
  obtain ⟨count, size, _, _, shown⟩ := literal.shown
  obtain ⟨after, before⟩ := covers
  dsimp only at after before
  obtain ⟨inner, rfl⟩ := Nat.exists_eq_add_of_le after
  have inside : inner < count + 1 := by omega
  have blank : (List.replicate (count + 1) ' ')[inner]? = some ' ' := by
    rw [List.getElem?_replicate, if_pos inside]
  rw [Nat.add_assoc, ← List.getElem?_drop, shown, Nat.add_comm 1, List.cons_append, List.getElem?_cons_succ,
    List.append_assoc, List.getElem?_append_left (by rwa [List.length_replicate]), blank]

-- What is shown and holds no space is no part of a blanked body, so the source has it as well.
theorem begins_shown (blanked : List.Forall₂ Blanked shown original) (solid : ' ' ∉ opener)
    (begins : opener <+: shown) : opener <+: original := by
  induction blanked generalizing opener with
  | nil => exact begins
  | @cons shown original _ _ here _ ih =>
    cases opener with
    | nil => exact List.nil_prefix
    | cons c opener =>
      obtain ⟨rfl, later⟩ := List.cons_prefix_cons.mp begins
      rw [List.mem_cons, not_or] at solid
      obtain ⟨visible, others⟩ := solid
      exact List.cons_prefix_cons.mpr ⟨(here.visible (Ne.symm visible)).symm, ih others later⟩

def commentOpeners : List Text := [['/', '/'], ['/', '*']]

-- Only bodies of regex literals are blanked: all of their characters, and nothing else.
theorem mask_frame (source : Text) :
    (mask source).length = source.length ∧
      (∀ place : Nat, (∃ span ∈ bodies source, span.Covers place) → (mask source)[place]? = some ' ') ∧
      (∀ place : Nat, (∀ span ∈ bodies source,
        ¬ span.Covers place) → (mask source)[place]? = source[place]?) ∧
      (∀ place : Nat, (mask source)[place]? = some '\n' ↔ source[place]? = some '\n') ∧
      Span.Ordered 0 source.length ((bodies source).map Span.framed) ∧
      (∀ span ∈ bodies source, Body source span) ∧
      ∀ place, ∀ opener ∈ commentOpeners, opener <+: (mask source).drop place → opener <+: source.drop place := by
  have proper : ∀ piece ∈ pieces source, piece.Proper := fun _ => pieces_proper
  have texts := pieces_texts source
  have blanked := mask_blanked source
  refine ⟨length_mask source, ?_, ?_, ?_, ?_, fun _ => body_of_mem, ?_⟩
  · rintro place ⟨span, listed, covers⟩
    exact bodies_blanked listed covers
  · intro place outside
    rw [← Nat.zero_add place] at outside
    have shown := bodiesFrom_shown proper outside
    rwa [texts] at shown
  · intro place
    have here := List.forall₂_drop place blanked
    rw [← List.head?_drop, ← List.head?_drop]
    generalize (mask source).drop place = shown at here ⊢
    generalize source.drop place = original at here ⊢
    cases here with
    | nil => rfl
    | cons same _ =>
      cases same with
      | inl same => rw [same, List.head?_cons, List.head?_cons]
      | inr blank => simp [blank.1, blank.2]
  · have ordered : Span.Ordered 0 (0 + _) ((bodies source).map Span.framed) := bodiesFrom_ordered proper
    rwa [texts, Nat.zero_add] at ordered
  · intro place opener listed begins
    have solid : ∀ opener ∈ commentOpeners, ' ' ∉ opener := by decide
    exact begins_shown (List.forall₂_drop place blanked) (solid opener listed) begins

-- The class holds a slash, and the brackets behind the literal are no part of it.
example : bodies "x=/[/]\"/g;a[0]/b/c".toList = [(3, 7)] ∧
    mask "x=/[/]\"/g;a[0]/b/c".toList = "x=/    /g;a[0]/b/c".toList := by
  decide +kernel

end Masking
end ModuleBundler
