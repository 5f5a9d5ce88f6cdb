import ModuleBundler.Proofs.Lookback
import ModuleBundler.Proofs.Masking.Division
import ModuleBundler.Proofs.Masking.Nesting
import ModuleBundler.Proofs.Syntax.Alike

/-!
Texts that are written token by token. Where neighbouring tokens keep apart, the masker and the parser
read back the tokens that were written, whatever follows.
-/
namespace ModuleBundler

inductive Segment where
  | gap (blank : Char)
  | word (text : Text)
  -- A property behind its dot.
  | property (name : Text)
  | literal (content : CodePoints)
  | punctuator (text : Text)
  | opener (bracket : Bracket)
  | closer (bracket : Bracket)
  deriving DecidableEq, Repr

namespace Segment

open Masking

def text : Segment → Text
  | gap blank => [blank]
  | word text => text
  | property name => '.' :: name
  | literal content => Literal.writeCodes content
  | punctuator text => text
  | opener bracket => [bracket.opening]
  | closer bracket => [bracket.closing]

def plainPunctuators : List Text :=
  [[';'], [','], ['='], [':'], ['?'], ['&', '&'], ['|', '|'], ['=', '=', '=']]

def Sound : Segment → Prop
  | gap blank => blank = ' ' ∨ blank = '\n'
  | word text => Text.IsName text
  | property name => Text.IsName name
  | punctuator text => text ∈ plainPunctuators
  | literal _ | opener _ | closer _ => True

instance (segment : Segment) : Decidable segment.Sound :=
  match segment with
  | gap blank => inferInstanceAs (Decidable (blank = ' ' ∨ blank = '\n'))
  | word text => inferInstanceAs (Decidable (Text.IsName text))
  | property name => inferInstanceAs (Decidable (Text.IsName name))
  | punctuator text => inferInstanceAs (Decidable (text ∈ plainPunctuators))
  | literal _ | opener _ | closer _ => .isTrue trivial

def pieces : Segment → List Piece
  | gap blank => [⟨.blanks, [blank]⟩]
  | word text => [⟨.word, text⟩]
  | property name => [⟨.mark, ['.']⟩, ⟨.word, name⟩]
  | literal content => [⟨.literal, Literal.writeCodes content⟩]
  | punctuator text => text.map fun c => ⟨.mark, [c]⟩
  | opener bracket => [⟨.mark, [bracket.opening]⟩]
  | closer bracket => [⟨.mark, [bracket.closing]⟩]

-- Characters that may make a punctuator longer.
def lengthening : Text := ['=', '>', '?', '.', '&', '|']

def NotMark (more : Text) : Prop := ∀ c, more.head? = some c → c ∉ lengthening

-- What may follow.
def apart : Segment → Text → Prop
  | gap _ => NotBlank
  | word _ | property _ => NotName
  | punctuator _ => NotMark
  | literal _ | opener _ | closer _ => Anything

def meets : Segment → Segment → Bool
  | gap _, gap _ => false
  | word _, word _ | property _, word _ => false
  | punctuator _, punctuator _ | punctuator _, property _ => false
  | _, _ => true

def fits : List Segment → Bool
  | first :: second :: rest => meets first second && fits (second :: rest)
  | _ => true

-- What may follow the last of some segments.
def lastApart : List Segment → Text → Prop
  | [] => Anything
  | [last] => last.apart
  | _ :: rest => lastApart rest

variable {segment next : Segment} {segments : List Segment}

theorem divides_marks (start : Reading) (plain : ∀ c ∈ marks, c ∈ plainMarks) :
    Divides start marks (marks.map fun c => ⟨.mark, [c]⟩) Anything := by
  induction marks generalizing start with
  | nil => exact ⟨rfl, fun _ _ => rfl⟩
  | cons c marks ih =>
    have first := divides_mark start (plain c List.mem_cons_self)
    exact first.append (ih _ fun d member => plain d (List.mem_cons_of_mem _ member)) fun _ _ => trivial

theorem divides_segment (start : Reading) (sound : segment.Sound) :
    Divides start segment.text segment.pieces segment.apart := by
  have weaker : ∀ {text pieces apart}, Divides start text pieces Anything →
      Divides start text pieces apart :=
    fun divides => ⟨divides.texts, fun more _ => divides.reads more trivial⟩
  cases segment with
  | gap blank => exact divides_blank start sound
  | word text => exact divides_word start (spelled_of_isName sound)
  | property name =>
    have dot := divides_mark (c := '.') start (by decide)
    exact dot.append (divides_word _ (spelled_of_isName sound)) fun _ _ => trivial
  | literal content => exact divides_literal start content
  | punctuator text =>
    have marks : ∀ text ∈ plainPunctuators, ∀ c ∈ text, c ∈ plainMarks := by decide
    exact weaker (divides_marks start (marks text sound))
  | opener bracket => exact divides_mark start (by cases bracket <;> decide)
  | closer bracket => exact divides_mark start (by cases bracket <;> decide)

-- What a segment begins with.
theorem text_head (sound : segment.Sound) :
    ∃ c rest, segment.text = c :: rest ∧
      ((∃ blank, segment = .gap blank) ∨ Text.isBlank c = false) ∧
      ((∃ text, segment = .word text) ∨ Text.isNameChar c = false) ∧
      ((∃ text, segment = .punctuator text) ∨ (∃ name, segment = .property name) ∨
        c ∉ lengthening) := by
  cases segment with
  | gap blank =>
    rcases sound with rfl | rfl
    all_goals exact ⟨_, [], rfl, .inl ⟨_, rfl⟩, .inr (by decide), .inr (.inr (by decide))⟩
  | word text =>
    have spelled := spelled_of_isName sound
    obtain ⟨c, rest, rfl⟩ := List.exists_cons_of_ne_nil spelled.1
    have named := spelled.2 c List.mem_cons_self
    refine ⟨c, rest, rfl, .inr (spelled.visible c List.mem_cons_self), .inl ⟨_, rfl⟩, .inr (.inr ?_)⟩
    have marks : ∀ mark ∈ lengthening, Text.isNameChar mark = false := by decide
    intro member
    rw [marks c member] at named
    cases named
  | property name => exact ⟨'.', name, rfl, .inr (by decide), .inr (by decide), .inr (.inl ⟨_, rfl⟩)⟩
  | literal content =>
    obtain ⟨inner, parts, _⟩ := Literal.writeCodes_parts content
    exact ⟨'"', _, parts, .inr (by decide), .inr (by decide), .inr (.inr (by decide))⟩
  | punctuator text =>
    have heads : ∀ text ∈ plainPunctuators, text ≠ [] ∧ ∀ c ∈ text,
        Text.isBlank c = false ∧ Text.isNameChar c = false := by decide
    obtain ⟨nonempty, marks⟩ := heads text sound
    obtain ⟨c, rest, rfl⟩ := List.exists_cons_of_ne_nil nonempty
    have facts := marks c List.mem_cons_self
    exact ⟨c, rest, rfl, .inr facts.1, .inr facts.2, .inl ⟨_, rfl⟩⟩
  | opener bracket =>
    cases bracket <;> exact ⟨_, [], rfl, .inr (by decide), .inr (by decide), .inr (.inr (by decide))⟩
  | closer bracket =>
    cases bracket <;> exact ⟨_, [], rfl, .inr (by decide), .inr (by decide), .inr (.inr (by decide))⟩

theorem apart_of_meets (sound : next.Sound) (meets : meets segment next = true) (more : Text) :
    segment.apart (next.text ++ more) := by
  obtain ⟨c, rest, parts, blank, named, mark⟩ := text_head sound
  rw [parts]
  cases segment with
  | gap =>
    rintro d same
    cases same
    rcases blank with ⟨_, rfl⟩ | visible
    · cases meets
    · exact visible
  | word =>
    rintro d same
    cases same
    rcases named with ⟨_, rfl⟩ | unnamed
    · cases meets
    · exact unnamed
  | property =>
    rintro d same
    cases same
    rcases named with ⟨_, rfl⟩ | unnamed
    · cases meets
    · exact unnamed
  | punctuator =>
    rintro d same
    cases same
    rcases mark with ⟨_, rfl⟩ | ⟨_, rfl⟩ | other
    · cases meets
    · cases meets
    · exact other
  | literal | opener | closer => trivial

theorem divides_segments (start : Reading) (sound : ∀ segment ∈ segments, segment.Sound)
    (fitting : fits segments = true) :
    Divides start (segments.flatMap text) (segments.flatMap pieces) (lastApart segments) := by
  induction segments generalizing start with
  | nil => exact ⟨rfl, fun _ _ => rfl⟩
  | cons first rest ih =>
    have here := divides_segment start (sound first List.mem_cons_self)
    cases rest with
    | nil => simpa [lastApart] using here
    | cons second rest =>
      simp only [fits, Bool.and_eq_true] at fitting
      have later := ih (readThrough start first.pieces)
        (fun segment member => sound segment (List.mem_cons_of_mem _ member)) fitting.2
      rw [List.flatMap_cons, List.flatMap_cons]
      refine here.append later fun more _ => ?_
      rw [List.append_assoc]
      exact apart_of_meets (sound second (by simp)) fitting.1 _

theorem fits_append (front : fits segments = true) (back : fits later = true)
    (meet : ∀ last ∈ segments.getLast?, ∀ first ∈ later.head?, meets last first = true) :
    fits (segments ++ later) = true := by
  induction segments with
  | nil => exact back
  | cons first rest ih =>
    cases rest with
    | nil =>
      cases later with
      | nil => rfl
      | cons second later =>
        simp only [List.cons_append, List.nil_append, fits, Bool.and_eq_true]
        exact ⟨meet first rfl second rfl, back⟩
    | cons second rest =>
      simp only [List.cons_append, fits, Bool.and_eq_true] at front ih ⊢
      refine ⟨front.1, ih front.2 fun last found => meet last ?_⟩
      rwa [List.getLast?_cons_cons]

theorem lastApart_append (segments : List Segment) (last : Segment) :
    lastApart (segments ++ [last]) = last.apart := by
  induction segments with
  | nil => rfl
  | cons first rest ih =>
    cases rest with
    | nil => rfl
    | cons second rest => exact ih

theorem lastApart_of_getLast? (last : segments.getLast? = some segment) :
    lastApart segments = segment.apart := by
  obtain ⟨front, rfl⟩ := List.getLast?_eq_some_iff.mp last
  exact lastApart_append front segment

-- None of the pieces is a regex literal.
theorem masked_pieces (segments : List Segment) :
    (segments.flatMap pieces).flatMap Piece.masked = (segments.flatMap pieces).flatMap Piece.text := by
  induction segments with
  | nil => rfl
  | cons segment segments ih =>
    have here : segment.pieces.flatMap Piece.masked = segment.pieces.flatMap Piece.text := by
      cases segment with
      | punctuator text => simp [pieces, List.flatMap_map, Piece.masked]
      | _ => rfl
    rw [List.flatMap_cons, List.flatMap_append, List.flatMap_append, here, ih]

end Segment
end ModuleBundler
