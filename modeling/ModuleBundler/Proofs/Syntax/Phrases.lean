import ModuleBundler.Proofs.Syntax.Written

/-!
Phrases of written code, and complete lines of it. The parser and the masker pass over such lines, and
behind them they read a text that begins on a new line as they would read it alone.
-/
namespace ModuleBundler

namespace Masking

variable {reading : Reading}

theorem after_afresh {text : Text} (fresh : reading.preceding = .start) (nonempty : text ≠ []) :
    Reading.after { reading with preceding := .mark ';' } .mark text = reading.after .mark text := by
  unfold Reading.after
  dsimp only
  split
  · rw [fresh]
    rfl
  · rfl
  · rfl
  · exact absurd rfl nonempty

-- Behind a semicolon a text is divided as at the start.
theorem piecesFrom_afresh (fresh : reading.preceding = .start) (source : Text) :
    piecesFrom { reading with preceding := .mark ';' } source = piecesFrom reading source := by
  fun_induction piecesFrom reading source with
  | case1 => rw [piecesFrom]
  | case2 reading c rest kind more read text ih =>
    have same : nextPiece (Reading.mk (.mark ';') reading.conditions).preceding (c :: rest) = (kind,
      more) := by
      rw [← read, fresh]
      rfl
    rw [piecesFrom_cons same]
    cases kind with
    | hashbang | blanks | comment => exact congrArg _ (ih fresh)
    | literal | word | regex => rfl
    | mark => rw [after_afresh fresh (List.cons_ne_nil _ _)]

end Masking

namespace Segment

-- A text that is written in these segments, with the words in it that may begin a declaration.
structure Phrase (segments : List Segment) (whole : Text) (words : List Text) : Prop where
  texts : segments.flatMap Segment.text = whole
  sound : ∀ segment ∈ segments, segment.Sound
  free : (∀ word ∈ words, word ∉ Lexer.reserved) → ∀ segment ∈ segments, segment.Free

variable {segments later : List Segment} {words others : List Text} {whole rest : Text}

-- A phrase of the program's own words is checked in one evaluation.
theorem Phrase.fixed (checked : segments.flatMap Segment.text = whole ∧
    ∀ segment ∈ segments, segment.Sound ∧ segment.Free) : Phrase segments whole [] :=
  ⟨checked.1, fun segment member => (checked.2 segment member).1,
    fun _ segment member => (checked.2 segment member).2⟩

theorem Phrase.append (first : Phrase segments whole words) (second : Phrase later rest others) :
    Phrase (segments ++ later) (whole ++ rest) (words ++ others) where
  texts := by rw [List.flatMap_append, first.texts, second.texts]
  sound := List.forall_mem_append.mpr ⟨first.sound, second.sound⟩
  free := by
    intro allowed
    obtain ⟨left, right⟩ := List.forall_mem_append.mp allowed
    exact List.forall_mem_append.mpr ⟨first.free left, second.free right⟩

-- A text that the program puts together from two literals is written phrase by phrase.
theorem Phrase.join {text more : String} (first : Phrase segments text.toList words)
    (second : Phrase later more.toList others) :
    Phrase (segments ++ later) (text ++ more).toList (words ++ others) := by
  rw [String.toList_append]
  exact first.append second

theorem Phrase.weaken (phrase : Phrase segments whole words) (subset : words ⊆ others) :
    Phrase segments whole others :=
  ⟨phrase.texts, phrase.sound, fun allowed => phrase.free fun word member => allowed word (subset member)⟩

theorem phrase_word (named : Text.IsName whole) : Phrase [.word whole] whole [whole] :=
  ⟨by simp [text], by simpa [Sound] using named, by simp [Free]⟩

theorem phrase_literal (content : CodePoints) :
    Phrase [.literal content] (Literal.writeCodes content) [] :=
  ⟨by simp [text], by simp [Sound], by simp [Free]⟩

-- The words among some segments.
def spelled (segments : List Segment) : List Text :=
  segments.filterMap fun
    | .word text => some text
    | _ => none

theorem spelled_append (segments later : List Segment) :
    spelled (segments ++ later) = spelled segments ++ spelled later :=
  List.filterMap_append

-- A phrase that leaves no bracket open and that nothing behind it can make longer.
structure Written (segments : List Segment) (whole : Text) (words : List Text) : Prop
    extends Phrase segments whole words where
  fitting : fits segments = true
  closed : walk [] segments = some []
  begins : segments.head?.any (meets (.gap '\n')) = true
  ends : segments.getLast? = some (.punctuator [';'])

theorem Written.apart (written : Written segments whole words) (line : more.head? = some '\n') :
    lastApart segments more := by
  rw [lastApart_of_getLast? written.ends]
  intro c same
  cases line.symm.trans same
  decide

theorem Written.notBlank (written : Written segments whole words) (more : Text) :
    Masking.NotBlank (whole ++ more) := by
  have begins := written.begins
  obtain ⟨first, found, meets⟩ := (Option.any_eq_true _ _).mp begins
  obtain ⟨rest, rfl⟩ := List.head?_eq_some_iff.mp found
  rw [← written.texts, List.flatMap_cons, List.append_assoc]
  exact apart_of_meets (written.sound first List.mem_cons_self) meets _

-- One text written behind another on a new line.
theorem Written.lines (first : Written segments whole words) (second : Written later rest others) :
    Written (segments ++ .gap '\n' :: later) (whole ++ '\n' :: rest) (words ++ others) := by
  have newline : Phrase [.gap '\n'] ['\n'] [] := ⟨rfl, by decide, by simp [Free]⟩
  have phrase := first.toPhrase.append (newline.append second.toPhrase)
  obtain ⟨front, parts⟩ := List.getLast?_eq_some_iff.mp first.ends
  obtain ⟨next, found, meets⟩ := (Option.any_eq_true _ _).mp second.begins
  obtain ⟨behind, rfl⟩ := List.head?_eq_some_iff.mp found
  refine ⟨phrase, ?_, ?_, ?_, ?_⟩
  · refine fits_append first.fitting ?_ ?_
    · rw [fits, meets, second.fitting]
      rfl
    · rw [first.ends]
      rintro last same gap same'
      cases same
      cases same'
      rfl
  · rw [walk_append, first.closed]
    exact second.closed
  · rw [List.head?_append]
    obtain ⟨head, found, _⟩ := (Option.any_eq_true _ _).mp first.begins
    have begins := first.begins
    rw [found] at begins ⊢
    exact begins
  · rw [List.getLast?_append, List.getLast?_cons_cons, second.ends]
    rfl

theorem Reaches.written (reaches : Reaches [] before (whole ++ more) statement)
    (written : Written segments whole words) (allowed : ∀ word ∈ words, word ∉ Lexer.reserved)
    (line : more.head? = some '\n') : ∃ passed, Reaches [] passed more statement := by
  rw [← written.texts] at reaches
  exact ⟨_, reaches.run written.closed written.sound (written.free allowed) written.fitting
    (written.apart line)⟩

open Masking in
theorem Written.readThrough (written : Written segments whole words) :
    Masking.readThrough {} (segments.flatMap pieces) = ⟨.mark ';', []⟩ := by
  have nested := nest_walk written.closed written.sound
  have level : (Masking.readThrough {} (segments.flatMap pieces)).conditions.length = 0 :=
    nest_conditions nested rfl
  obtain ⟨front, rfl⟩ := List.getLast?_eq_some_iff.mp written.ends
  have none := List.length_eq_zero_iff.mp level
  rw [List.flatMap_append, readThrough_append] at none ⊢
  exact congrArg (Reading.mk (.mark ';')) none

-- The masker shows a written text as it is, and what follows as it would show it alone.
theorem Written.mask (written : Written segments whole words) (plain : whole.head? ≠ some '#')
    (more : Text) :
    Masking.mask (whole ++ '\n' :: more) = whole ++ Masking.mask ('\n' :: more) := by
  have divides := divides_segments {} written.sound written.fitting
  have hashbang : Lexeme.hashbang? (whole ++ '\n' :: more) = none := by
    cases whole with
    | nil => rfl
    | cons c rest => exact Lexeme.hashbang?.eq_2 _ fun _ same => absurd (congrArg List.head? same) plain
  have read := divides.reads ('\n' :: more) (written.apart rfl)
  have afresh := @Masking.piecesFrom_afresh {} rfl ('\n' :: more)
  rw [written.readThrough, afresh, written.texts] at read
  have alone : Lexeme.hashbang? ('\n' :: more) = none := rfl
  rw [Masking.mask, Masking.mask, Masking.pieces, Masking.pieces, hashbang, alone]
  dsimp only
  rw [read, List.flatMap_append, masked_pieces, divides.texts, written.texts]

end Segment
end ModuleBundler
