import ModuleBundler.Proofs.Masking.LineEnds
import ModuleBundler.Proofs.Masking.Division

/-!
What a word behind a dot decides. The division of a source in front of the dot does not depend on what follows
it, and from the word on two divisions are the same as long as both words are operators, or conditions, alike.
-/
namespace ModuleBundler

namespace Lexeme

variable {text : Text} {low : Nat} {α β : Type} {size : α → Nat} {outcome other : Text → Option α}

-- What is read at the beginning of a text, by what follows the text: always the same, or it reaches this far.
def Settles (size : α → Nat) (low : Nat) (outcome : Text → Option α) : Prop :=
  ∃ within, ∀ more, outcome more = within ∨ ∃ found, low ≤ size found ∧ outcome more = some found

theorem settles_same (same : ∀ more, outcome more = outcome []) : Settles size low outcome :=
  ⟨outcome [], fun more => .inl (same more)⟩

theorem settles_beyond (beyond : ∀ more found, outcome more = some found → low ≤ size found) :
    Settles size low outcome := by
  refine ⟨none, fun more => ?_⟩
  cases read : outcome more with
  | none => exact .inl rfl
  | some found => exact .inr ⟨found, beyond more found read, rfl⟩

theorem Settles.congr (settles : Settles size low outcome) (same : ∀ more, other more = outcome more) :
    Settles size low other := by
  rwa [show other = outcome from funext same]

theorem Settles.map (settles : Settles size low outcome) {step : α → β} {size' : β → Nat} {more : Nat}
    (grows : ∀ found, size found + more ≤ size' (step found)) :
    Settles size' (low + more) fun behind => (outcome behind).map step := by
  obtain ⟨within, each⟩ := settles
  refine ⟨within.map step, fun behind => ?_⟩
  dsimp only
  rcases each behind with same | ⟨found, far, same⟩
  · exact .inl (by rw [same])
  · exact .inr ⟨step found, Nat.le_trans (Nat.add_le_add_right far more) (grows found), by rw [same]; rfl⟩

theorem Settles.add {reader : Text → Option Nat} (settles : Settles id low reader) (count : Nat) :
    Settles id (low + count) fun more => (reader more).map (· + count) :=
  settles.map fun size => Nat.le_refl (size + count)

theorem Settles.or (first : Settles size low outcome) (second : Settles size low other) :
    Settles size low fun more => (outcome more).or (other more) := by
  obtain ⟨within, each⟩ := first
  obtain ⟨within', each'⟩ := second
  refine ⟨within.or within', fun more => ?_⟩
  dsimp only
  rcases each more with same | ⟨found, far, same⟩
  · rw [same]
    cases within with
    | some found => exact .inl rfl
    | none => exact each' more
  · exact .inr ⟨found, far, by rw [same]; rfl⟩

-- A text that is over or ends with a dot.
def Dots (text : Text) : Prop := text = [] ∨ text.getLast? = some '.'

theorem Dots.tail (dots : Dots (c :: text)) : Dots text := by
  cases text with
  | nil => exact .inl rfl
  | cons d text =>
    rcases dots with ended | last
    · cases ended
    · exact .inr (by rwa [List.getLast?_cons_cons] at last)

theorem Dots.whole (dots : Dots text) (more : Text) : Whole text more := by
  have last : ∀ c, c ≠ '.' → text.getLast? ≠ some c := by
    intro c other same
    rcases dots with rfl | dot
    · cases same
    · exact other (Option.some.inj (same.symm.trans dot))
  exact ⟨last _ (by decide), fun same => absurd same (last _ (by decide)),
    fun same => absurd same (last _ (by decide))⟩

-- A reader that goes on behind the text reaches beyond it.
theorem settles_open {reader : Text → Option Nat} (rest : Text → Option Nat)
    (onward : ∀ more, reader more = (rest more).map (· + low)) : Settles id low reader := by
  refine settles_beyond fun more found read => ?_
  rw [onward] at read
  obtain ⟨size, _, rfl⟩ := Option.map_eq_some_iff.mp read
  exact Nat.le_add_left low size

theorem quotedRest?_settles (dots : Dots text) :
    Settles id text.length fun more => quotedRest? quote (text ++ more) := by
  cases isOpen : quotedOpen quote text with
  | false =>
    refine settles_same fun more => ?_
    rw [quotedRest?_append more isOpen, quotedRest?_append [] isOpen]
  | true => exact settles_open _ fun more => quotedRest?_open more isOpen (dots.whole more)

theorem templateRest?_settles (dots : Dots text) :
    Settles id text.length fun more => templateRest? part (text ++ more) := by
  cases isOpen : templateEnd? part text with
  | none =>
    refine settles_same fun more => ?_
    rw [templateRest?_append more isOpen, templateRest?_append [] isOpen]
  | some ending => exact settles_open _ fun more => templateRest?_open more isOpen (dots.whole more)

theorem blockCommentRest?_settles (dots : Dots text) :
    Settles id text.length fun more => blockCommentRest? (text ++ more) := by
  cases isOpen : blockCommentRest? text with
  | some size =>
    refine settles_same fun more => ?_
    rw [blockCommentRest?_append more isOpen, blockCommentRest?_append [] isOpen]
  | none => exact settles_open _ fun more => blockCommentRest?_open more isOpen (dots.whole more)

theorem regexRest?_settles (dots : Dots text) :
    Settles id text.length fun more => regexRest? inClass (text ++ more) := by
  fun_induction regexRest? inClass text with
  | case1 inClass => exact settles_open (regexRest? inClass) fun more => by simp
  | case2 => exact absurd rfl (dots.whole []).escape
  | case3 | case4 => exact settles_same fun more => by simp [regexRest?]
  | case5 inClass c rest unbroken ih =>
    refine ((ih dots.tail.tail).add 2).congr fun more => ?_
    rw [List.cons_append, List.cons_append, regexRest?.eq_5 _ _ _ unbroken]
  | case6 c rest single unbroken _ pair ih =>
    refine ((ih dots.tail).add 1).congr fun more => ?_
    rw [List.cons_append, regexRest?_class_cons (not_backslash single pair) unbroken]
  | case7 => exact settles_same fun more => by simp [regexRest?]
  | case8 c rest single unbroken _ pair slash ih =>
    refine ((ih dots.tail).add 1).congr fun more => ?_
    rw [List.cons_append, regexRest?_cons (not_backslash single pair) unbroken slash]

theorem le_run {within : Char → Bool} (all : ∀ c ∈ text, within c = true) (more : Text) :
    text.length ≤ run within (text ++ more) := by
  induction text with
  | nil => exact Nat.zero_le _
  | cons c rest ih =>
    obtain ⟨here, later⟩ := List.forall_mem_cons.mp all
    rw [List.cons_append, run, if_pos here]
    exact Nat.succ_le_succ (ih later)

theorem line_settles (text : Text) : Settles id text.length fun more => some (run (· != '\n') (text ++ more)) := by
  by_cases broken : '\n' ∈ text
  · refine settles_same fun more => ?_
    rw [run_append _ more broken (by decide), run_append _ [] broken (by decide)]
  · have unbroken : ∀ c ∈ text, (c != '\n') = true := by
      intro c member
      rw [bne_iff_ne]
      rintro rfl
      exact broken member
    refine settles_beyond fun more found read => ?_
    cases read
    exact le_run unbroken more

-- A reader that begins with two marks and goes on behind them.
theorem settles_marks {reader : Text → Option Nat} (inner : Text → Option Nat) {m n : Char}
    (reads : ∀ rest, reader (m :: n :: rest) = (inner rest).map (· + 2))
    (other : ∀ text, (∀ rest, text ≠ m :: n :: rest) → reader text = none) (dot : m ≠ '.') (dots : Dots text)
    (nonempty : text ≠ [])
    (settles : ∀ rest, Dots rest → Settles id rest.length fun more => inner (rest ++ more)) :
    Settles id text.length fun more => reader (text ++ more) := by
  by_cases marked : ∃ rest, text = m :: n :: rest
  · obtain ⟨rest, rfl⟩ := marked
    refine ((settles rest dots.tail.tail).add 2).congr fun more => ?_
    rw [List.cons_append, List.cons_append, reads]
  · have unmarked : ∀ more rest, text ++ more ≠ m :: n :: rest := by
      intro more rest same
      obtain ⟨c, tail, rfl⟩ := List.exists_cons_of_ne_nil nonempty
      cases tail with
      | nil =>
        rcases dots with ended | last
        · cases ended
        · cases last
          exact dot (List.cons.inj same).1.symm
      | cons d tail =>
        cases same
        exact marked ⟨tail, rfl⟩
    refine settles_same fun more => ?_
    rw [other _ (unmarked more), other _ (unmarked [])]

theorem hashbang?_settles (dots : Dots text) (nonempty : text ≠ []) :
    Settles id text.length fun more => hashbang? (text ++ more) :=
  settles_marks (fun rest => some (run (· != '\n') rest)) (fun _ => rfl) (fun _ => hashbang?.eq_2 _) (by decide) dots nonempty
    fun rest _ => line_settles rest

theorem comment?_settles (dots : Dots text) (nonempty : text ≠ []) :
    Settles id text.length fun more => comment? (text ++ more) :=
  (settles_marks (fun rest => some (run (· != '\n') rest)) (fun _ => rfl) (fun _ => lineComment?.eq_2 _) (by decide) dots nonempty
    fun rest _ => line_settles rest).or
  (settles_marks blockCommentRest? (fun _ => rfl) (fun _ => blockComment?.eq_2 _) (by decide) dots nonempty
    fun _ dots => blockCommentRest?_settles dots)

theorem string?_settles (dots : Dots text) (nonempty : text ≠ []) :
    Settles id text.length fun more => string? (text ++ more) := by
  obtain ⟨c, rest, rfl⟩ := List.exists_cons_of_ne_nil nonempty
  by_cases double : c = '"'
  · subst double
    exact (quotedRest?_settles dots.tail).add 1
  · by_cases single : c = '\''
    · subst single
      exact (quotedRest?_settles dots.tail).add 1
    · have none : ∀ more, string? (c :: rest ++ more) = none := fun more =>
        string?.eq_3 _ (by simp [double]) (by simp [single])
      exact settles_same fun more => (none more).trans (none []).symm

theorem template?_settles (dots : Dots text) (nonempty : text ≠ []) :
    Settles id text.length fun more => template? (text ++ more) := by
  obtain ⟨c, rest, rfl⟩ := List.exists_cons_of_ne_nil nonempty
  by_cases quote : c = '\x60'
  · subst quote
    exact (templateRest?_settles dots.tail).add 1
  · have none : ∀ more, template? (c :: rest ++ more) = none := fun more => template?.eq_2 _ (by simp [quote])
    exact settles_same fun more => (none more).trans (none []).symm

theorem regexBody?_settles (dots : Dots text) (nonempty : text ≠ []) :
    Settles id text.length fun more => regexBody? (text ++ more) := by
  obtain ⟨c, rest, rfl⟩ := List.exists_cons_of_ne_nil nonempty
  by_cases slash : c = '/'
  · subst slash
    cases rest with
    | nil =>
      rcases dots with ended | last
      · cases ended
      · cases last
    | cons d rest =>
      by_cases comment : (d == '/' || d == '*') = true
      · have none : ∀ more, regexBody? ('/' :: d :: rest ++ more) = none := by
          intro more
          rw [List.cons_append, List.cons_append, regexBody?, if_pos comment]
        exact settles_same fun more => (none more).trans (none []).symm
      · have inner : Settles id (d :: rest).length fun more => regexRest? false (d :: rest ++ more) :=
          regexRest?_settles dots.tail
        refine (inner.add 1).congr fun more => ?_
        rw [List.cons_append, List.cons_append, regexBody?, if_neg comment]
  · have none : ∀ more, regexBody? (c :: rest ++ more) = none := fun more => regexBody?.eq_2 _ (by simp [slash])
    exact settles_same fun more => (none more).trans (none []).symm

-- A run of characters that the dot is none of ends in front of it.
theorem run_dot {within : Char → Bool} (outside : within '.' = false) (last : text.getLast? = some '.')
    (more : Text) : run within (text ++ more) = run within text :=
  run_append within more (List.mem_of_getLast? last) outside

theorem run1?_settles {within : Char → Bool} (outside : within '.' = false) (last : text.getLast? = some '.') :
    Settles id text.length fun more => run1? within (text ++ more) := by
  refine settles_same fun more => ?_
  rw [run1?, run1?, run_dot outside last, run_dot outside last]

end Lexeme

namespace Masking
open Lexeme

variable {text : Text}

-- What a piece of some size covers.
def reach (found : PieceKind × Nat) : Nat := found.2 + 1

theorem plain_settles {reader : Text → Option Nat} (settles : Settles id low reader) (kind : PieceKind) :
    Settles reach low fun more => (reader more).map fun size => (kind, size - 1) := by
  have covers : ∀ size, id size + 0 ≤ reach (kind, size - 1) := by
    intro size
    simp only [id, reach]
    omega
  exact settles.map covers

def regexPiece? (text : Text) : Option (PieceKind × Nat) :=
  (regexBody? text).map fun body => (.regex body, body + run Char.isAlpha (text.drop body) - 1)

theorem regexPiece?_settles (last : text.getLast? = some '.') (nonempty : text ≠ []) :
    Settles reach text.length fun more => regexPiece? (text ++ more) := by
  obtain ⟨within, each⟩ := regexBody?_settles (.inr last) nonempty
  have covers : ∀ body flags, text.length ≤ body → text.length ≤ reach (PieceKind.regex body,
    body + flags - 1) := by
    intro body flags far
    simp only [reach]
    omega
  refine ⟨within.map fun body => (.regex body, body + run Char.isAlpha (text.drop body) - 1), fun more => ?_⟩
  dsimp only at each ⊢
  unfold regexPiece?
  rcases each more with same | ⟨body, far, same⟩
  · rw [same]
    cases within with
    | none => exact .inl rfl
    | some body =>
      rcases Nat.lt_or_ge body text.length with inside | far
      · -- The flags end in front of the dot.
        have ends : (text.drop body).getLast? = some '.' := by
          rw [List.getLast?_drop, if_neg (Nat.not_le.mpr inside), last]
        refine .inl ?_
        rw [Option.map_some, Option.map_some, List.drop_append_of_le_length (Nat.le_of_lt inside),
          run_dot (show '.'.isAlpha = false from rfl) ends]
      · exact .inr ⟨_, covers body _ far, rfl⟩
  · rw [same]
    exact .inr ⟨_, covers body _ far, rfl⟩

theorem nextPiece_eq (preceding : Preceding) (text : Text) : nextPiece preceding text
    = ((if preceding.expectsOperand then regexPiece? text else none).or
        (((blanks? text).map fun size => (.blanks, size - 1)).or
        (((comment? text).map fun size => (.comment, size - 1)).or
        (((string? text).map fun size => (.literal, size - 1)).or
        (((template? text).map fun size => (.literal, size - 1)).or
        ((run1? Text.isNameChar text).map fun size => (.word, size - 1))))))).getD (.mark, 0) := by
  simp only [nextPiece, regexPiece?, Option.orElse_eq_orElse, Option.orElse_eq_or]

-- The piece that is read in front of a dot is the same whatever follows the dot, or it reaches as far as the dot.
theorem nextPiece_settles (preceding : Preceding) (last : text.getLast? = some '.') (nonempty : text ≠ []) :
    ∃ piece, ∀ more, nextPiece preceding (text ++ more) = piece ∨
      text.length ≤ reach (nextPiece preceding (text ++ more)) := by
  have regex : Settles reach text.length fun more =>
      if preceding.expectsOperand then regexPiece? (text ++ more) else none := by
    cases preceding.expectsOperand with
    | true => exact regexPiece?_settles last nonempty
    | false => exact settles_same fun more => rfl
  have blanks : Settles reach text.length fun more =>
      (blanks? (text ++ more)).map fun size => (PieceKind.blanks, size - 1) :=
    plain_settles (run1?_settles rfl last) .blanks
  have comment := plain_settles (comment?_settles (.inr last) nonempty) .comment
  have string := plain_settles (string?_settles (.inr last) nonempty) .literal
  have template := plain_settles (template?_settles (.inr last) nonempty) .literal
  have word := plain_settles (run1?_settles (show Text.isNameChar '.' = false by decide) last) .word
  obtain ⟨within, each⟩ := regex.or (blanks.or (comment.or (string.or (template.or word))))
  refine ⟨within.getD (.mark, 0), fun more => ?_⟩
  rw [nextPiece_eq]
  dsimp only at each
  rcases each more with same | ⟨found, far, same⟩
  · exact .inl (by rw [same])
  · exact .inr (by rw [same]; exact far)

variable {reading : Reading} {front later : List Piece}

def dot : Piece := ⟨.mark, ['.']⟩

theorem front_empty (nonempty : ∀ piece ∈ front,
    piece.text ≠ []) (parts : front.flatMap Piece.text ++ ['.'] = ['.']) :
    front = [] := by
  cases front with
  | nil => rfl
  | cons piece front =>
    have sizes := congrArg List.length parts
    have positive := List.length_pos_iff.mpr (nonempty piece List.mem_cons_self)
    simp only [List.flatMap_cons, List.length_append, List.length_singleton] at sizes
    omega

theorem piecesFrom_first {piece : Piece} {behind : Text}
    (division : piecesFrom reading (piece.text ++ behind) = piece :: later) :
    nextPiece reading.preceding (piece.text ++ behind) = (piece.kind, piece.text.length - 1) ∧
      piecesFrom (reading.after piece.kind piece.text) behind = later := by
  obtain ⟨c, rest, more, whole, read, parts, onward⟩ := piecesFrom_eq_cons division
  have size : piece.text.length = more + 1 := by
    rw [parts, List.length_cons, List.length_take, Nat.min_eq_left (nextPiece_le read)]
  have left : behind = rest.drop more := by
    have cut := congrArg (List.drop piece.text.length) whole
    rwa [List.drop_left, size, List.drop_succ_cons] at cut
  exact ⟨by rw [whole, read, size, Nat.add_sub_cancel], left ▸ onward⟩

-- The pieces in front of a dot of its own do not depend on what follows the dot.
theorem piecesFrom_front {before rest more : Text} (dotted : before = front.flatMap Piece.text ++ ['.'])
    (division : piecesFrom reading (before ++ rest) = front ++ dot :: later)
    (dotted' : before = front'.flatMap Piece.text ++ ['.'])
    (division' : piecesFrom reading (before ++ more) = front' ++ dot :: later') : front' = front := by
  have nonempty : ∀ piece ∈ front, piece.text ≠ [] := fun piece among =>
    piecesFrom_nonempty reading _ piece (division ▸ List.mem_append_left _ among)
  have nonempty' : ∀ piece ∈ front', piece.text ≠ [] := fun piece among =>
    piecesFrom_nonempty reading _ piece (division' ▸ List.mem_append_left _ among)
  induction front generalizing reading before front' with
  | nil =>
    rw [dotted] at dotted'
    exact front_empty nonempty' dotted'.symm
  | cons piece front ih =>
    cases front' with
    | nil =>
      rw [dotted'] at dotted
      cases front_empty nonempty dotted.symm
    | cons piece' front' =>
      have last : before.getLast? = some '.' := by rw [dotted, List.getLast?_concat]
      have filled : before ≠ [] := by
        rintro rfl
        cases last
      obtain ⟨read, each⟩ := nextPiece_settles reading.preceding last filled
      obtain ⟨here, others⟩ := List.forall_mem_cons.mp nonempty
      obtain ⟨here', others'⟩ := List.forall_mem_cons.mp nonempty'
      rw [List.flatMap_cons, List.append_assoc] at dotted dotted'
      -- Neither first piece reaches the dot, so both are the one that is read whatever follows.
      have inside : ∀ (piece : Piece) (tail behind : Text) (pieces : List Piece), piece.text ≠ [] →
          before = piece.text ++ (tail ++ ['.']) → piecesFrom reading (before ++ behind) = piece :: pieces →
          (piece.kind, piece.text.length - 1) = read ∧
            piecesFrom (reading.after piece.kind piece.text) (tail ++ ['.'] ++ behind) = pieces := by
        intro piece tail behind pieces some_ parts division
        rw [parts, List.append_assoc] at division
        obtain ⟨next, onward⟩ := piecesFrom_first division
        refine ⟨?_, onward⟩
        rw [← List.append_assoc, ← parts] at next
        have positive := List.length_pos_iff.mpr some_
        rcases each behind with same | far
        · rw [← next, same]
        · rw [next, parts] at far
          simp only [reach, List.length_append, List.length_singleton] at far
          omega
      obtain ⟨same, onward⟩ := inside piece _ rest _ here dotted division
      obtain ⟨same', onward'⟩ := inside piece' _ more _ here' dotted' division'
      obtain ⟨kinds, sizes⟩ := Prod.mk.inj (same'.trans same.symm)
      have positive := List.length_pos_iff.mpr here
      have positive' := List.length_pos_iff.mpr here'
      obtain ⟨texts, tails⟩ := List.append_inj (dotted'.symm.trans dotted) (by omega)
      obtain rfl : piece' = piece := by
        cases piece
        cases piece'
        cases kinds
        cases texts
        rfl
      rw [tails] at onward'
      rw [ih rfl onward tails.symm onward' others others']

-- An interpreter line in front of a dot of its own ends in front of it, too.
theorem hashbang_front {before behind : Text} (line : hashbang? (before ++ behind) = some size)
    (dotted : before = front.flatMap Piece.text ++ ['.'])
    (division : pieces (before ++ behind) = front ++ dot :: later) :
    size < before.length ∧ ∃ others, front = ⟨.hashbang, before.take size⟩ :: others ∧
      before.drop size = others.flatMap Piece.text ++ ['.'] ∧
      piecesFrom {} (before.drop size ++ behind) = others ++ dot :: later := by
  rw [pieces, line] at division
  cases front with
  | nil => cases (List.cons.inj division).1
  | cons piece others =>
    obtain ⟨rfl, onward⟩ := List.cons.inj division
    rw [List.flatMap_cons, List.append_assoc] at dotted
    have inside : size < before.length := by
      have sizes := congrArg List.length dotted
      simp only [List.length_append, List.length_take, List.length_singleton] at sizes
      omega
    rw [List.take_append_of_le_length (Nat.le_of_lt inside)] at dotted ⊢
    rw [List.drop_append_of_le_length (Nat.le_of_lt inside)] at onward
    refine ⟨inside, others, rfl, ?_, onward⟩
    exact List.append_cancel_left ((List.take_append_drop size before).trans dotted)

theorem pieces_front {before rest more : Text} (dotted : before = front.flatMap Piece.text ++ ['.'])
    (division : pieces (before ++ rest) = front ++ dot :: later)
    (dotted' : before = front'.flatMap Piece.text ++ ['.'])
    (division' : pieces (before ++ more) = front' ++ dot :: later') : front' = front := by
  have last : before.getLast? = some '.' := by rw [dotted, List.getLast?_concat]
  have filled : before ≠ [] := by
    rintro rfl
    cases last
  obtain ⟨within, each⟩ := hashbang?_settles (.inr last) filled
  have reads : ∀ {behind front later}, before = front.flatMap Piece.text ++ ['.'] →
      pieces (before ++ behind) = front ++ dot :: later → hashbang? (before ++ behind) = within := by
    intro behind front later parts division
    rcases each behind with same | ⟨size, far, line⟩
    · exact same
    · exact absurd (hashbang_front line parts division).1 (Nat.not_lt.mpr far)
  have read := reads dotted division
  have read' := reads dotted' division'
  cases within with
  | none =>
    rw [pieces, read] at division
    rw [pieces, read'] at division'
    exact piecesFrom_front dotted division dotted' division'
  | some size =>
    obtain ⟨_, others, rfl, parts, onward⟩ := hashbang_front read dotted division
    obtain ⟨_, others', rfl, parts', onward'⟩ := hashbang_front read' dotted' division'
    rw [piecesFrom_front parts onward parts' onward']

-- The division goes on behind its first pieces from what they leave to read.
theorem piecesFrom_behind {behind : Text} (division : piecesFrom reading (front.flatMap Piece.text ++ behind)
    = front ++ later) : piecesFrom (readThrough reading front) behind = later := by
  induction front generalizing reading with
  | nil => exact division
  | cons piece front ih =>
    rw [List.flatMap_cons, List.append_assoc, List.cons_append] at division
    exact ih (piecesFrom_first division).2

theorem pieces_behind {before rest : Text} (dotted : before = front.flatMap Piece.text ++ ['.'])
    (division : pieces (before ++ rest) = front ++ dot :: later) :
    piecesFrom (readThrough {} (front ++ [dot])) rest = later := by
  have behind : ∀ {start : Reading} {front : List Piece} {before : Text}, before = front.flatMap Piece.text ++ ['.'] →
      piecesFrom start (before ++ rest) = front ++ dot :: later →
      piecesFrom (readThrough start (front ++ [dot])) rest = later := by
    intro start front before parts division
    refine piecesFrom_behind ?_
    rw [List.flatMap_append, List.append_assoc front]
    rw [parts] at division
    exact division
  cases line : hashbang? (before ++ rest) with
  | none =>
    rw [pieces, line] at division
    exact behind dotted division
  | some size =>
    obtain ⟨_, others, rfl, parts, onward⟩ := hashbang_front line dotted division
    have found := behind parts onward
    exact found

-- The places of a piece that are blanked, those between the slashes of a regex.
def Piece.blanked (piece : Piece) : List Bool :=
  match piece.kind with
  | .regex body => (piece.text.take 1).map (fun _ => false) ++ List.replicate (body - 2) true
      ++ (piece.text.drop (body - 1)).map fun _ => false
  | _ => piece.text.map fun _ => false

def blanked (source : Text) : List Bool := (pieces source).flatMap Piece.blanked

-- A place of a masked source: a blanked one shows a space.
def hide (c : Char) (hidden : Bool) : Char := if hidden then ' ' else c

theorem hide_none (text : Text) : List.zipWith hide text (text.map fun _ => false) = text := by
  induction text with
  | nil => rfl
  | cons c rest ih => exact congrArg (c :: ·) ih

theorem hide_all (text : Text) :
    List.zipWith hide text (List.replicate text.length true) = List.replicate text.length ' ' := by
  induction text with
  | nil => rfl
  | cons c rest ih => exact congrArg (' ' :: ·) ih

theorem masked_places (text : Text) (read : nextPiece preceding (c :: text) = (kind, more)) :
    Piece.masked ⟨kind, c :: text.take more⟩
        = List.zipWith hide (c :: text.take more) (Piece.blanked ⟨kind, c :: text.take more⟩) ∧
      (Piece.blanked ⟨kind, c :: text.take more⟩).length = (c :: text.take more).length := by
  cases kind with
  | regex body =>
    obtain ⟨readBody, within⟩ := nextPiece_regex read
    obtain ⟨bounded, marked, _⟩ := regexBody?_line readBody
    obtain ⟨inner, rfl⟩ := Nat.exists_eq_add_of_le' marked
    rw [List.length_cons] at bounded
    have hidden : (text.take inner).length = inner := by rw [List.length_take, Nat.min_eq_left (by omega)]
    have parts : c :: text.take more
        = [c] ++ text.take inner ++ (c :: text.take more).drop (inner + 1) := by
      rw [List.drop_succ_cons, List.append_assoc, List.singleton_append, List.cons_inj_right]
      conv_lhs => rw [← List.take_append_drop inner (text.take more)]
      rw [List.take_take, Nat.min_eq_left (by omega)]
    have spaces := hide_all (text.take inner)
    rw [hidden] at spaces
    have shown := hide_none [c]
    have behind := hide_none ((c :: text.take more).drop (inner + 1))
    simp only [Piece.masked, Piece.blanked, Nat.add_sub_cancel, show inner + 2 - 1 = inner + 1 from rfl,
      List.take_succ_cons, List.take_zero]
    refine ⟨?_, ?_⟩
    · conv => rhs; arg 2; rw [parts]
      rw [List.zipWith_append (by simp [hidden]), List.zipWith_append (by simp), shown, spaces, behind]
    · conv => rhs; rw [parts]
      simp [hidden]
  | hashbang | blanks | comment | literal | word | mark => exact ⟨(hide_none _).symm, List.length_map _⟩

theorem piecesFrom_places (reading : Reading) (text : Text) :
    (piecesFrom reading text).flatMap Piece.masked
        = List.zipWith hide text ((piecesFrom reading text).flatMap Piece.blanked) ∧
      ((piecesFrom reading text).flatMap Piece.blanked).length = text.length := by
  fun_induction piecesFrom reading text with
  | case1 => exact ⟨rfl, rfl⟩
  | case2 reading c rest kind more read text ih =>
    obtain ⟨shown, size⟩ := masked_places rest read
    obtain ⟨later, sizes⟩ := ih
    have parts : c :: rest = text ++ rest.drop more := congrArg (c :: ·) (List.take_append_drop more rest).symm
    rw [List.flatMap_cons, List.flatMap_cons]
    refine ⟨?_, ?_⟩
    · conv => rhs; arg 2; rw [parts]
      rw [List.zipWith_append size.symm, shown, later]
    · rw [List.length_append, size, sizes, ← List.length_append, ← parts]

-- Masking puts a space in each place that is blanked and leaves the others.
theorem mask_places (source : Text) : mask source = List.zipWith hide source (blanked source) := by
  unfold mask blanked pieces
  split
  · rename_i size _
    obtain ⟨shown, _⟩ := piecesFrom_places {} (source.drop size)
    rw [List.flatMap_cons, List.flatMap_cons, shown]
    conv => rhs; arg 2; rw [← List.take_append_drop size source]
    have sizes : (source.take size).length = (Piece.blanked ⟨.hashbang, source.take size⟩).length :=
      (List.length_map _).symm
    rw [List.zipWith_append sizes]
    exact congrArg (· ++ _) (hide_none _).symm
  · exact (piecesFrom_places {} source).1

-- A text that ends with a dot, which is a piece of its own in front of the rest.
def Dotted (before rest : Text) : Prop :=
  ∃ front later, before = front.flatMap Piece.text ++ ['.'] ∧ pieces (before ++ rest) = front ++ dot :: later

-- Words that slashes and parentheses behind them treat alike.
structure SameSense (word other : Text) : Prop where
  operand : operandWords.contains word = operandWords.contains other
  condition : conditionWords.contains word = conditionWords.contains other

-- Readings from which a source is divided alike.
structure Reading.Like (reading other : Reading) : Prop where
  operand : reading.preceding.expectsOperand = other.preceding.expectsOperand
  condition : reading.preceding.opensCondition = other.preceding.opensCondition
  conditions : reading.conditions = other.conditions

theorem Reading.Like.after {other : Reading} (like : reading.Like other) (kind : PieceKind) (text : Text) :
    (reading.after kind text).Like (other.after kind text) := by
  obtain ⟨operand, condition, conditions⟩ := like
  cases kind with
  | hashbang | blanks | comment => exact ⟨operand, condition, conditions⟩
  | literal | regex | word => exact ⟨rfl, rfl, conditions⟩
  | mark =>
    unfold Reading.after
    dsimp only
    split
    · exact ⟨rfl, rfl, by rw [condition, conditions]⟩
    · exact ⟨by rw [conditions], rfl, by rw [conditions]⟩
    · exact ⟨rfl, rfl, conditions⟩
    · exact ⟨operand, condition, conditions⟩

theorem nextPiece_like {preceding other : Preceding} (same : preceding.expectsOperand = other.expectsOperand)
    (text : Text) : nextPiece preceding text = nextPiece other text := by
  rw [nextPiece_eq, nextPiece_eq, same]

theorem piecesFrom_like {other : Reading} (like : reading.Like other) (source : Text) :
    piecesFrom reading source = piecesFrom other source := by
  fun_induction piecesFrom other source generalizing reading with
  | case1 => rw [piecesFrom]
  | case2 other c rest kind size read text =>
    rename_i ih
    rw [← nextPiece_like like.operand] at read
    rw [piecesFrom_cons read, ih (like.after kind text)]

theorem SameSense.like {word other : Text} (sense : SameSense word other) (reading : Reading) :
    (reading.after .word word).Like (reading.after .word other) := ⟨sense.operand, sense.condition, rfl⟩

theorem SameSense.symm {word other : Text} (sense : SameSense word other) : SameSense other word :=
  ⟨sense.operand.symm, sense.condition.symm⟩

theorem SameSense.trans {word other third : Text} (first : SameSense word other) (second : SameSense other third) :
    SameSense word third :=
  ⟨first.operand.trans second.operand, first.condition.trans second.condition⟩

-- No word is both an operator and the head of a condition.
theorem sense_cases (word : Text) :
    SameSense word "of".toList ∨ SameSense word "if".toList ∨ SameSense word "ab".toList := by
  have apart : ∀ word ∈ operandWords, conditionWords.contains word = false := by decide
  cases operand : operandWords.contains word with
  | true => exact .inl ⟨operand, apart word (List.contains_iff_mem.mp operand)⟩
  | false =>
    cases condition : conditionWords.contains word with
    | true => exact .inr (.inl ⟨operand, condition⟩)
    | false => exact .inr (.inr ⟨operand, condition⟩)

-- What is blanked behind a word.
def blankedBehind (reading : Reading) (word rest : Text) : List Bool :=
  (piecesFrom (reading.after .word word) rest).flatMap Piece.blanked

theorem blankedBehind_like {word other : Text} (sense : SameSense word other) (reading : Reading) (rest : Text) :
    blankedBehind reading word rest = blankedBehind reading other rest := by
  rw [blankedBehind, piecesFrom_like (sense.like reading)]
  rfl

-- Up to the end of the word behind a dot of its own nothing depends on that word.
theorem blanked_dotted {before word rest : Text} (spelled : Spelled word) (apart : NotName rest)
    (dotted : before = front.flatMap Piece.text ++ ['.'])
    (division : pieces (before ++ (word ++ rest)) = front ++ dot :: later) :
    blanked (before ++ (word ++ rest)) = front.flatMap Piece.blanked
      ++ (false :: (List.replicate word.length false
        ++ blankedBehind (readThrough {} (front ++ [dot])) word rest)) := by
  have behind := pieces_behind dotted division
  rw [(divides_word _ spelled).reads rest apart] at behind
  rw [blanked, division, ← behind, List.flatMap_append, List.flatMap_cons, List.flatMap_append]
  simp [Piece.blanked, dot, blankedBehind, readThrough]

-- Two words of one length leave the same places blanked behind every dot exactly if both or neither are operators
-- and both or neither are heads of conditions.
theorem members_alike_iff {word other : Text} (spelled : Spelled word) (spelled' : Spelled other)
    (sized : word.length = other.length) :
    (∀ before rest, NotName rest → Dotted before (word ++ rest) → Dotted before (other ++ rest) →
      blanked (before ++ (word ++ rest)) = blanked (before ++ (other ++ rest))) ↔ SameSense word other := by
  constructor
  · intro alike
    have bare : ['.'] = ([] : List Piece).flatMap Piece.text ++ ['.'] := rfl
    have marked : ∀ {word : Text}, Spelled word → ∀ rest,
        pieces (['.'] ++ (word ++ rest)) = [] ++ dot :: piecesFrom (Reading.after {} .mark ['.']) (word ++ rest) := by
      intro word _ rest
      have mark := divides_mark {} (show '.' ∈ plainMarks by decide)
      exact mark.reads (word ++ rest) trivial
    have probe : ∀ rest, NotName rest → blankedBehind (Reading.after {} .mark ['.']) word rest
        = blankedBehind (Reading.after {} .mark ['.']) other rest := by
      intro rest apart
      have division := marked spelled rest
      have division' := marked spelled' rest
      have same := alike ['.'] rest apart ⟨[], _, bare, division⟩ ⟨[], _, bare, division'⟩
      rw [blanked_dotted spelled apart bare division, blanked_dotted spelled' apart bare division',
        sized] at same
      exact List.append_cancel_left (List.cons.inj same).2
    -- Behind one of these a slash begins a regex, or a parenthesis holds a condition.
    have slash := probe "\n/a/".toList (by rintro _ ⟨⟩; decide)
    have head := probe "\n()/a/".toList (by rintro _ ⟨⟩; decide)
    rcases sense_cases word with own | own | own
    all_goals
      rw [blankedBehind_like own] at slash head
      rcases sense_cases other with its | its | its
    all_goals
      rw [blankedBehind_like its] at slash head
      first
        | exact own.trans its.symm
        | exact absurd slash (by decide +kernel)
        | exact absurd head (by decide +kernel)
  · rintro sense before rest apart ⟨front, later, dotted, division⟩ ⟨front', later', dotted', division'⟩
    obtain rfl := pieces_front dotted division dotted' division'
    rw [blanked_dotted spelled apart dotted division, blanked_dotted spelled' apart dotted division', sized,
      blankedBehind_like sense]

-- Names that are neither, with a division behind a property.
theorem members_plain : Spelled "name".toList ∧ Spelled "type".toList ∧
    SameSense "name".toList "type".toList ∧ ∀ before rest, NotName rest → Dotted before ("name".toList ++ rest) →
      Dotted before ("type".toList ++ rest) →
      blanked (before ++ ("name".toList ++ rest)) = blanked (before ++ ("type".toList ++ rest)) := by
  have spelled : Spelled "name".toList := ⟨by decide, by decide⟩
  have spelled' : Spelled "type".toList := ⟨by decide, by decide⟩
  have sense : SameSense "name".toList "type".toList := ⟨by decide, by decide⟩
  exact ⟨spelled, spelled', sense, (members_alike_iff spelled spelled' rfl).mpr sense⟩

-- A property that is named like an operator: the division behind it is taken for a regex.
theorem member_blanked : NotName " / 1 / 2".toList ∧ Dotted "x.".toList ("of".toList ++ " / 1 / 2".toList) ∧
    Dotted "x.".toList ("ab".toList ++ " / 1 / 2".toList) ∧
    mask "x.of / 1 / 2".toList = "x.of /   / 2".toList ∧ mask "x.ab / 1 / 2".toList = "x.ab / 1 / 2".toList ∧
    blanked "x.of / 1 / 2".toList ≠ blanked "x.ab / 1 / 2".toList := by
  have division : ∀ word ∈ ["of".toList, "ab".toList], (pieces ("x.".toList ++ (word ++ " / 1 / 2".toList))).take 2
      = [⟨.word, "x".toList⟩, dot] := by decide +kernel
  have dotted : ∀ word ∈ ["of".toList, "ab".toList], Dotted "x.".toList (word ++ " / 1 / 2".toList) := by
    intro word among
    refine ⟨[⟨.word, "x".toList⟩], (pieces ("x.".toList ++ (word ++ " / 1 / 2".toList))).drop 2,
      by decide, ?_⟩
    have parts := List.take_append_drop 2 (pieces ("x.".toList ++ (word ++ " / 1 / 2".toList)))
    rw [division word among] at parts
    exact parts.symm
  exact ⟨by rintro _ ⟨⟩; decide, dotted _ (by decide), dotted _ (by decide), by decide +kernel,
    by decide +kernel,
    by decide +kernel⟩

end Masking
end ModuleBundler
