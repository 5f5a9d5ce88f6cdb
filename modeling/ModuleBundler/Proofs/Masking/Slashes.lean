import ModuleBundler.Proofs.Masking.Frame
import ModuleBundler.Proofs.Masking.Nesting
import ModuleBundler.Proofs.Lookback

/-!
The slashes that the division of a source takes for division signs, and what stands in front of them.
-/
namespace ModuleBundler

namespace Lexeme
variable {text : Text}

theorem getLast?_cons_take {c : Char} (positive : 0 < size) (bounded : size ≤ text.length) :
    (c :: text.take size).getLast? = (text.take size).getLast? := by
  cases text with
  | nil => exact absurd (Nat.lt_of_lt_of_le positive bounded) (Nat.lt_irrefl 0)
  | cons d text =>
    obtain ⟨size, rfl⟩ := Nat.exists_eq_succ_of_ne_zero (Nat.ne_of_gt positive)
    rw [List.take_succ_cons, List.getLast?_cons_cons]

theorem blockCommentRest?_last (read : blockCommentRest? text = some size) :
    (text.take size).getLast? = some '/' := by
  fun_induction blockCommentRest? text generalizing size with
  | case1 =>
    cases read
    rfl
  | case2 c rest _ ih =>
    obtain ⟨inner, readInner, rfl⟩ := Option.map_eq_some_iff.mp read
    obtain ⟨bounded, positive⟩ := blockCommentRest?_bounds readInner
    rw [List.take_succ_cons, getLast?_cons_take positive bounded, ih readInner]
  | case3 => cases read

theorem quotedRest?_last (read : quotedRest? quote text = some size) :
    (text.take size).getLast? = some quote := by
  fun_induction quotedRest? quote text generalizing size with
  | case1 | case2 | case5 => cases read
  | case3 c rest ih =>
    obtain ⟨inner, readInner, rfl⟩ := Option.map_eq_some_iff.mp read
    obtain ⟨bounded, positive⟩ := quotedRest?_bounds readInner
    rw [List.take_succ_cons, List.take_succ_cons, List.getLast?_cons_cons,
      getLast?_cons_take positive bounded,
      ih readInner]
  | case4 c rest _ _ same =>
    cases read
    rw [beq_iff_eq] at same
    rw [List.take_succ_cons, same]
    rfl
  | case6 c rest _ _ _ _ ih =>
    obtain ⟨inner, readInner, rfl⟩ := Option.map_eq_some_iff.mp read
    obtain ⟨bounded, positive⟩ := quotedRest?_bounds readInner
    rw [List.take_succ_cons, getLast?_cons_take positive bounded, ih readInner]

theorem templateRest?_last (read : templateRest? part text = some size) :
    (text.take size).getLast? = some '\x60' := by
  fun_induction templateRest? part text generalizing size with
  | case1 =>
    cases read
    rfl
  | case3 | case12 | case15 | case17 => cases read
  | case2 | case4 | case11 =>
    rename_i ih
    obtain ⟨inner, readInner, rfl⟩ := Option.map_eq_some_iff.mp read
    obtain ⟨bounded, positive⟩ := templateRest?_bounds readInner
    rw [List.take_succ_cons, List.take_succ_cons, List.getLast?_cons_cons,
      getLast?_cons_take positive bounded,
      ih readInner]
  | _ =>
    rename_i ih
    obtain ⟨inner, readInner, rfl⟩ := Option.map_eq_some_iff.mp read
    obtain ⟨bounded, positive⟩ := templateRest?_bounds readInner
    rw [List.take_succ_cons, getLast?_cons_take positive bounded, ih readInner]

theorem regexRest?_last (read : regexRest? inClass text = some size) :
    (text.take size).getLast? = some '/' := by
  fun_induction regexRest? inClass text generalizing size with
  | case1 | case2 | case3 | case4 => cases read
  | case5 =>
    rename_i ih
    obtain ⟨inner, readInner, rfl⟩ := Option.map_eq_some_iff.mp read
    obtain ⟨bounded, positive, _⟩ := regexRest?_line readInner
    rw [List.take_succ_cons, List.take_succ_cons, List.getLast?_cons_cons,
      getLast?_cons_take positive bounded,
      ih readInner]
  | case7 =>
    cases read
    rfl
  | case6 | case8 =>
    rename_i ih
    obtain ⟨inner, readInner, rfl⟩ := Option.map_eq_some_iff.mp read
    obtain ⟨bounded, positive, _⟩ := regexRest?_line readInner
    rw [List.take_succ_cons, getLast?_cons_take positive bounded, ih readInner]

-- The body of a regex ends with a slash.
theorem regexBody?_last (read : regexBody? text = some body) : (text.take body).getLast? = some '/' := by
  obtain ⟨c, rest, inner, rfl, _, readInner, rfl⟩ := regexBody?_opened read
  obtain ⟨bounded, positive, _⟩ := regexRest?_line readInner
  rw [List.take_succ_cons, getLast?_cons_take positive bounded, regexRest?_last readInner]

section
variable {behind : Text}

theorem run_append_within (sized : run within (text ++ behind) = text.length) : ∀ c ∈ text, within c = true := by
  have inside := run_within within (text ++ behind)
  rwa [sized, List.take_left] at inside

-- A comment that ends within its line is a block comment.
theorem comment?_last (read : comment? (text ++ behind) = some text.length)
    (follows : behind.head? = some d) (sameLine : d ≠ '\n') : text.getLast? = some '/' := by
  have whole : (text ++ behind).take text.length = text := List.take_left
  obtain ⟨rest, parts, size⟩ | ⟨rest, inner, parts, readInner, size⟩ := comment?_cases read
  · have gone : behind = rest.drop (run (· != '\n') rest) := by
      have cut := congrArg (List.drop text.length) parts
      rwa [List.drop_left, size, List.drop_succ_cons, List.drop_succ_cons] at cut
    exact absurd ((line_stops rest).2 d (gone ▸ follows)) sameLine
  · obtain ⟨bounded, positive⟩ := blockCommentRest?_bounds readInner
    rw [← whole, parts, size, List.take_succ_cons, List.take_succ_cons, List.getLast?_cons_cons,
      getLast?_cons_take positive bounded, blockCommentRest?_last readInner]

theorem string?_last (read : string? (text ++ behind) = some text.length) :
    text.getLast? = some '"' ∨ text.getLast? = some '\'' := by
  have whole : (text ++ behind).take text.length = text := List.take_left
  have closed : ∀ quote rest, text ++ behind = quote :: rest →
      (quotedRest? quote rest).map (· + 1) = some text.length → text.getLast? = some quote := by
    intro quote rest parts read
    obtain ⟨inner, readInner, size⟩ := Option.map_eq_some_iff.mp read
    obtain ⟨bounded, positive⟩ := quotedRest?_bounds readInner
    rw [← whole, parts, ← size, List.take_succ_cons, getLast?_cons_take positive bounded,
      quotedRest?_last readInner]
  unfold string? at read
  split at read
  · rename_i parts
    exact .inl (closed _ _ parts read)
  · rename_i parts
    exact .inr (closed _ _ parts read)
  · cases read

theorem template?_last (read : template? (text ++ behind) = some text.length) :
    text.getLast? = some '\x60' := by
  have whole : (text ++ behind).take text.length = text := List.take_left
  unfold template? at read
  split at read
  · rename_i rest parts
    obtain ⟨inner, readInner, size⟩ := Option.map_eq_some_iff.mp read
    obtain ⟨bounded, positive⟩ := templateRest?_bounds readInner
    rw [← whole, parts, ← size, List.take_succ_cons, getLast?_cons_take positive bounded,
      templateRest?_last readInner]
  · cases read

-- A regex ends with its closing slash or with its flags.
theorem regex_last (read : regexBody? (text ++ behind) = some body)
    (size : text.length = body + run isFlag ((text ++ behind).drop body)) :
    text.take body ++ text.drop body = text ∧ (text.take body).getLast? = some '/' ∧
      ∀ c ∈ text.drop body, isFlag c = true := by
  have ends := regexBody?_last read
  rw [List.take_append_of_le_length (by omega)] at ends
  have rest : (text ++ behind).drop body = text.drop body ++ behind := List.drop_append_of_le_length (by omega)
  have flags : run isFlag (text.drop body ++ behind) = (text.drop body).length := by
    rw [← rest, List.length_drop]
    omega
  exact ⟨List.take_append_drop body text, ends, run_append_within flags⟩

end

end Lexeme

namespace Masking
open Lexeme

-- What stands where a piece of some kind and size is read.
def Reads (preceding : Preceding) (text : Text) : PieceKind → Nat → Prop
  | .hashbang, _ => False
  | .blanks, size => blanks? text = some size
  | .comment, size => comment? text = some size
  | .literal, size => string? text = some size ∨ template? text = some size
  | .word, size => run1? Text.isNameChar text = some size
  | .mark, size => size = 1 ∧ blanks? text = none ∧ comment? text = none
  | .regex body, size => preceding.expectsOperand = true ∧ regexBody? text = some body ∧
      size = body + run Char.isAlpha (text.drop body)

variable {reading : Reading} {piece : Piece} {front later : List Piece} {source text : Text}

theorem nextPiece_reads (read : nextPiece preceding text = (kind, more)) :
    Reads preceding text kind (more + 1) := by
  have plain : ∀ (named : PieceKind) (size? : Option Nat), (∀ size, size? = some size → 0 < size) →
      size?.map (fun size => (named, size - 1)) = some (kind,
        more) → named = kind ∧ size? = some (more + 1) := by
    intro named size? positive found
    obtain ⟨size, readSize, same⟩ := Option.map_eq_some_iff.mp found
    cases same
    exact ⟨rfl, by rw [readSize, Nat.sub_add_cancel (positive size readSize)]⟩
  rcases Option.getD_eq_iff.mp read with found | ⟨none_, same⟩
  · simp only [Option.orElse_eq_orElse, Option.orElse_eq_or, Option.or_eq_some_iff] at found
    rcases found with regex | ⟨_, blanks | ⟨_, comment | ⟨_, string | ⟨_, template | ⟨_, word⟩⟩⟩⟩⟩
    · split at regex
      · rename_i expects
        obtain ⟨body, readBody, same⟩ := Option.map_eq_some_iff.mp regex
        cases same
        have positive := regexBody?_pos readBody
        exact ⟨expects, readBody, by omega⟩
      · cases regex
    · obtain ⟨rfl, found⟩ := plain _ _ (fun _ => run1?_pos) blanks
      exact found
    · obtain ⟨rfl, found⟩ := plain _ _ (fun _ => comment?_pos) comment
      exact found
    · obtain ⟨rfl, found⟩ := plain _ _ (fun _ => string?_pos) string
      exact .inl found
    · obtain ⟨rfl, found⟩ := plain _ _ (fun _ => template?_pos) template
      exact .inr found
    · obtain ⟨rfl, found⟩ := plain _ _ (fun _ => run1?_pos) word
      exact found
  · cases same
    simp only [Option.orElse_eq_orElse, Option.orElse_eq_or, Option.or_eq_none_iff,
      Option.map_eq_none_iff] at none_
    exact ⟨rfl, none_.2.1, none_.2.2.1⟩

theorem piecesFrom_split (split : piecesFrom reading text = front ++ piece :: later) :
    Reads (readThrough reading front).preceding ((piece :: later).flatMap Piece.text) piece.kind
      piece.text.length := by
  induction front generalizing reading text with
  | nil =>
    have whole := piecesFrom_texts reading text
    rw [split, List.nil_append] at whole
    obtain ⟨c, rest, more, rfl, read, parts, _⟩ := piecesFrom_eq_cons split
    have size : piece.text.length = more + 1 := by
      rw [parts, List.length_cons, List.length_take, Nat.min_eq_left (nextPiece_le read)]
    rw [whole, size]
    exact nextPiece_reads read
  | cons first front ih =>
    obtain ⟨c, rest, more, _, _, _, behind⟩ := piecesFrom_eq_cons split
    exact ih behind

-- Only the first piece of a source can be an interpreter line.
theorem pieces_split (split : pieces source = front ++ piece :: later) :
    front = [] ∧ piece.kind = .hashbang ∨
      Reads (readThrough {} front).preceding ((piece :: later).flatMap Piece.text) piece.kind
        piece.text.length := by
  unfold pieces at split
  split at split
  · cases front with
    | nil =>
      rw [← (List.cons.inj split).1]
      exact .inl ⟨rfl, rfl⟩
    | cons first front =>
      obtain ⟨rfl, behind⟩ := List.cons.inj split
      have read := piecesFrom_split behind
      exact .inr read
  · exact .inr (piecesFrom_split split)

section
variable {preceding : Preceding} {behind : Text}

-- Masking leaves the last character of a piece.
theorem masked_last (reads : Reads preceding (piece.text ++ behind) piece.kind piece.text.length) :
    piece.masked.getLast? = piece.text.getLast? := by
  obtain ⟨kind, text⟩ := piece
  cases kind with
  | regex body =>
    obtain ⟨_, readBody, size⟩ := reads
    obtain ⟨_, positive, _⟩ := regexBody?_line readBody
    dsimp only at size
    have remains : text.drop (body - 1) ≠ [] := by
      rw [ne_eq, List.drop_eq_nil_iff]
      omega
    have own : (text.drop (body - 1)).getLast? = text.getLast? := by
      rw [List.getLast?_drop, if_neg (by omega)]
    exact (List.getLast?_append_of_ne_nil _ remains).trans own
  | _ => rfl

-- A piece ends with a space or with a mark of an operand only where it is that mark.
theorem mark_last (reads : Reads preceding (piece.text ++ behind) piece.kind piece.text.length)
    (visible : piece.kind ≠ .blanks) (follows : behind.head? = some d) (sameLine : d ≠ '\n')
    (last : piece.text.getLast? = some c) (mark : c ∈ ' ' :: Lexer.operandMarks) :
    piece = ⟨.mark, [c]⟩ ∧ Text.isBlank c = false := by
  obtain ⟨kind, text⟩ := piece
  dsimp only at reads visible last
  have other : ∀ closing, text.getLast? = some closing → closing ∈ ' ' :: Lexer.operandMarks := by
    intro closing ends
    rw [last] at ends
    cases ends
    exact mark
  have among := List.mem_of_getLast? last
  cases kind with
  | hashbang => exact absurd reads id
  | blanks => exact absurd rfl visible
  | comment => exact absurd (other '/' (comment?_last reads follows sameLine)) (by decide)
  | literal =>
    rcases reads with string | template
    · rcases string?_last string with double | single
      · exact absurd (other _ double) (by decide)
      · exact absurd (other _ single) (by decide)
    · exact absurd (other _ (template?_last template)) (by decide)
  | word =>
    have apart : ∀ c ∈ ' ' :: Lexer.operandMarks, Text.isNameChar c = false := by decide
    have named := run_append_within (run1?_run reads) c among
    exact absurd named (by rw [apart c mark]; decide)
  | mark =>
    obtain ⟨size, blanks, _⟩ := reads
    obtain ⟨only, rfl⟩ := List.length_eq_one_iff.mp size
    obtain rfl : only = c := by simpa using last
    refine ⟨rfl, ?_⟩
    cases blank : Text.isBlank only with
    | false => rfl
    | true => simp [blanks?, run1?, run, blank] at blanks
  | regex body =>
    obtain ⟨_, readBody, size⟩ := reads
    obtain ⟨parts, slash, flags⟩ := regex_last readBody size
    cases remains : text.drop body with
    | nil =>
      rw [remains, List.append_nil] at parts
      exact absurd (other '/' (parts ▸ slash)) (by decide)
    | cons first later =>
      have tail : (text.drop body).getLast? = text.getLast? := by
        rw [List.getLast?_drop, if_neg]
        intro short
        rw [List.drop_eq_nil_of_le short] at remains
        cases remains
      have apart : ∀ c ∈ ' ' :: Lexer.operandMarks, c.isAlpha = false := by decide
      have alpha := flags c (List.mem_of_getLast? (tail.trans last))
      exact absurd alpha (by rw [apart c mark]; decide)

end

-- A slash that is taken for a division sign: what stands in front of it calls for an operator.
structure DivisionSign (source : Text) (front later : List Piece) : Prop where
  parted : pieces source = front ++ ⟨.mark, ['/']⟩ :: later
  operand : (readThrough {} front).preceding.expectsOperand = false

-- What a text in front of a slash can end with where the lexer is misled: it looks back at the line break
-- or the letters just before the slash, whatever stands in front of the line break or the letters.
def Exposed (before : Text) : Prop :=
  ∃ ending ∈ ["\n", "\n ", "return ", "typeof ", "case "].map String.toList, ending <:+ before

theorem Exposed.operandExpected (exposed : Exposed before) : Lexer.operandExpected before.reverse = true := by
  obtain ⟨ending, among, front, rfl⟩ := exposed
  rw [List.reverse_append]
  simp only [List.map_cons, List.map_nil, List.mem_cons, List.not_mem_nil, or_false] at among
  rcases among with rfl | rfl | rfl | rfl | rfl
  all_goals rfl

theorem mark_expects (mark : c ∈ Lexer.operandMarks) (reading : Reading) :
    (reading.after .mark [c]).preceding.expectsOperand = true := by
  have closers : c ≠ ')' ∧ c ≠ ']' := by
    constructor
    all_goals
      rintro rfl
      exact absurd mark (by decide)
  unfold Reading.after
  dsimp only
  split
  · rfl
  · rename_i same
    exact absurd (List.cons.inj same).1 closers.1
  · rename_i same
    cases same
    simpa [Preceding.expectsOperand] using closers.2
  · rename_i same
    cases same

-- What a piece in front of a division sign ends with does not call for an operand, if it is no blank.
theorem piece_ends (split : pieces source = front ++ piece :: later)
    (operand : (readThrough {} (front ++ [piece])).preceding.expectsOperand = false)
    (visible : piece.kind ≠ .blanks) (follows : (later.flatMap Piece.text).head? = some d) (sameLine : d ≠ '\n') :
    ∃ shown c, piece.masked = shown ++ [c] ∧ c ∉ ' ' :: Lexer.operandMarks := by
  rw [readThrough_append] at operand
  rcases pieces_split split with ⟨rfl, hashbang⟩ | reads
  · rw [show readThrough (readThrough {} []) [piece] = Reading.after {} piece.kind piece.text from rfl,
      hashbang] at operand
    cases operand
  · rw [List.flatMap_cons] at reads
    have nonempty := pieces_nonempty source piece (by simp [split])
    have last := masked_last reads
    rw [List.getLast?_eq_some_getLast nonempty, List.getLast?_eq_some_iff] at last
    obtain ⟨shown, shows⟩ := last
    refine ⟨shown, piece.text.getLast nonempty, shows, fun mark => ?_⟩
    obtain ⟨own, plain⟩ := mark_last reads visible follows sameLine
      (List.getLast?_eq_some_getLast nonempty) mark
    have marked : piece.text.getLast nonempty ∈ Lexer.operandMarks := by
      rcases List.mem_cons.mp mark with space | marked
      · rw [space] at plain
        cases plain
      · exact marked
    rw [own] at operand
    exact Bool.false_ne_true (operand.symm.trans (mark_expects marked _))

theorem blanks_parts (split : pieces source = front ++ piece :: later) (blanks : piece.kind = .blanks) :
    (∀ c ∈ piece.text, Text.isBlank c = true) ∧
      ∀ d, (later.flatMap Piece.text).head? = some d → Text.isBlank d = false := by
  rcases pieces_split split with ⟨_, hashbang⟩ | reads
  · rw [blanks] at hashbang
    cases hashbang
  · rw [blanks, List.flatMap_cons] at reads
    have sized := run1?_run reads
    have stops := run_stops Text.isBlank (piece.text ++ later.flatMap Piece.text)
    rw [sized, List.drop_left] at stops
    exact ⟨run_append_within sized, stops⟩

theorem exposed_word (word : Lexer.operandWordsReversed.any (Text.startsWith before.reverse) = true) :
    Exposed (before ++ [' ']) := by
  obtain ⟨word, among, starts⟩ := List.any_eq_true.mp word
  have ends : word.reverse <:+ before := by
    rw [← List.reverse_prefix, List.reverse_reverse]
    exact List.isPrefixOf_iff_prefix.mp starts
  have listed : ∀ word ∈ Lexer.operandWordsReversed,
      word.reverse ++ [' '] ∈ ["\n", "\n ", "return ", "typeof ", "case "].map String.toList := by decide
  exact ⟨_, listed word among, (List.suffix_append_inj_of_length_eq rfl).mpr ⟨ends, rfl⟩⟩

-- Of the blanks in front of a slash only a line break calls for an operand, and one space is overlooked.
theorem exposed_blanks (blank : ∀ c ∈ gap, Text.isBlank c = true) (many : gap ≠ [] ∧ gap ≠ [' '])
    (expected : Lexer.operandExpected (before ++ gap).reverse = true) : Exposed (before ++ gap) := by
  have broken : ∀ c ∈ Lexer.operandMarks, Text.isBlank c = true → c = '\n' := by decide
  obtain ⟨earlier, last, rfl⟩ := (List.eq_nil_or_concat' gap).resolve_left many.1
  rw [← List.append_assoc, List.reverse_concat] at expected
  have lastBlank := blank last (by simp)
  by_cases space : last = ' '
  · subst space
    obtain ⟨earlier, d, rfl⟩ := (List.eq_nil_or_concat' earlier).resolve_left
      (by rintro rfl; exact many.2 rfl)
    have before_blank := blank d (by simp)
    rw [← List.append_assoc, List.reverse_concat, Lexer.operandExpected_blank, Bool.or_eq_true] at expected
    rcases expected with marked | word
    · obtain rfl := broken d (by simpa using marked) before_blank
      exact ⟨['\n', ' '], by decide, before ++ earlier, by simp⟩
    · obtain ⟨word, among, starts⟩ := List.any_eq_true.mp word
      have visible : ∀ word ∈ Lexer.operandWordsReversed, ∃ c rest, word = c :: rest ∧ Text.isBlank c = false := by
        intro word among
        simp only [Lexer.operandWordsReversed, List.map_cons, List.map_nil, List.mem_cons, List.not_mem_nil,
          or_false] at among
        rcases among with rfl | rfl | rfl
        all_goals exact ⟨_, _, rfl, by decide⟩
      obtain ⟨c, rest, rfl, apart⟩ := visible word among
      rw [Text.startsWith, List.isPrefixOf, Bool.and_eq_true, beq_iff_eq] at starts
      rw [starts.1, before_blank] at apart
      cases apart
  · rw [Lexer.operandExpected_visible space] at expected
    obtain rfl := broken last (by simpa using expected) lastBlank
    exact ⟨['\n'], by decide, before ++ earlier, by simp⟩

theorem DivisionSign.exposed (sign : DivisionSign source front later)
    (expected : Lexer.operandExpected (front.flatMap Piece.masked).reverse = true) :
    Exposed (front.flatMap Piece.masked) := by
  obtain ⟨parted, operand⟩ := sign
  rcases List.eq_nil_or_concat' front with rfl | ⟨init, last, rfl⟩
  · cases operand
  · have split : pieces source = init ++ last :: ⟨.mark, ['/']⟩ :: later := by
      rw [parted, List.append_assoc, List.singleton_append]
    rw [List.flatMap_append, List.flatMap_singleton] at expected ⊢
    by_cases blanks : last.kind = .blanks
    · have shown : last.masked = last.text := by simp [Piece.masked, blanks]
      rw [shown] at expected ⊢
      by_cases space : last.text = [' ']
      · rw [space] at expected ⊢
        have same : readThrough {} (init ++ [last]) = readThrough {} init := by
          rw [readThrough_append]
          simp [readThrough, Reading.after, blanks]
        rw [same] at operand
        rcases List.eq_nil_or_concat' init with rfl | ⟨init, piece, rfl⟩
        · cases operand
        · rw [List.append_assoc, List.singleton_append] at split
          have apart : piece.kind ≠ .blanks := by
            intro blank
            have stops := (blanks_parts split blank).2 ' ' (by simp [space])
            cases stops
          obtain ⟨shown, c, shows, apart⟩ := piece_ends split operand apart (d := ' ') (by simp [space]) (by decide)
          rw [List.mem_cons, not_or] at apart
          refine exposed_word ?_
          rw [List.reverse_append, List.reverse_singleton, List.singleton_append, Lexer.operandExpected_blank,
            Bool.or_eq_true] at expected
          refine expected.resolve_left ?_
          rw [List.flatMap_append, List.flatMap_singleton, shows, ← List.append_assoc, List.reverse_append,
            List.reverse_singleton, List.singleton_append, List.head?_cons, Option.any_some, List.contains_iff_mem]
          exact apart.2
      · have nonempty := pieces_nonempty source last (by simp [split])
        exact exposed_blanks (blanks_parts split blanks).1 ⟨nonempty, space⟩ expected
    · obtain ⟨shown, c, shows, apart⟩ := piece_ends split operand blanks rfl (by decide)
      rw [List.mem_cons, not_or] at apart
      rw [shows, ← List.append_assoc, List.reverse_append, List.reverse_singleton, List.singleton_append,
        Lexer.operandExpected_visible apart.1, List.contains_iff_mem] at expected
      exact absurd expected apart.2

-- What masking leaves in front of a place between pieces, and behind it.
theorem length_masked (split : pieces source = front ++ later) :
    (front.flatMap Piece.masked).length = (front.flatMap Piece.text).length := by
  have each : ∀ piece ∈ front, piece.masked.length = piece.text.length := by
    intro piece among
    obtain ⟨earlier, rest, rfl⟩ := List.append_of_mem among
    rw [List.append_assoc, List.cons_append] at split
    rcases pieces_split split with ⟨_, hashbang⟩ | reads
    · rw [Piece.masked, hashbang]
    · obtain ⟨kind, text⟩ := piece
      cases kind with
      | regex body =>
        obtain ⟨_, readBody, size⟩ := reads
        obtain ⟨_, positive, _⟩ := regexBody?_line readBody
        simp only [Piece.masked, List.length_append, List.length_take, List.length_replicate,
          List.length_drop] at size ⊢
        omega
      | _ => rfl
  rw [List.length_flatMap, List.length_flatMap]
  exact congrArg List.sum (List.map_congr_left each)

theorem later_blanked (split : pieces source = front ++ later) :
    List.Forall₂ Blanked (later.flatMap Piece.masked) (later.flatMap Piece.text) := by
  have whole := List.forall₂_drop (front.flatMap Piece.text).length (mask_blanked source)
  have texts := pieces_texts source
  rw [split, List.flatMap_append] at texts
  rw [mask, split, List.flatMap_append] at whole
  conv at whole => arg 3; rw [← texts]
  rwa [← length_masked split, List.drop_left, length_masked split, List.drop_left] at whole

theorem Blanked.visible (blanked : Blanked shown original) (visible : shown ≠ ' ') : original = shown :=
  blanked.elim Eq.symm fun space => absurd space.1 visible

theorem blockCommentRest?_blanked (blanked : List.Forall₂ Blanked shown original)
    (closes : (blockCommentRest? shown).isSome) : (blockCommentRest? original).isSome := by
  induction blanked with
  | nil => exact closes
  | @cons c d shown original here rest ih =>
    by_cases ending : ∃ behind, c :: shown = '*' :: '/' :: behind
    · obtain ⟨behind, parts⟩ := ending
      cases parts
      cases rest with
      | cons slash _ =>
        obtain rfl := here.visible (by decide)
        obtain rfl := slash.visible (by decide)
        rfl
    · rw [blockCommentRest?.eq_2 _ _ (by rintro behind rfl rfl; exact ending ⟨behind, rfl⟩),
        Option.isSome_map] at closes
      by_cases star : ∃ behind, d :: original = '*' :: '/' :: behind
      · obtain ⟨behind, parts⟩ := star
        cases parts
        rfl
      · rw [blockCommentRest?.eq_2 _ _ (by rintro behind rfl rfl; exact star ⟨behind, rfl⟩),
          Option.isSome_map]
        exact ih closes

-- A comment behind a slash is not made by blanks.
theorem comment?_blanked (blanked : List.Forall₂ Blanked shown original)
    (comments : (comment? ('/' :: shown)).isSome) : (comment? ('/' :: original)).isSome := by
  cases blanked with
  | nil => cases comments
  | @cons c d shown original here rest =>
    by_cases slash : c = '/'
    · subst slash
      obtain rfl := here.visible (by decide)
      rfl
    · by_cases star : c = '*'
      · subst star
        obtain rfl := here.visible (by decide)
        have closes : (blockCommentRest? shown).isSome := by
          simpa [comment?, lineComment?, blockComment?] using comments
        have closes' := blockCommentRest?_blanked rest closes
        simpa [comment?, lineComment?, blockComment?] using closes'
      · rw [comment?, lineComment?.eq_2 _ (by simp [slash]),
          blockComment?.eq_2 _ (by simp [star])] at comments
        cases comments

-- No comment begins at a division sign of the masked source.
theorem DivisionSign.uncommented (sign : DivisionSign source front later) :
    comment? ('/' :: later.flatMap Piece.masked) = none := by
  have unread : comment? ('/' :: later.flatMap Piece.text) = none := by
    rcases pieces_split sign.parted with ⟨_, hashbang⟩ | reads
    · cases hashbang
    · exact reads.2.2
  have parted : pieces source = (front ++ [⟨.mark, ['/']⟩]) ++ later := by
    rw [sign.parted, List.append_assoc, List.singleton_append]
  have blanked := later_blanked parted
  rw [Option.eq_none_iff_forall_ne_some]
  intro size read
  have comments := comment?_blanked blanked (by rw [read]; rfl)
  rw [unread] at comments
  cases comments

-- What the masked source has in front of a division sign and behind it.
theorem DivisionSign.mask (sign : DivisionSign source front later) :
    mask source = front.flatMap Piece.masked ++ '/' :: later.flatMap Piece.masked := by
  rw [Masking.mask, sign.parted, List.flatMap_append, List.flatMap_cons]
  rfl

end Masking

end ModuleBundler
