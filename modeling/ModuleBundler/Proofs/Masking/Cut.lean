import ModuleBundler.Proofs.Lexeme

/-!
Where a source can be cut. A text that ends with a line break and leaves no literal and no comment
open is divided into the same pieces whatever follows it.
-/
namespace ModuleBundler

namespace Lexeme

-- Whether a quoted string, read from behind its quote, is still open where the text ends.
def quotedOpen (quote : Char) : Text → Bool
  | [] => true
  | ['\\'] => true
  | '\\' :: _ :: rest => quotedOpen quote rest
  | c :: rest => if c == quote || c == '\n' then false else quotedOpen quote rest

-- Where the reading of a template literal stands at the end of a text that does not close it.
def templateEnd? : TemplatePart → Text → Option TemplatePart
  | part, [] => some part
  | .text, '\x60' :: _ => none
  | .text, '\\' :: _ :: rest => templateEnd? .text rest
  | .text, ['\\'] => some .text
  | .text, '$' :: '{' :: rest => templateEnd? .substitution rest
  | .text, _ :: rest => templateEnd? .text rest
  | .substitution, '}' :: rest => templateEnd? .text rest
  | .substitution, '\x60' :: rest => templateEnd? .nested rest
  | .substitution, '{' :: rest => templateEnd? .braces rest
  | .substitution, _ :: rest => templateEnd? .substitution rest
  | .nested, '\x60' :: rest => templateEnd? .substitution rest
  | .nested, '\\' :: _ :: rest => templateEnd? .nested rest
  | .nested, ['\\'] => some .nested
  | .nested, _ :: rest => templateEnd? .nested rest
  | .braces, '}' :: rest => templateEnd? .substitution rest
  | .braces, '{' :: _ => none
  | .braces, _ :: rest => templateEnd? .braces rest

-- Whether a literal or a block comment begins here that the text does not close.
def opensHere : Text → Bool
  | '"' :: rest => quotedOpen '"' rest
  | '\'' :: rest => quotedOpen '\'' rest
  | '\x60' :: rest => (templateEnd? .text rest).isSome
  | '/' :: '*' :: rest => (blockCommentRest? rest).isNone
  | _ => false

-- A text whose last line is complete.
def EndsLine (text : Text) : Prop := text.getLast? = some '\n'

theorem EndsLine.tail (ends : EndsLine (c :: rest)) (other : c ≠ '\n') : EndsLine rest := by
  cases rest with
  | nil => exact absurd (Option.some.inj ends) other
  | cons d rest => rwa [EndsLine, List.getLast?_cons_cons] at ends

theorem EndsLine.drop (ends : EndsLine text) (inside : count < text.length) :
    EndsLine (text.drop count) := by
  rw [EndsLine, List.getLast?_drop]
  simp only [Nat.not_le.mpr inside, if_false]
  exact ends

theorem EndsLine.behind (ends : EndsLine (c :: rest)) (count : Nat) :
    rest.drop count = [] ∨ EndsLine (rest.drop count) := by
  by_cases inside : count + 1 < (c :: rest).length
  · exact .inr (ends.drop inside)
  · rw [List.length_cons] at inside
    exact .inl (List.drop_of_length_le (by omega))

theorem EndsLine.mem (ends : EndsLine text) : '\n' ∈ text := List.mem_of_getLast? ends

theorem run_append (within : Char → Bool) (more : Text) (stops : c ∈ text)
    (outside : within c = false) : run within (text ++ more) = run within text := by
  induction text with
  | nil => cases stops
  | cons d rest ih =>
    rw [List.cons_append, run, run]
    split
    · rename_i accepted
      rcases List.mem_cons.mp stops with rfl | later
      · rw [outside] at accepted
        cases accepted
      · rw [ih later]
    · rfl

theorem run_all (all : ∀ c ∈ text, within c = true) : run within text = text.length := by
  induction text with
  | nil => rfl
  | cons c rest ih =>
    rw [run, if_pos (all c List.mem_cons_self), ih fun d member => all d (List.mem_cons_of_mem _ member)]
    rfl

-- A run ends where something else follows the text.
theorem run_append_apart (within : Char → Bool) (text : Text)
    (apart : ∀ c, more.head? = some c → within c = false) :
    run within (text ++ more) = run within text := by
  induction text with
  | nil =>
    cases more with
    | nil => rfl
    | cons c more => simp [run, apart c rfl]
  | cons d rest ih => rw [List.cons_append, run, run, ih]

theorem quotedRest?_cons (plain : c ≠ '\\') (rest : Text) :
    quotedRest? quote (c :: rest)
      = if c == quote then some 1
        else if c == '\n' then none
        else (quotedRest? quote rest).map (· + 1) := by
  refine quotedRest?.eq_4 quote c rest ?_ ?_
  · exact fun same => absurd same plain
  · exact fun _ _ same => absurd same plain

theorem quotedOpen_cons (plain : c ≠ '\\') (rest : Text) :
    quotedOpen quote (c :: rest)
      = if c == quote || c == '\n' then false else quotedOpen quote rest := by
  refine quotedOpen.eq_4 quote c rest ?_ ?_
  · exact fun same => absurd same plain
  · exact fun _ _ same => absurd same plain

theorem quotedRest?_append (more : Text) (closed : quotedOpen quote text = false) :
    quotedRest? quote (text ++ more) = quotedRest? quote text := by
  fun_induction quotedRest? quote text with
  | case1 | case2 => cases closed
  | case3 c rest ih =>
    rw [quotedOpen] at closed
    rw [List.cons_append, List.cons_append, quotedRest?, ih closed]
  | case4 c rest single pair stops =>
    rw [List.cons_append, quotedRest?_cons (not_backslash single pair), if_pos stops]
  | case5 c rest single pair other broken =>
    rw [List.cons_append, quotedRest?_cons (not_backslash single pair), if_neg other, if_pos broken]
  | case6 c rest single pair other whole ih =>
    have plain := not_backslash single pair
    rw [quotedOpen_cons plain, if_neg (by simp [other, whole])] at closed
    rw [List.cons_append, quotedRest?_cons plain, if_neg other, if_neg whole, ih closed]

-- The end of a text falls neither into an escape nor between two characters that belong together.
structure Whole (text more : Text) : Prop where
  escape : text.getLast? ≠ some '\\'
  substitution : text.getLast? = some '$' → more.head? ≠ some '{'
  comment : text.getLast? = some '*' → more.head? ≠ some '/'

theorem Whole.tail (whole : Whole (c :: rest) more) : Whole rest more := by
  cases rest with
  | nil => exact ⟨nofun, nofun, nofun⟩
  | cons d rest =>
    obtain ⟨escape, substitution, comment⟩ := whole
    simp only [List.getLast?_cons_cons] at escape substitution comment
    exact ⟨escape, substitution, comment⟩

theorem EndsLine.whole (ends : EndsLine text) (more : Text) : Whole text more := by
  have last : ∀ c, c ≠ '\n' → text.getLast? ≠ some c := by
    rintro c other same
    exact other (Option.some.inj (same.symm.trans ends))
  exact ⟨last _ (by decide), fun same => absurd same (last _ (by decide)),
    fun same => absurd same (last _ (by decide))⟩

-- What stands open is read on in what follows.
theorem quotedRest?_open (more : Text) (isOpen : quotedOpen quote text = true)
    (whole : Whole text more) :
    quotedRest? quote (text ++ more) = (quotedRest? quote more).map (· + text.length) := by
  fun_induction quotedRest? quote text with
  | case1 => simp
  | case2 => exact absurd rfl whole.escape
  | case3 c rest ih =>
    rw [quotedOpen] at isOpen
    rw [List.cons_append, List.cons_append, quotedRest?, ih isOpen whole.tail.tail, Option.map_map]
    rfl
  | case4 c rest single pair stops =>
    rw [quotedOpen_cons (not_backslash single pair), if_pos (by simp [stops])] at isOpen
    cases isOpen
  | case5 c rest single pair other broken =>
    rw [quotedOpen_cons (not_backslash single pair), if_pos (by simp [broken])] at isOpen
    cases isOpen
  | case6 c rest single pair other unbroken ih =>
    have plain := not_backslash single pair
    rw [quotedOpen_cons plain, if_neg (by simp [other, unbroken])] at isOpen
    rw [List.cons_append, quotedRest?_cons plain, if_neg other, if_neg unbroken, ih isOpen whole.tail,
      Option.map_map]
    rfl

theorem templateRest?_text_cons (quote : c ≠ '\x60') (plain : c ≠ '\\')
    (single : ∀ later, c = '$' → rest = '{' :: later → False) :
    templateRest? .text (c :: rest) = (templateRest? .text rest).map (· + 1) := by
  refine templateRest?.eq_5 c rest quote ?_ ?_ single
  · exact fun _ _ same => absurd same plain
  · exact fun same => absurd same plain

theorem templateRest?_nested_cons (quote : c ≠ '\x60') (plain : c ≠ '\\') (rest : Text) :
    templateRest? .nested (c :: rest) = (templateRest? .nested rest).map (· + 1) := by
  refine templateRest?.eq_13 c rest quote ?_ ?_
  · exact fun _ _ same => absurd same plain
  · exact fun same => absurd same plain

theorem templateRest?_append (more : Text) (closed : templateEnd? part text = none) :
    templateRest? part (text ++ more) = templateRest? part text := by
  fun_induction templateEnd? part text with
  | case1 | case4 | case13 => cases closed
  | case2 => rfl
  | case3 c rest ih | case5 rest ih | case7 rest ih | case8 rest ih | case9 rest ih
  | case11 rest ih | case12 c rest ih | case15 rest ih =>
    simp only [List.cons_append, templateRest?, ih closed]
  | case6 c rest quote pair single dollar ih =>
    have plain := not_backslash single pair
    have dollar' : ∀ later, c = '$' → rest ++ more = '{' :: later → False := by
      intro later same opens
      cases rest with
      | nil => cases closed
      | cons d rest =>
        cases opens
        exact dollar rest same rfl
    rw [List.cons_append, templateRest?_text_cons quote plain dollar',
      templateRest?_text_cons quote plain dollar, ih closed]
  | case10 c rest brace quote other ih =>
    rw [List.cons_append, templateRest?.eq_9 _ _ brace quote other, templateRest?.eq_9 _ _ brace quote other,
      ih closed]
  | case14 c rest quote pair single ih =>
    have plain := not_backslash single pair
    rw [List.cons_append, templateRest?_nested_cons quote plain, templateRest?_nested_cons quote plain,
      ih closed]
  | case16 => rfl
  | case17 c rest brace other ih =>
    rw [List.cons_append, templateRest?.eq_16 _ _ brace other, templateRest?.eq_16 _ _ brace other,
      ih closed]

theorem templateRest?_open (more : Text) (isOpen : templateEnd? part text = some ending)
    (whole : Whole text more) :
    templateRest? part (text ++ more) = (templateRest? ending more).map (· + text.length) := by
  fun_induction templateEnd? part text with
  | case1 =>
    cases isOpen
    simp
  | case2 | case16 => cases isOpen
  | case4 | case13 => exact absurd rfl whole.escape
  | case3 c rest ih | case12 c rest ih =>
    simp only [List.cons_append, templateRest?, ih isOpen whole.tail.tail, Option.map_map]
    rfl
  | case5 rest ih =>
    simp only [List.cons_append, templateRest?, ih isOpen whole.tail.tail, Option.map_map]
    rfl
  | case7 rest ih | case8 rest ih | case9 rest ih | case11 rest ih | case15 rest ih =>
    simp only [List.cons_append, templateRest?, ih isOpen whole.tail, Option.map_map]
    rfl
  | case6 c rest quote pair single dollar ih =>
    have plain := not_backslash single pair
    have dollar' : ∀ later, c = '$' → rest ++ more = '{' :: later → False := by
      intro later same opens
      cases rest with
      | nil => exact whole.substitution (congrArg some same) (by rw [← List.nil_append more, opens]; rfl)
      | cons d rest =>
        cases opens
        exact dollar rest same rfl
    rw [List.cons_append, templateRest?_text_cons quote plain dollar', ih isOpen whole.tail,
      Option.map_map]
    rfl
  | case10 c rest brace quote other ih =>
    rw [List.cons_append, templateRest?.eq_9 _ _ brace quote other, ih isOpen whole.tail, Option.map_map]
    rfl
  | case14 c rest quote pair single ih =>
    rw [List.cons_append, templateRest?_nested_cons quote (not_backslash single pair),
      ih isOpen whole.tail, Option.map_map]
    rfl
  | case17 c rest brace other ih =>
    rw [List.cons_append, templateRest?.eq_16 _ _ brace other, ih isOpen whole.tail, Option.map_map]
    rfl

theorem blockCommentRest?_append (more : Text) (closed : blockCommentRest? text = some size) :
    blockCommentRest? (text ++ more) = some size := by
  fun_induction blockCommentRest? text generalizing size with
  | case1 => exact closed
  | case2 c rest other ih =>
    obtain ⟨inner, read, rfl⟩ := Option.map_eq_some_iff.mp closed
    have other' : ∀ later, c = '*' → rest ++ more = '/' :: later → False := by
      intro later same closes
      cases rest with
      | nil => cases read
      | cons d rest =>
        cases closes
        exact other rest same rfl
    rw [List.cons_append, blockCommentRest?.eq_2 _ _ other', ih read]
    rfl
  | case3 => cases closed

theorem blockCommentRest?_open (more : Text) (isOpen : blockCommentRest? text = none)
    (whole : Whole text more) :
    blockCommentRest? (text ++ more) = (blockCommentRest? more).map (· + text.length) := by
  fun_induction blockCommentRest? text with
  | case1 => cases isOpen
  | case2 c rest other ih =>
    have other' : ∀ later, c = '*' → rest ++ more = '/' :: later → False := by
      intro later same closes
      cases rest with
      | nil => exact whole.comment (congrArg some same) (by rw [← List.nil_append more, closes]; rfl)
      | cons d rest =>
        cases closes
        exact other rest same rfl
    rw [List.cons_append, blockCommentRest?.eq_2 _ _ other', ih (Option.map_eq_none_iff.mp isOpen) whole.tail,
      Option.map_map]
    rfl
  | case3 => simp

theorem regexRest?_class_cons (plain : c ≠ '\\') (unbroken : c ≠ '\n') (rest : Text) :
    regexRest? true (c :: rest) = (regexRest? (c != ']') rest).map (· + 1) := by
  refine regexRest?.eq_6 c rest ?_ unbroken ?_ ?_
  · exact fun same => absurd same plain
  · exact fun _ same => absurd same plain
  · exact fun _ _ same => absurd same plain

theorem regexRest?_cons (plain : c ≠ '\\') (unbroken : c ≠ '\n') (slash : c ≠ '/') (rest : Text) :
    regexRest? false (c :: rest) = (regexRest? (c == '[') rest).map (· + 1) := by
  refine regexRest?.eq_8 c rest ?_ unbroken ?_ ?_ slash
  · exact fun same => absurd same plain
  · exact fun _ same => absurd same plain
  · exact fun _ _ same => absurd same plain

-- A regex body does not reach over the end of its line.
theorem regexRest?_append (more : Text) (ends : EndsLine text) :
    regexRest? inClass (text ++ more) = regexRest? inClass text := by
  fun_induction regexRest? inClass text with
  | case1 | case2 => cases ends
  | case3 => simp [regexRest?]
  | case4 => simp [regexRest?]
  | case5 inClass c rest unbroken ih =>
    have later : EndsLine (c :: rest) := ends.tail (by decide)
    rw [List.cons_append, List.cons_append, regexRest?.eq_5 _ _ _ unbroken, ih (later.tail unbroken)]
  | case6 c rest single unbroken _ pair ih =>
    rw [List.cons_append, regexRest?_class_cons (not_backslash single pair) unbroken,
      ih (ends.tail unbroken)]
  | case7 => rfl
  | case8 c rest single unbroken _ pair slash ih =>
    rw [List.cons_append, regexRest?_cons (not_backslash single pair) unbroken slash,
      ih (ends.tail unbroken)]

theorem regexBody?_append (more : Text) (ends : EndsLine text) :
    regexBody? (text ++ more) = regexBody? text := by
  cases text with
  | nil => cases ends
  | cons c rest =>
    by_cases slash : c = '/'
    · subst slash
      have later : EndsLine rest := ends.tail (by decide)
      cases rest with
      | nil => cases later
      | cons d rest =>
        have same : regexRest? false (d :: rest ++ more) = regexRest? false (d :: rest) :=
          regexRest?_append more later
        rw [List.cons_append] at same
        simp only [List.cons_append, regexBody?, same]
    · rw [List.cons_append, regexBody?.eq_2 _ (by simp [slash]), regexBody?.eq_2 _ (by simp [slash])]

-- A reader that begins with two marks reads on in the text if what it reads behind them stays the same.
theorem marks_append {reader : Text → Option Nat} {m n : Char} (inner : Text → Option Nat)
    (reads : ∀ rest, reader (m :: n :: rest) = (inner rest).map (· + 2))
    (other : ∀ text, (∀ rest, text ≠ m :: n :: rest) → reader text = none) (mark : m ≠ '\n') (more : Text)
    (ends : EndsLine text) (same : ∀ rest, text = m :: n :: rest → inner (rest ++ more) = inner rest) :
    reader (text ++ more) = reader text := by
  by_cases marked : ∃ rest, text = m :: n :: rest
  · obtain ⟨rest, rfl⟩ := marked
    rw [List.cons_append, List.cons_append, reads, reads, same rest rfl]
  · have unmarked : ∀ rest, text ++ more ≠ m :: n :: rest := by
      intro rest parts
      match text with
      | [] => cases ends
      | [c] =>
        cases ends
        exact mark (List.cons.inj parts).1.symm
      | c :: d :: tail =>
        cases parts
        exact marked ⟨tail, rfl⟩
    rw [other _ unmarked, other _ fun rest parts => marked ⟨rest, parts⟩]

theorem lineComment?_append (more : Text) (ends : EndsLine text) :
    lineComment? (text ++ more) = lineComment? text := by
  refine marks_append (fun rest => some (run (· != '\n') rest)) (fun _ => rfl) (fun _ => lineComment?.eq_2 _)
    (by decide) more ends ?_
  rintro rest rfl
  have later : EndsLine rest := (ends.tail (by decide)).tail (by decide)
  rw [run_append _ more later.mem rfl]

theorem blockComment?_append (more : Text) (ends : EndsLine text) (closed : opensHere text = false) :
    blockComment? (text ++ more) = blockComment? text := by
  refine marks_append blockCommentRest? (fun _ => rfl) (fun _ => blockComment?.eq_2 _) (by decide) more ends ?_
  rintro rest rfl
  have closes : (blockCommentRest? rest).isSome := by simpa [opensHere] using closed
  obtain ⟨size, read⟩ := Option.isSome_iff_exists.mp closes
  rw [read, blockCommentRest?_append more read]

theorem comment?_append (more : Text) (ends : EndsLine text) (closed : opensHere text = false) :
    comment? (text ++ more) = comment? text := by
  rw [comment?, comment?, lineComment?_append more ends, blockComment?_append more ends closed]

theorem string?_append (more : Text) (closed : opensHere text = false) (nonempty : text ≠ []) :
    string? (text ++ more) = string? text := by
  obtain ⟨c, rest, rfl⟩ := List.exists_cons_of_ne_nil nonempty
  rw [List.cons_append]
  by_cases double : c = '"'
  · subst double
    simp only [string?, quotedRest?_append more closed]
  · by_cases single : c = '\''
    · subst single
      simp only [string?, quotedRest?_append more closed]
    · rw [string?.eq_3 _ (by simp [double]) (by simp [single]),
        string?.eq_3 _ (by simp [double]) (by simp [single])]

theorem template?_append (more : Text) (closed : opensHere text = false) (nonempty : text ≠ []) :
    template? (text ++ more) = template? text := by
  obtain ⟨c, rest, rfl⟩ := List.exists_cons_of_ne_nil nonempty
  rw [List.cons_append]
  by_cases quote : c = '\x60'
  · subst quote
    have closed' : templateEnd? .text rest = none := by simpa [opensHere] using closed
    simp only [template?, templateRest?_append more closed']
  · rw [template?.eq_2 _ (by simp [quote]), template?.eq_2 _ (by simp [quote])]

end Lexeme

namespace Masking

open Lexeme

theorem nextPiece_append (preceding : Preceding) (ends : EndsLine text)
    (closed : opensHere text = false)
    (apart : ∀ c, more.head? = some c → Text.isBlank c = false) :
    nextPiece preceding (text ++ more) = nextPiece preceding text := by
  have nonempty : text ≠ [] := by
    rintro rfl
    cases ends
  have blanks : blanks? (text ++ more) = blanks? text := by
    rw [blanks?, blanks?, run1?, run1?, run_append_apart _ text apart]
  have word : run1? Text.isNameChar (text ++ more) = run1? Text.isNameChar text := by
    rw [run1?, run1?, run_append _ more ends.mem (by decide)]
  have flags : ∀ body, regexBody? text = some body →
      run Char.isAlpha ((text ++ more).drop body) = run Char.isAlpha (text.drop body) := by
    intro body read
    obtain ⟨bounded, _, line⟩ := regexBody?_line read
    have inside : body < text.length := by
      refine Nat.lt_of_le_of_ne bounded fun all => line ?_
      rw [all, List.take_length]
      exact ends.mem
    rw [List.drop_append_of_le_length bounded]
    exact run_append _ more (ends.drop inside).mem (by decide)
  have regex : (regexBody? (text ++ more)).map (fun body =>
        (PieceKind.regex body, body + run Char.isAlpha ((text ++ more).drop body) - 1))
      = (regexBody? text).map fun body =>
        (PieceKind.regex body, body + run Char.isAlpha (text.drop body) - 1) := by
    rw [regexBody?_append more ends]
    cases read : regexBody? text with
    | none => rfl
    | some body => simp only [Option.map_some, flags body read]
  unfold nextPiece
  rw [regex, blanks, comment?_append more ends closed, string?_append more closed nonempty,
    template?_append more closed nonempty, word]

theorem nextPiece_le (read : nextPiece preceding (c :: rest) = piece) :
    piece.2 ≤ rest.length := by
  have plain : ∀ (kind : PieceKind) (size? : Option Nat),
      (∀ size, size? = some size → size ≤ rest.length + 1) →
        size?.map (fun size => (kind, size - 1)) = some piece → piece.2 ≤ rest.length := by
    intro kind size? bounded read
    obtain ⟨size, found, rfl⟩ := Option.map_eq_some_iff.mp read
    exact Nat.sub_le_of_le_add (bounded size found)
  have run1 : ∀ within size, run1? within (c :: rest) = some size → size ≤ rest.length + 1 := by
    intro within size found
    have bounded := run_le within (c :: rest)
    rwa [run1?_run found] at bounded
  rcases Option.getD_eq_iff.mp read with found | ⟨_, rfl⟩
  · simp only [Option.orElse_eq_orElse, Option.orElse_eq_or, Option.or_eq_some_iff] at found
    rcases found with regex | ⟨_, blanks | ⟨_, comment | ⟨_, string | ⟨_, template | ⟨_, word⟩⟩⟩⟩⟩
    · split at regex
      · obtain ⟨body, readBody, rfl⟩ := Option.map_eq_some_iff.mp regex
        have bounded := (regexBody?_line readBody).1
        have flags := run_le Char.isAlpha ((c :: rest).drop body)
        rw [List.length_drop] at flags
        rw [List.length_cons] at bounded flags
        dsimp only
        omega
      · cases regex
    · exact plain _ _ (run1 _) blanks
    · exact plain _ _ (fun size => comment?_le) comment
    · exact plain _ _ (fun size => string?_le) string
    · exact plain _ _ (fun size => template?_le) template
    · exact plain _ _ (run1 _) word
  · exact Nat.zero_le _

-- What the reading of a text comes to.
def readThrough (reading : Reading) (pieces : List Piece) : Reading :=
  pieces.foldl (fun reading piece => reading.after piece.kind piece.text) reading

-- No piece begins what the text does not close.
def settled : List Piece → Bool
  | [] => true
  | piece :: later =>
    !opensHere (piece.text ++ later.flatMap Piece.text) && settled later

theorem piecesFrom_cons (read : nextPiece reading.preceding (c :: rest) = (kind, more)) :
    piecesFrom reading (c :: rest) = ⟨kind, c :: rest.take more⟩
      :: piecesFrom (reading.after kind (c :: rest.take more)) (rest.drop more) := by
  rw [piecesFrom, read]

-- The first of the pieces is the one that is read at the start of the text.
theorem piecesFrom_eq_cons (split : piecesFrom reading text = piece :: later) :
    ∃ c rest more, text = c :: rest ∧ nextPiece reading.preceding (c :: rest) = (piece.kind, more) ∧
      piece.text = c :: rest.take more ∧
      piecesFrom (reading.after piece.kind piece.text) (rest.drop more) = later := by
  cases text with
  | nil =>
    rw [piecesFrom] at split
    cases split
  | cons c rest =>
    obtain ⟨⟨kind, more⟩, read⟩ : ∃ next, nextPiece reading.preceding (c :: rest) = next := ⟨_, rfl⟩
    rw [piecesFrom_cons read] at split
    obtain ⟨rfl, behind⟩ := List.cons.inj split
    exact ⟨c, rest, more, rfl, read, rfl, behind⟩

-- A settled text is divided as it is, whatever follows it.
theorem piecesFrom_append (ends : text = [] ∨ EndsLine text)
    (closed : settled (piecesFrom reading text) = true)
    (apart : ∀ c, more.head? = some c → Text.isBlank c = false) :
    piecesFrom reading (text ++ more)
      = piecesFrom reading text ++ piecesFrom (readThrough reading (piecesFrom reading text)) more := by
  fun_induction piecesFrom reading text with
  | case1 => rfl
  | case2 reading c rest kind size read text ih =>
    have whole := piecesFrom_texts (reading.after kind text) (rest.drop size)
    have parts : text ++ rest.drop size = c :: rest := by
      rw [List.cons_append, List.take_append_drop]
    simp only [settled, whole, parts, Bool.and_eq_true, Bool.not_eq_true'] at closed
    have ends' : EndsLine (c :: rest) := ends.resolve_left (List.cons_ne_nil _ _)
    have bounded := nextPiece_le read
    have read' : nextPiece reading.preceding (c :: (rest ++ more)) = (kind, size) :=
      (nextPiece_append reading.preceding ends' closed.1 apart).trans read
    rw [List.cons_append, piecesFrom_cons read', List.take_append_of_le_length bounded,
      List.drop_append_of_le_length bounded, ih (ends'.behind size) closed.2]
    rfl

-- A text that closes every literal and every comment that may be open in front of it.
structure Closes (more : Text) : Prop where
  quoted : ∀ quote, quote = '"' ∨ quote = '\'' → (quotedRest? quote more).isSome
  template : ∀ part, (templateRest? part more).isSome
  comment : (blockCommentRest? more).isSome

-- A literal that is open at the end of a text reaches over the end.
theorem nextPiece_open (preceding : Preceding) (ends : EndsLine (c :: rest))
    (isOpen : opensHere (c :: rest) = true) (closes : Closes more) :
    rest.length < (nextPiece preceding (c :: (rest ++ more))).2 := by
  have literal : ∀ size, regexBody? (c :: (rest ++ more)) = none →
      blanks? (c :: (rest ++ more)) = none → comment? (c :: (rest ++ more)) = none →
      (string? (c :: (rest ++ more)) = some size ∨
        string? (c :: (rest ++ more)) = none ∧ template? (c :: (rest ++ more)) = some size) →
      (nextPiece preceding (c :: (rest ++ more))).2 = size - 1 := by
    intro size regex blanks comment read
    rcases read with string | ⟨string, template⟩
    · simp [nextPiece, regex, blanks, comment, string]
    · simp [nextPiece, regex, blanks, comment, string, template]
  -- Strings in either kind of quotes are read alike.
  have quoted : c = '"' ∨ c = '\'' → quotedOpen c rest = true →
      rest.length < (nextPiece preceding (c :: (rest ++ more))).2 := by
    intro mark stands
    obtain ⟨count, read⟩ := Option.isSome_iff_exists.mp (closes.quoted c mark)
    have inner := quotedRest?_open more stands ((ends.whole more).tail)
    rw [read] at inner
    have string : string? (c :: (rest ++ more)) = some (count + rest.length + 1) := by
      rcases mark with rfl | rfl <;> (rw [string?, inner]; rfl)
    have positive := (quotedRest?_bounds read).2
    rcases mark with rfl | rfl <;> (rw [literal _ rfl rfl rfl (.inl string)]; omega)
  unfold opensHere at isOpen
  split at isOpen
  · rename_i later same
    cases same
    exact quoted (.inl rfl) isOpen
  · rename_i later same
    cases same
    exact quoted (.inr rfl) isOpen
  · rename_i later same
    cases same
    obtain ⟨part, stands⟩ := Option.isSome_iff_exists.mp isOpen
    obtain ⟨count, read⟩ := Option.isSome_iff_exists.mp (closes.template part)
    have template : template? ('\x60' :: (rest ++ more)) = some (count + rest.length + 1) := by
      rw [template?, templateRest?_open more stands ((ends.whole more).tail), read]
      rfl
    have positive := (templateRest?_bounds read).2
    rw [literal _ rfl rfl rfl (.inr ⟨rfl, template⟩)]
    omega
  · rename_i later same
    cases same
    obtain ⟨count, read⟩ := Option.isSome_iff_exists.mp closes.comment
    have isOpen' : blockCommentRest? later = none := by simpa using isOpen
    have later_ends : EndsLine later := (ends.tail (by decide)).tail (by decide)
    have comment : comment? ('/' :: '*' :: (later ++ more)) = some (count + later.length + 2) := by
      rw [comment?, blockComment?, blockCommentRest?_open more isOpen' (later_ends.whole more), read]
      rfl
    have positive := (blockCommentRest?_bounds read).2
    have regex : regexBody? ('/' :: '*' :: (later ++ more)) = none := rfl
    have blanks : blanks? ('/' :: '*' :: (later ++ more)) = none := rfl
    have size : (nextPiece preceding ('/' :: '*' :: (later ++ more))).2 = count + later.length + 1 := by
      simp [nextPiece, regex, blanks, comment]
    rw [List.cons_append, size, List.length_cons]
    omega
  · cases isOpen

-- A text that is not settled has a piece that goes on in what follows, if that closes it.
theorem piecesFrom_crosses (ends : text = [] ∨ EndsLine text)
    (unsettled : settled (piecesFrom reading text) = false)
    (apart : ∀ c, more.head? = some c → Text.isBlank c = false) (closes : Closes more) :
    ∃ front piece back, piecesFrom reading (text ++ more) = front ++ piece :: back ∧
      (front.flatMap Piece.text).length < text.length ∧
      text.length < (front.flatMap Piece.text).length + piece.text.length := by
  fun_induction piecesFrom reading text with
  | case1 => cases unsettled
  | case2 reading c rest kind size read text ih =>
    have whole := piecesFrom_texts (reading.after kind text) (rest.drop size)
    have parts : text ++ rest.drop size = c :: rest := by
      rw [List.cons_append, List.take_append_drop]
    have ends' : EndsLine (c :: rest) := ends.resolve_left (List.cons_ne_nil _ _)
    cases isOpen : opensHere (c :: rest) with
    | true =>
      have reaches := nextPiece_open reading.preceding ends' isOpen closes
      obtain ⟨⟨kind', size'⟩, read'⟩ : ∃ piece, nextPiece reading.preceding (c :: (rest ++ more)) = piece :=
        ⟨_, rfl⟩
      have bounded := nextPiece_le read'
      rw [read'] at reaches
      refine ⟨[], _, _, by rw [List.cons_append, piecesFrom_cons read']; rfl, Nat.succ_pos _, ?_⟩
      simp only [List.flatMap_nil, List.length_nil, List.length_cons, List.length_take] at bounded ⊢
      omega
    | false =>
      simp only [settled, whole, parts, isOpen, Bool.not_false, Bool.true_and] at unsettled
      have bounded := nextPiece_le read
      have read' : nextPiece reading.preceding (c :: (rest ++ more)) = (kind, size) :=
        (nextPiece_append reading.preceding ends' isOpen apart).trans read
      have taken : text.length = size + 1 := by
        rw [List.length_cons, List.length_take, Nat.min_eq_left bounded]
      obtain ⟨front, piece, back, found, before, beyond⟩ := ih (ends'.behind size) unsettled
      refine ⟨⟨kind, text⟩ :: front, piece, back, ?_, ?_, ?_⟩
      · rw [List.cons_append, piecesFrom_cons read', List.take_append_of_le_length bounded,
          List.drop_append_of_le_length bounded, found]
        rfl
      · simp only [List.flatMap_cons, List.length_append, taken, List.length_cons,
          List.length_drop] at before ⊢
        omega
      · simp only [List.flatMap_cons, List.length_append, taken, List.length_cons,
          List.length_drop] at beyond ⊢
        omega

-- Readings that differ only in open parentheses, all without a condition, below those of the first.
def Alike (alone within : Reading) : Prop :=
  within.preceding = alone.preceding ∧
    ∃ count, within.conditions = alone.conditions ++ List.replicate count false

theorem Alike.after (alike : Alike alone within) (kind : PieceKind) (text : Text) :
    Alike (alone.after kind text) (within.after kind text) := by
  obtain ⟨same, count, below⟩ := alike
  cases kind with
  | hashbang | blanks | comment => exact ⟨same, count, below⟩
  | literal | regex | word => exact ⟨rfl, count, below⟩
  | mark =>
    unfold Reading.after
    dsimp only
    split
    · exact ⟨rfl, count, by rw [below, same, List.cons_append]⟩
    · cases heads : alone.conditions with
      | nil =>
        rw [heads, List.nil_append] at below
        cases count with
        | zero => exact ⟨by simp [below], 0, by simp [below]⟩
        | succ count =>
          rw [List.replicate_succ] at below
          exact ⟨by simp [below], count, by simp [below]⟩
      | cons head conditions =>
        rw [heads, List.cons_append] at below
        exact ⟨by simp [below], count, by simp [below]⟩
    · exact ⟨rfl, count, below⟩
    · exact ⟨same, count, below⟩

theorem piecesFrom_alike (alike : Alike alone within) (source : Text) :
    piecesFrom within source = piecesFrom alone source := by
  fun_induction piecesFrom alone source generalizing within with
  | case1 => rw [piecesFrom]
  | case2 reading c rest kind size read text =>
    rename_i ih
    rw [← alike.1] at read
    rw [piecesFrom_cons read, ih (alike.after kind text)]

theorem readThrough_alike (alike : Alike alone within) (pieces : List Piece) :
    Alike (readThrough alone pieces) (readThrough within pieces) := by
  induction pieces generalizing alone within with
  | nil => exact alike
  | cons piece pieces ih => exact ih (alike.after piece.kind piece.text)

theorem readThrough_append (reading : Reading) (pieces later : List Piece) :
    readThrough reading (pieces ++ later) = readThrough (readThrough reading pieces) later :=
  List.foldl_append

end Masking
end ModuleBundler
