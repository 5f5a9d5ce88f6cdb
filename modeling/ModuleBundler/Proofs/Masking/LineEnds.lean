import ModuleBundler.Proofs.Masking.Division
import ModuleBundler.Proofs.Masking.Slashes

/-!
A line that is read with and without a semicolon at its end. What is read before the end of the line is
the same, and what reaches over it is longer by the semicolon.
-/
namespace ModuleBundler

-- The end of a line, a semicolon in front of it or not.
inductive LineEnd : Text → Prop
  | bare : LineEnd ('\n' :: later)
  | closed : LineEnd (';' :: '\n' :: later)

-- A text that ends with a visible character, which takes no other one with it.
def Solid (text : Text) : Prop :=
  ∃ c, text.getLast? = some c ∧ Text.isBlank c = false ∧ c ≠ '\\'

variable {text more : Text}

instance (text : Text) : Decidable (Solid text) :=
  decidable_of_iff (text.getLast?.any (fun c => !Text.isBlank c && c != '\\') = true) (by simp [Solid, Option.any_eq_true])

theorem Solid.nonempty (solid : Solid text) : text ≠ [] := by
  rintro rfl
  obtain ⟨c, last, _⟩ := solid
  cases last

theorem solid_chars (nonempty : text ≠ []) (chars : ∀ c ∈ text,
    Text.isBlank c = false ∧ c ≠ '\\') : Solid text :=
  ⟨_, List.getLast?_eq_some_getLast nonempty, chars _ (List.getLast_mem nonempty)⟩

theorem visible_name (named : Text.isNameChar c = true) : Text.isBlank c = false ∧ c ≠ '\\' := by
  constructor
  · refine Bool.eq_false_iff.mpr fun blank => ?_
    rw [Text.isNameChar_of_isBlank blank] at named
    cases named
  · rintro rfl
    exact absurd named (by decide)

theorem solid_name (named : Text.IsName text) : Solid text :=
  solid_chars (Masking.spelled_of_isName named).1 fun c among => visible_name (named.chars c among)

theorem Solid.behind (solid : Solid text) (front : Text) : Solid (front ++ text) := by
  have nonempty := solid.nonempty
  obtain ⟨c, last, visible⟩ := solid
  exact ⟨c, by rw [List.getLast?_append_of_ne_nil _ nonempty, last], visible⟩

theorem Solid.drop (solid : Solid text) (inside : count < text.length) : Solid (text.drop count) := by
  obtain ⟨c, last, visible⟩ := solid
  exact ⟨c, by rw [List.getLast?_drop, if_neg (Nat.not_le.mpr inside), last], visible⟩

theorem Solid.rest {rest : Text} (solid : Solid (c :: rest)) : rest = [] ∨ Solid rest := by
  obtain ⟨d, last, visible⟩ := solid
  cases rest with
  | nil => exact .inl rfl
  | cons e rest => exact .inr ⟨d, List.getLast?_cons_cons ▸ last, visible⟩

theorem LineEnd.head (ends : LineEnd more) : ∃ c later, more = c :: later ∧ (c = '\n' ∨ c = ';') := by
  cases ends with
  | bare => exact ⟨_, _, rfl, .inl rfl⟩
  | closed => exact ⟨_, _, rfl, .inr rfl⟩

theorem LineEnd.apart (ends : LineEnd more) {within : Char → Bool} (line : within '\n' = false)
    (mark : within ';' = false) : ∀ c, more.head? = some c → within c = false := by
  obtain ⟨c, later, rfl, rfl | rfl⟩ := ends.head
  · rintro _ ⟨⟩
    exact line
  · rintro _ ⟨⟩
    exact mark

theorem Solid.whole (solid : Solid text) (ends : LineEnd more) : Lexeme.Whole text more := by
  obtain ⟨c, last, _, unescaped⟩ := solid
  have other : ∀ d, d ≠ '\n' → d ≠ ';' → more.head? ≠ some d := by
    intro d line mark same
    obtain ⟨c, _, rfl, rfl | rfl⟩ := ends.head
    · exact line (Option.some.inj same).symm
    · exact mark (Option.some.inj same).symm
  refine ⟨fun same => ?_, fun _ => other _ (by decide) (by decide), fun _ => other _ (by decide) (by decide)⟩
  exact unescaped (Option.some.inj (last.symm.trans same))

namespace Lexeme

theorem run1?_lineEnd (ends : LineEnd more) {within : Char → Bool} (line : within '\n' = false)
    (mark : within ';' = false) (text : Text) : run1? within (text ++ more) = run1? within text := by
  rw [run1?, run1?, run_append_apart _ text (ends.apart line mark)]

theorem blanks?_lineEnd (solid : Solid text) (more : Text) : blanks? (text ++ more) = blanks? text := by
  obtain ⟨c, last, visible, _⟩ := solid
  rw [blanks?, blanks?, run1?, run1?, run_append _ more (List.mem_of_getLast? last) visible]

theorem quotedRest?_lineEnd (ends : LineEnd more) (whole : Whole text more)
    (quotes : quote = '"' ∨ quote = '\'') : quotedRest? quote (text ++ more) = quotedRest? quote text := by
  cases isOpen : quotedOpen quote text with
  | false => exact quotedRest?_append more isOpen
  | true =>
    have broken : quotedRest? quote more = none := by
      cases ends <;> rcases quotes with rfl | rfl <;> rfl
    have alone := quotedRest?_open [] isOpen ⟨whole.escape, fun _ => nofun, fun _ => nofun⟩
    rw [List.append_nil] at alone
    rw [quotedRest?_open more isOpen whole, broken, alone]
    rfl

theorem string?_lineEnd (ends : LineEnd more) (solid : Solid text) :
    string? (text ++ more) = string? text := by
  have whole := solid.whole ends
  obtain ⟨c, rest, rfl⟩ := List.exists_cons_of_ne_nil solid.nonempty
  by_cases double : c = '"'
  · subst double
    rw [List.cons_append, string?, string?, quotedRest?_lineEnd ends whole.tail (.inl rfl)]
  · by_cases single : c = '\''
    · subst single
      rw [List.cons_append, string?, string?, quotedRest?_lineEnd ends whole.tail (.inr rfl)]
    · rw [List.cons_append, string?.eq_3 _ (by simp [double]) (by simp [single]),
        string?.eq_3 _ (by simp [double]) (by simp [single])]

theorem regexRest?_lineEnd (ends : LineEnd more) (text : Text) :
    regexRest? inClass (text ++ more) = regexRest? inClass text := by
  fun_induction regexRest? inClass text with
  | case1 inClass => cases ends <;> cases inClass <;> rfl
  | case2 inClass => cases ends <;> cases inClass <;> rfl
  | case3 | case4 => simp [regexRest?]
  | case5 inClass c rest unbroken ih =>
    rw [List.cons_append, List.cons_append, regexRest?.eq_5 _ _ _ unbroken, ih]
  | case6 c rest single unbroken _ pair ih =>
    rw [List.cons_append, regexRest?_class_cons (not_backslash single pair) unbroken, ih]
  | case7 => simp [regexRest?]
  | case8 c rest single unbroken _ pair slash ih =>
    rw [List.cons_append, regexRest?_cons (not_backslash single pair) unbroken slash, ih]

theorem regexBody?_lineEnd (ends : LineEnd more) (nonempty : text ≠ []) :
    regexBody? (text ++ more) = regexBody? text := by
  obtain ⟨c, rest, rfl⟩ := List.exists_cons_of_ne_nil nonempty
  by_cases slash : c = '/'
  · subst slash
    cases rest with
    | nil => cases ends <;> rfl
    | cons d rest =>
      have same : regexRest? false (d :: rest ++ more) = regexRest? false (d :: rest) :=
        regexRest?_lineEnd ends (d :: rest)
      rw [List.cons_append] at same
      simp only [List.cons_append, regexBody?, same]
  · rw [List.cons_append, regexBody?.eq_2 _ (by simp [slash]), regexBody?.eq_2 _ (by simp [slash])]

-- Flags end with the line.
theorem flags_lineEnd (ends : LineEnd more) {within : Char → Bool} (line : within '\n' = false)
    (mark : within ';' = false) (read : regexBody? text = some body) :
    run within ((text ++ more).drop body) = run within (text.drop body) := by
  rw [List.drop_append_of_le_length (regexBody?_line read).1,
    run_append_apart within _ (ends.apart line mark)]

-- What is read at the beginning of a text in front of a line break, and in front of a semicolon and the
-- line break: the same within the text, or what reaches at least this far.
inductive Reach (low : Nat) (within : Option Nat) : Option Nat → Option Nat → Prop
  | inside : Reach low within within within
  | past (far : low ≤ size) : Reach low within (some size) (some (size + 1))

theorem Reach.sizes (reach : Reach low within bare closed) :
    bare = within ∧ closed = within ∨ ∃ size, low ≤ size ∧ bare = some size ∧ closed = some (size + 1) := by
  cases reach with
  | inside => exact .inl ⟨rfl, rfl⟩
  | past far => exact .inr ⟨_, far, rfl, rfl⟩

theorem Reach.or (first : Reach low within bare closed) (second : Reach low within' bare' closed') :
    Reach low (within.or within') (bare.or bare') (closed.or closed') := by
  cases first with
  | inside =>
    cases within with
    | none => exact second
    | some size => exact .inside
  | past far => exact .past far

variable {later : Text}

theorem run_line (text later : Text) :
    run (· != '\n') text < text.length ∧ (∀ more, run (· != '\n') (text ++ more) = run (· != '\n') text) ∨
      run (· != '\n') (text ++ '\n' :: later) = text.length ∧
        run (· != '\n') (text ++ ';' :: '\n' :: later) = text.length + 1 := by
  by_cases broken : '\n' ∈ text
  · refine .inl ⟨Nat.lt_of_le_of_ne (run_le _ text) fun all => ?_,
      fun more => run_append _ more broken (by decide)⟩
    have kept := run_within (· != '\n') text
    rw [all, List.take_length] at kept
    exact absurd (kept _ broken) (by decide)
  · right
    have unbroken : ∀ c ∈ text, (c != '\n') = true := by
      intro c member
      rw [bne_iff_ne]
      rintro rfl
      exact broken member
    have stops : ∀ front : Text, (∀ c ∈ front, (c != '\n') = true) →
        run (· != '\n') (front ++ '\n' :: later) = front.length := by
      intro front all
      rw [run_append_apart _ front (by rintro _ ⟨⟩; decide), run_all all]
    refine ⟨stops text unbroken, ?_⟩
    have behind := stops (text ++ [';']) (List.forall_mem_append.mpr ⟨unbroken, by decide⟩)
    simpa using behind

theorem Reach.map (reach : Reach low within bare closed) (size : Nat) :
    Reach (low + size) (within.map (· + size)) (bare.map (· + size)) (closed.map (· + size)) := by
  cases reach with
  | inside => exact .inside
  | @past inner far =>
    have behind : inner + 1 + size = inner + size + 1 := by omega
    simp only [Option.map_some, behind]
    exact .past (Nat.add_le_add_right far size)

theorem Reach.weaken (reach : Reach low within bare closed) (below : lower ≤ low) :
    Reach lower within bare closed := by
  cases reach with
  | inside => exact .inside
  | past far => exact .past (Nat.le_trans below far)

-- Where the text is all inside, as much is read behind it in both cases, and the semicolon with it.
theorem Reach.behind (onward : Option Nat) (size : Nat) : Reach (size + 1) none
    ((onward.map (· + 1)).map (· + size)) (((onward.map (· + 1)).map (· + 1)).map (· + size)) := by
  cases onward with
  | none => exact .inside
  | some more =>
    have further : more + 1 + 1 + size = more + 1 + size + 1 := by omega
    simp only [Option.map_some, further]
    exact .past (by omega)

theorem blockCommentRest?_reach (bare : Whole text ('\n' :: later)) (closed : Whole text (';' :: '\n' :: later)) :
    Reach (text.length + 1) (blockCommentRest? text) (blockCommentRest? (text ++ '\n' :: later))
      (blockCommentRest? (text ++ ';' :: '\n' :: later)) := by
  cases isOpen : blockCommentRest? text with
  | some size =>
    rw [blockCommentRest?_append _ isOpen, blockCommentRest?_append _ isOpen]
    exact .inside
  | none =>
    have step : ∀ c rest, c ≠ '*' → blockCommentRest? (c :: rest) = (blockCommentRest? rest).map (· + 1) := by
      intro c rest other
      exact blockCommentRest?.eq_2 _ _ fun _ same => absurd same other
    rw [blockCommentRest?_open _ isOpen bare, blockCommentRest?_open _ isOpen closed, step _ _ (by decide),
      step _ _ (by decide), step _ _ (by decide)]
    exact .behind _ _

theorem templateRest?_reach (bare : Whole text ('\n' :: later)) (closed : Whole text (';' :: '\n' :: later)) :
    Reach (text.length + 1) (templateRest? part text) (templateRest? part (text ++ '\n' :: later))
      (templateRest? part (text ++ ';' :: '\n' :: later)) := by
  cases isOpen : templateEnd? part text with
  | none =>
    rw [templateRest?_append _ isOpen, templateRest?_append _ isOpen]
    exact .inside
  | some ending =>
    have step : ∀ c rest, c = '\n' ∨ c = ';' →
        templateRest? ending (c :: rest) = (templateRest? ending rest).map (· + 1) := by
      rintro c rest (rfl | rfl)
      · cases ending <;> simp [templateRest?]
      · cases ending <;> simp [templateRest?]
    have alone := templateRest?_open [] isOpen ⟨bare.escape, by rintro _ ⟨⟩, by rintro _ ⟨⟩⟩
    rw [List.append_nil] at alone
    rw [templateRest?_open _ isOpen bare, templateRest?_open _ isOpen closed, step _ _ (.inr rfl),
      step _ _ (.inl rfl), alone]
    have ended : templateRest? ending [] = none := by cases ending <;> rfl
    rw [ended]
    exact .behind _ _

-- A reader that begins with two marks and goes on behind them.
theorem behind_marks {reader inner : Text → Option Nat} {m n : Char}
    (reads : ∀ rest, reader (m :: n :: rest) = (inner rest).map (· + 2))
    (other : ∀ text, (∀ rest, text ≠ m :: n :: rest) → reader text = none) (line : n ≠ '\n') (mark : n ≠ ';')
    (nonempty : text ≠ [])
    (reach : ∀ rest, text = m :: n :: rest → Reach rest.length (inner rest) (inner (rest ++ '\n' :: later))
      (inner (rest ++ ';' :: '\n' :: later))) :
    Reach text.length (reader text) (reader (text ++ '\n' :: later)) (reader (text ++ ';' :: '\n' :: later)) := by
  by_cases marked : ∃ rest, text = m :: n :: rest
  · obtain ⟨rest, rfl⟩ := marked
    rw [List.cons_append, List.cons_append, List.cons_append, List.cons_append, reads, reads, reads]
    exact (reach rest rfl).map 2
  · have unmarked : ∀ more, LineEnd more → ∀ rest, text ++ more ≠ m :: n :: rest := by
      intro more ends rest same
      obtain ⟨c, tail, rfl⟩ := List.exists_cons_of_ne_nil nonempty
      cases tail with
      | nil =>
        obtain ⟨c, _, rfl, rfl | rfl⟩ := ends.head
        · exact line (List.cons.inj (List.cons.inj same).2).1.symm
        · exact mark (List.cons.inj (List.cons.inj same).2).1.symm
      | cons d tail =>
        cases same
        exact marked ⟨tail, rfl⟩
    rw [other text fun rest same => marked ⟨rest, same⟩, other _ (unmarked _ .bare),
      other _ (unmarked _ .closed)]
    exact .inside

theorem line_reach (text later : Text) :
    Reach text.length (some (run (· != '\n') text)) (some (run (· != '\n') (text ++ '\n' :: later)))
      (some (run (· != '\n') (text ++ ';' :: '\n' :: later))) := by
  rcases run_line text later with ⟨_, same⟩ | ⟨bare, closed⟩
  · rw [same, same]
    exact .inside
  · rw [bare, closed]
    exact .past (Nat.le_refl _)

theorem hashbang?_reach (nonempty : text ≠ []) :
    Reach text.length (hashbang? text) (hashbang? (text ++ '\n' :: later))
      (hashbang? (text ++ ';' :: '\n' :: later)) :=
  behind_marks (fun _ => rfl) (fun _ => hashbang?.eq_2 _) (by decide) (by decide) nonempty
    fun rest _ => line_reach rest later

theorem lineComment?_reach (nonempty : text ≠ []) :
    Reach text.length (lineComment? text) (lineComment? (text ++ '\n' :: later))
      (lineComment? (text ++ ';' :: '\n' :: later)) :=
  behind_marks (fun _ => rfl) (fun _ => lineComment?.eq_2 _) (by decide) (by decide) nonempty
    fun rest _ => line_reach rest later

theorem blockComment?_reach (bare : Whole text ('\n' :: later)) (closed : Whole text (';' :: '\n' :: later))
    (nonempty : text ≠ []) :
    Reach text.length (blockComment? text) (blockComment? (text ++ '\n' :: later))
      (blockComment? (text ++ ';' :: '\n' :: later)) := by
  refine behind_marks (fun _ => rfl) (fun _ => blockComment?.eq_2 _) (by decide) (by decide) nonempty ?_
  rintro rest rfl
  exact (blockCommentRest?_reach bare.tail.tail closed.tail.tail).weaken (Nat.le_succ _)

theorem comment?_reach (bare : Whole text ('\n' :: later)) (closed : Whole text (';' :: '\n' :: later))
    (nonempty : text ≠ []) :
    Reach text.length (comment? text) (comment? (text ++ '\n' :: later))
      (comment? (text ++ ';' :: '\n' :: later)) :=
  (lineComment?_reach nonempty).or (blockComment?_reach bare closed nonempty)

theorem template?_reach (bare : Whole text ('\n' :: later)) (closed : Whole text (';' :: '\n' :: later))
    (nonempty : text ≠ []) :
    Reach (text.length + 1) (template? text) (template? (text ++ '\n' :: later))
      (template? (text ++ ';' :: '\n' :: later)) := by
  obtain ⟨c, rest, rfl⟩ := List.exists_cons_of_ne_nil nonempty
  by_cases quote : c = '\x60'
  · subst quote
    exact (templateRest?_reach bare.tail closed.tail).map 1
  · have other : ∀ rest, template? (c :: rest) = none := fun rest => template?.eq_2 _ (by simp [quote])
    rw [List.cons_append, List.cons_append, other, other, other]
    exact .inside

end Lexeme

namespace Masking
open Lexeme

variable {later : Text}

theorem nextPiece_reach (solid : Solid text) (preceding : Preceding) (later : Text) :
    nextPiece preceding (text ++ '\n' :: later) = nextPiece preceding text ∧
        nextPiece preceding (text ++ ';' :: '\n' :: later) = nextPiece preceding text ∨
      ∃ kind size, (kind = .comment ∨ kind = .literal) ∧ text.length ≤ size + 1 ∧
        nextPiece preceding (text ++ '\n' :: later) = (kind, size) ∧
        nextPiece preceding (text ++ ';' :: '\n' :: later) = (kind, size + 1) := by
  have regex : ∀ more, LineEnd more → (regexBody? (text ++ more)).map (fun body =>
        (PieceKind.regex body, body + run Char.isAlpha ((text ++ more).drop body) - 1))
      = (regexBody? text).map fun body =>
        (PieceKind.regex body, body + run Char.isAlpha (text.drop body) - 1) := by
    intro more ends
    rw [regexBody?_lineEnd ends solid.nonempty]
    cases read : regexBody? text with
    | none => rfl
    | some body => rw [Option.map_some, Option.map_some, flags_lineEnd ends (by decide) (by decide) read]
  have positive := List.length_pos_iff.mpr solid.nonempty
  have bare : LineEnd ('\n' :: later) := .bare
  have closed : LineEnd (';' :: '\n' :: later) := .closed
  have comment := comment?_reach (solid.whole bare) (solid.whole closed) solid.nonempty
  have template := template?_reach (solid.whole bare) (solid.whole closed) solid.nonempty
  unfold nextPiece
  rw [regex _ bare, regex _ closed, blanks?_lineEnd solid, blanks?_lineEnd solid, string?_lineEnd bare solid,
    string?_lineEnd closed solid, run1?_lineEnd bare (by decide) (by decide),
    run1?_lineEnd closed (by decide) (by decide)]
  dsimp only
  generalize (if preceding.expectsOperand then (regexBody? text).map fun body =>
    (PieceKind.regex body, body + run Char.isAlpha (text.drop body) - 1) else none) = first
  cases first with
  | some piece => exact .inl ⟨rfl, rfl⟩
  | none =>
    cases blanks? text with
    | some size => exact .inl ⟨rfl, rfl⟩
    | none =>
      rcases comment.sizes with ⟨here, there⟩ | ⟨size, far, here, there⟩
      · rw [here, there]
        cases comment? text with
        | some size => exact .inl ⟨rfl, rfl⟩
        | none =>
          cases string? text with
          | some size => exact .inl ⟨rfl, rfl⟩
          | none =>
            rcases template.sizes with ⟨here, there⟩ | ⟨size, far, here, there⟩
            · rw [here, there]
              exact .inl ⟨rfl, rfl⟩
            · rw [here, there]
              exact .inr ⟨.literal, size - 1, .inr rfl, by omega, rfl, by simp; omega⟩
      · rw [here, there]
        exact .inr ⟨.comment, size - 1, .inl rfl, by omega, rfl, by simp; omega⟩

-- The text of some pieces as the parser sees it.
def maskedText (pieces : List Piece) : Text := pieces.flatMap Piece.masked

-- A semicolon leaves no trace in what follows the first word of the next line.
theorem maskedText_line (reading : Reading) (word : Spelled name) (apart : NotName rest) :
    ∃ hidden, maskedText (piecesFrom reading ('\n' :: (name ++ rest))) = '\n' :: (name ++ hidden) ∧
      maskedText (piecesFrom reading (';' :: '\n' :: (name ++ rest))) = ';' :: '\n' :: (name ++ hidden) := by
  have notBlank : ∀ more, NotBlank (name ++ more) := by
    intro more
    obtain ⟨c, name, rfl⟩ := List.exists_cons_of_ne_nil word.1
    rintro _ ⟨⟩
    exact word.visible c List.mem_cons_self
  have line : ∀ start : Reading, Divides start ('\n' :: name) [⟨.blanks, ['\n']⟩, ⟨.word, name⟩] NotName :=
    fun start => (divides_blank start (.inr rfl)).append (divides_word _ word) fun more _ => notBlank more
  have mark := divides_mark (c := ';') reading (by decide)
  refine ⟨maskedText (piecesFrom ⟨.word name, reading.conditions⟩ rest), ?_, ?_⟩
  · have here := (line reading).reads rest apart
    rw [List.cons_append] at here
    rw [here]
    rfl
  · have here := mark.reads ('\n' :: name ++ rest) trivial
    rw [(line _).reads rest apart, List.singleton_append, List.cons_append] at here
    rw [here]
    rfl

theorem maskedText_cons {c : Char} (read : nextPiece reading.preceding (c :: rest) = (kind, count)) :
    maskedText (piecesFrom reading (c :: rest)) = Piece.masked ⟨kind, c :: rest.take count⟩
      ++ maskedText (piecesFrom (reading.after kind (c :: rest.take count)) (rest.drop count)) := by
  rw [piecesFrom_cons read]
  rfl

-- A comment or a literal that takes in the end of a line goes on behind the first word of the next one.
theorem behind_word (plain : kind = .comment ∨ kind = .literal)
    (reads : Reads preceding (text ++ '\n' :: (name ++ rest)) kind (text.length + beyond)) (word : Spelled name) :
    beyond = 0 ∨ name.length < beyond := by
  by_contra within
  obtain ⟨less, rfl⟩ : ∃ less, beyond = less + 1 := Nat.exists_eq_succ_of_ne_zero (by omega)
  have inside : less < name.length := by omega
  have parts : text ++ '\n' :: (name ++ rest) = (text ++ '\n' :: name.take less) ++ (name.drop less ++ rest) := by
    rw [List.append_assoc, List.cons_append, ← List.append_assoc (name.take less), List.take_append_drop]
  have size : text.length + (less + 1) = (text ++ '\n' :: name.take less).length := by
    rw [List.length_append, List.length_cons, List.length_take, Nat.min_eq_left (Nat.le_of_lt inside)]
  rw [parts, size] at reads
  have letter : ∀ mark, Text.isNameChar mark = false → mark ≠ '\n' →
      (text ++ '\n' :: name.take less).getLast? ≠ some mark := by
    intro mark unnamed unbroken last
    rw [List.getLast?_append_of_ne_nil _ (List.cons_ne_nil _ _)] at last
    rcases List.mem_cons.mp (List.mem_of_getLast? last) with same | among
    · exact unbroken same
    · rw [word.2 mark (List.mem_of_mem_take among)] at unnamed
      cases unnamed
  obtain ⟨d, follows⟩ : ∃ d, (name.drop less).head? = some d := ⟨name[less],
    by simp [List.head?_drop, inside]⟩
  have named := word.visible d (List.mem_of_mem_drop (List.mem_of_mem_head? follows))
  rcases plain with rfl | rfl
  · refine letter '/' (by decide) (by decide) (comment?_last reads (d := d) (by simp [follows]) ?_)
    rintro rfl
    cases named
  · rcases reads with string | template
    · rcases string?_last string with last | last
      · exact letter '"' (by decide) (by decide) last
      · exact letter '\'' (by decide) (by decide) last
    · exact letter '\x60' (by decide) (by decide) (template?_last template)

theorem maskedText_lineEnd (solid : Solid text) (word : Spelled name) (apart : NotName rest) (reading : Reading) :
    ∃ front hidden, front.length = text.length ∧
      maskedText (piecesFrom reading (text ++ '\n' :: (name ++ rest))) = front ++ '\n' :: (name ++ hidden) ∧
      maskedText (piecesFrom reading (text ++ ';' :: '\n' :: (name ++ rest)))
        = front ++ ';' :: '\n' :: (name ++ hidden) := by
  induction size : text.length using Nat.strongRecOn generalizing text reading with
  | ind size ih =>
    obtain ⟨c, tail, rfl⟩ := List.exists_cons_of_ne_nil solid.nonempty
    rcases nextPiece_reach solid reading.preceding (name ++ rest) with ⟨bare, closed⟩ | ⟨kind, more,
      plain, far, bare, closed⟩
    · -- The first piece stays within the text.
      obtain ⟨⟨kind, more⟩, read⟩ : ∃ piece, nextPiece reading.preceding (c :: tail) = piece := ⟨_, rfl⟩
      have bounded : more ≤ tail.length := nextPiece_le read
      rw [read, List.cons_append] at bare closed
      have masked := (masked_blanked tail read).length_eq
      rw [List.length_cons, List.length_take, Nat.min_eq_left bounded] at masked
      rw [List.cons_append, List.cons_append, maskedText_cons bare, maskedText_cons closed,
        List.take_append_of_le_length bounded, List.take_append_of_le_length bounded,
        List.drop_append_of_le_length bounded, List.drop_append_of_le_length bounded]
      by_cases inside : more < tail.length
      · have later : Solid (tail.drop more) :=
          have behind : Solid ((c :: tail).drop (more + 1)) := solid.drop (by simpa using inside)
          behind
        obtain ⟨front, hidden, sized, first,
          second⟩ := ih (tail.drop more).length (by simp at size ⊢; omega) later
          (reading.after kind (c :: tail.take more)) rfl
        rw [first, second]
        refine ⟨Piece.masked ⟨kind, c :: tail.take more⟩ ++ front, hidden, ?_, by simp, by simp⟩
        rw [List.length_append, masked, sized, List.length_drop]
        simp only [List.length_cons] at size
        omega
      · have all : more = tail.length := by omega
        subst all
        rw [List.drop_length, List.nil_append, List.nil_append]
        obtain ⟨hidden, first, second⟩ := maskedText_line (reading.after kind (c :: tail.take tail.length)) word apart
        rw [first, second]
        exact ⟨_, hidden, masked.trans size, rfl, rfl⟩
    · -- The first piece is a comment or a literal that takes in the end of the line.
      have after : ∀ text other, reading.after kind text = reading.after kind other := by
        intro text other
        rcases plain with rfl | rfl <;> rfl
      have asItIs : ∀ text, Piece.masked ⟨kind, text⟩ = text := by
        intro text
        rcases plain with rfl | rfl <;> rfl
      obtain ⟨beyond, rfl⟩ : ∃ beyond, more = tail.length + beyond := Nat.exists_eq_add_of_le (by simpa using far)
      have reads := nextPiece_reads bare
      rw [Nat.add_right_comm, ← List.length_cons] at reads
      have seen : ∃ hidden, ('\n' :: (name ++ rest)).take beyond
            ++ maskedText (piecesFrom (reading.after kind []) (('\n' :: (name ++ rest)).drop beyond))
          = '\n' :: (name ++ hidden) := by
        rcases behind_word plain reads word with rfl | further
        · obtain ⟨hidden, first, _⟩ := maskedText_line (reading.after kind []) word apart
          exact ⟨hidden, first⟩
        · obtain ⟨less, rfl⟩ : ∃ less, beyond = name.length + less + 1 := ⟨beyond - name.length - 1, by omega⟩
          refine ⟨rest.take less ++ maskedText (piecesFrom (reading.after kind []) (rest.drop less)), ?_⟩
          rw [List.take_succ_cons, List.drop_succ_cons, List.take_length_add_append,
            List.drop_length_add_append,
            List.cons_append, List.append_assoc]
      obtain ⟨hidden, broken⟩ := seen
      generalize '\n' :: (name ++ rest) = behind at bare closed broken ⊢
      rw [List.cons_append] at bare closed
      refine ⟨c :: tail, hidden, size, ?_, ?_⟩
      · rw [List.cons_append, maskedText_cons bare, asItIs, after _ [], List.take_length_add_append,
          List.drop_length_add_append, List.cons_append, List.append_assoc, broken]
        rfl
      · rw [Nat.add_assoc] at closed
        rw [List.cons_append, maskedText_cons closed, asItIs, after _ [], List.take_length_add_append,
          List.drop_length_add_append, List.take_succ_cons, List.drop_succ_cons, List.cons_append, List.append_assoc,
          List.cons_append, broken]
        rfl

theorem hashbang?_unmarked {c d : Char} (unmarked : ¬ (c = '#' ∧ d = '!')) (rest : Text) :
    hashbang? (c :: d :: rest) = none := by
  refine hashbang?.eq_2 _ fun _ same => unmarked ?_
  cases same
  exact ⟨rfl, rfl⟩

theorem mask_hashbang (read : hashbang? source = some size) :
    mask source = source.take size ++ maskedText (piecesFrom {} (source.drop size)) := by
  rw [mask, pieces, read]
  rfl

-- What stands behind a word is not taken for more of it.
theorem notName_blanked (blanked : List.Forall₂ Blanked seen original) (apart : NotName original) : NotName seen := by
  cases blanked with
  | nil => nofun
  | cons here _ =>
    rintro _ ⟨⟩
    rcases here with rfl | ⟨rfl, _⟩
    · exact apart _ rfl
    · decide

theorem solid_blanked (blanked : List.Forall₂ Blanked seen original) (solid : Solid seen) : Solid original := by
  obtain ⟨c, last, visible, plain⟩ := solid
  obtain ⟨front, rfl⟩ := List.getLast?_eq_some_iff.mp last
  rw [← List.forall₂_reverse_iff, List.reverse_concat, List.forall₂_cons_left_iff] at blanked
  obtain ⟨d, rest, here, _, parts⟩ := blanked
  have space : c ≠ ' ' := by
    rintro rfl
    cases visible
  refine ⟨c, ?_, visible, plain⟩
  rw [← here.visible space, ← List.head?_reverse, parts]
  rfl

-- The same for a whole source, an interpreter line included.
theorem mask_lineEnd (solid : Solid text) (word : Spelled name) (apart : NotName rest) :
    ∃ front hidden, front.length = text.length ∧
      mask (text ++ '\n' :: (name ++ rest)) = front ++ '\n' :: (name ++ hidden) ∧
      mask (text ++ ';' :: '\n' :: (name ++ rest)) = front ++ ';' :: '\n' :: (name ++ hidden) := by
  have plain (bare : hashbang? (text ++ '\n' :: (name ++ rest)) = none)
      (closed : hashbang? (text ++ ';' :: '\n' :: (name ++ rest)) = none) :
      ∃ front hidden, front.length = text.length ∧
        mask (text ++ '\n' :: (name ++ rest)) = front ++ '\n' :: (name ++ hidden) ∧
        mask (text ++ ';' :: '\n' :: (name ++ rest)) = front ++ ';' :: '\n' :: (name ++ hidden) := by
    rw [mask, mask, pieces, pieces, bare, closed]
    exact maskedText_lineEnd solid word apart {}
  obtain ⟨c, tail, rfl⟩ := List.exists_cons_of_ne_nil solid.nonempty
  cases tail with
  | nil =>
    exact plain (hashbang?_unmarked (fun same => absurd same.2 (by decide)) _)
      (hashbang?_unmarked (fun same => absurd same.2 (by decide)) _)
  | cons d body =>
    by_cases marked : c = '#' ∧ d = '!'
    · obtain ⟨rfl, rfl⟩ := marked
      generalize line : '\n' :: (name ++ rest) = behind at plain ⊢
      rcases run_line body (name ++ rest) with ⟨inside, same⟩ | ⟨bare, closed⟩
      · have read : ∀ more, hashbang? ('#' :: '!' :: body ++ more) = some (run (· != '\n') body + 2) := by
          intro more
          simp only [List.cons_append, hashbang?, same more]
        have bounded : run (· != '\n') body + 2 ≤ ('#' :: '!' :: body).length := by
          simp only [List.length_cons]
          omega
        have later : Solid (('#' :: '!' :: body).drop (run (· != '\n') body + 2)) :=
          solid.drop (by simp only [List.length_cons]; omega)
        obtain ⟨front, hidden, sized, first, second⟩ := maskedText_lineEnd later word apart {}
        rw [line] at first second
        rw [mask_hashbang (read _), mask_hashbang (read _), List.take_append_of_le_length bounded,
          List.take_append_of_le_length bounded, List.drop_append_of_le_length bounded,
          List.drop_append_of_le_length bounded, first, second]
        refine ⟨('#' :: '!' :: body).take (run (· != '\n') body + 2) ++ front, hidden, ?_, by simp, by simp⟩
        rw [List.length_append, sized, List.length_take, List.length_drop]
        omega
      · rw [line] at bare closed
        have first : hashbang? ('#' :: '!' :: body ++ behind) = some ('#' :: '!' :: body).length := by
          simp only [List.cons_append, hashbang?, bare, List.length_cons]
        have second : hashbang? ('#' :: '!' :: body ++ ';' :: behind) = some (('#' :: '!' :: body).length + 1) := by
          simp only [List.cons_append, hashbang?, closed, List.length_cons]
        obtain ⟨hidden, broken, _⟩ := maskedText_line {} word apart
        rw [line] at broken
        rw [mask_hashbang first, mask_hashbang second, List.take_left, List.drop_left,
          List.take_length_add_append,
          List.drop_length_add_append]
        refine ⟨'#' :: '!' :: body, hidden, rfl, ?_, ?_⟩
        · rw [broken]
        · rw [List.take_succ_cons, List.drop_succ_cons, List.take_zero, List.drop_zero, broken,
            List.append_assoc]
          rfl
    · exact plain (hashbang?_unmarked marked _) (hashbang?_unmarked marked _)

end Masking
end ModuleBundler
