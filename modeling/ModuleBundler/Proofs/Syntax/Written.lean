import ModuleBundler.Proofs.Segments

/-!
The parser reads back what was written token by token, as code between and inside brackets.
-/
namespace ModuleBundler

namespace Lexer
open Terminal

theorem leaf?_unread (leaf : Leaf) (unread : leafSize? leaf before rest = none) :
    leaf? expected before rest leaf = none := by
  unfold leaf?
  split
  · rw [unread]
    rfl
  · rfl

-- A lexeme that is neither blank nor a comment nor a regex literal.
theorem lexeme?_visible (slash : c ≠ '/') (hash : c ≠ '#') (visible : Text.isBlank c = false)
    (before rest : Text) :
    lexeme? expected before (c :: rest) = (leaf? expected [] (c :: rest) .name
      <|> leaf? expected [] (c :: rest) .member <|> leaf? expected [] (c :: rest) .number
      <|> leaf? expected [] (c :: rest) .string <|> leaf? expected [] (c :: rest) .template
      <|> leaf? expected [] (c :: rest) .punctuator <|> spelled? expected (c :: rest)) := by
  have body : Lexeme.regexBody? (c :: rest) = none := Lexeme.regexBody?.eq_2 _ (by simp [slash])
  have regex : leaf? expected [] (c :: rest) .regex = none :=
    leaf?_unread .regex (by simp [leafSize?, regex?, Lexeme.regex?, body])
  have blanks : Lexeme.blanks? (c :: rest) = none := by simp [Lexeme.blanks?, Lexeme.run1?,
    Lexeme.run, visible]
  have comment : Lexeme.comment? (c :: rest) = none := by
    rw [Lexeme.comment?, Lexeme.lineComment?.eq_2 _ (by simp [slash]),
      Lexeme.blockComment?.eq_2 _ (by simp [slash])]
    rfl
  have hashbang : Lexeme.hashbang? (c :: rest) = none := Lexeme.hashbang?.eq_2 _ (by simp [hash])
  rw [lexeme?_plain slash hash before []]
  simp [lexeme?, regex, ignored?, blanks, comment, hashbang]

-- What is expected between and inside brackets.
def codeSets : List (List Terminal) :=
  [outer, outer ++ closers, Terminal.inner ++ [closer .brace], Terminal.inner ++ [closer .paren],
    Terminal.inner ++ [closer .square]]

theorem mem_codeSets (code : expected ∈ codeSets) : expected = outer ∨ expected = outer ++ closers ∨
    ∃ bracket, expected = Terminal.inner ++ [closer bracket] := by
  simp only [codeSets, List.mem_cons, List.not_mem_nil, or_false] at code
  rcases code with rfl | rfl | rfl | rfl | rfl
  · exact .inl rfl
  · exact .inr (.inl rfl)
  all_goals exact .inr (.inr ⟨_, rfl⟩)

def reserved : List Text := [Keyword.import_.spelling, Keyword.export_.spelling]

theorem nameTerminal_code (code : expected ∈ codeSets) (free : text ∉ reserved) :
    nameTerminal expected text = .leaf .name := by
  have words : ∀ expected ∈ codeSets, ∀ word ∈ Keyword.all,
      expected.contains (.keyword word) = true → word.spelling ∈ reserved := by decide
  have none : (Keyword.all.find? fun word =>
      expected.contains (.keyword word) && word.spelling == text) = none := by
    rw [List.find?_eq_none]
    intro word member found
    simp only [Bool.and_eq_true, beq_iff_eq] at found
    exact free (found.2 ▸ words expected code word member found.1)
  rw [nameTerminal, none]

theorem contains_leaf (code : expected ∈ codeSets) (leaf : Leaf) :
    expected.contains (.leaf leaf) = true := by
  have leaves : ∀ expected ∈ codeSets, ∀ leaf ∈ Leaf.all, expected.contains (.leaf leaf) = true := by
    decide
  exact leaves expected code leaf (by cases leaf <;> decide)

theorem leaf?_code (code : expected ∈ codeSets) (leaf : Leaf) (named : leaf ≠ .name)
    (mark : leaf ≠ .punctuator) (read : leafSize? leaf before rest = some size) :
    leaf? expected before rest leaf = some (.token (.leaf leaf) size) := by
  rw [leaf?, if_pos (contains_leaf code leaf), read]
  cases leaf with
  | name => exact absurd rfl named
  | punctuator => exact absurd rfl mark
  | _ => rfl

theorem punctuatorTerminal_code (code : expected ∈ codeSets) (text : Text) :
    punctuatorTerminal expected text = .leaf .punctuator := by
  have marks : ∀ expected ∈ codeSets, ∀ mark ∈ Mark.all, expected.contains (.mark mark) = false := by
    decide
  have none : (Mark.all.find? fun mark => expected.contains (.mark mark) && [mark.char] == text) = none := by
    rw [List.find?_eq_none]
    intro mark member found
    rw [marks expected code mark member, Bool.false_and] at found
    cases found
  rw [punctuatorTerminal, none]

end Lexer

namespace Segment
open Masking Terminal

def terminal? : Segment → Option Terminal
  | gap _ => none
  | word _ => some (.leaf .name)
  | property _ => some (.leaf .member)
  | literal _ => some (.leaf .string)
  | punctuator _ => some (.leaf .punctuator)
  | opener bracket => some (.opener bracket)
  | closer bracket => some (.closer bracket)

def lexed (segment : Segment) : Lexer.Lexed :=
  match segment.terminal? with
  | some terminal => .token terminal segment.text.length
  | none => .skipped segment.text.length

def Free : Segment → Prop
  | word text => text ∉ Lexer.reserved
  | _ => True

instance (segment : Segment) : Decidable segment.Free :=
  match segment with
  | word text => inferInstanceAs (Decidable (text ∉ Lexer.reserved))
  | gap _ | property _ | literal _ | punctuator _ | opener _ | closer _ => .isTrue trivial

variable {segment next : Segment} {segments : List Segment}

theorem name?_append (starts : Text.isNameStart c = true)
    (letters : ∀ d ∈ rest, Text.isNameChar d = true) (apart : NotName more) :
    Lexeme.name? (c :: rest ++ more) = some (c :: rest).length := by
  rw [List.cons_append, Lexeme.name?, if_pos starts, Lexeme.run_append_apart _ _ apart,
    Lexeme.run_all letters]
  rfl

theorem lexeme?_word {text : Text} (named : Text.IsName text) (more : Text) (apart : NotName more)
    (code : expected ∈ Lexer.codeSets) (before : Text) :
    Lexer.lexeme? expected before (text ++ more)
      = some (.token (Lexer.nameTerminal expected text) text.length) := by
  have spelled := spelled_of_isName named
  obtain ⟨c, rest, rfl, starts, letters⟩ := named
  have visible := spelled.visible c List.mem_cons_self
  have other : ∀ mark, Text.isNameStart mark = false → c ≠ mark := by
    rintro mark unnamed rfl
    rw [unnamed] at starts
    cases starts
  have read := name?_append starts letters apart
  rw [List.cons_append, Lexer.lexeme?_visible (other '/' (by decide)) (other '#' (by decide)) visible,
    Lexer.leaf?, if_pos (Lexer.contains_leaf code .name), ← List.cons_append]
  simp only [Lexer.leafSize?, read, Option.map_some, List.take_left]
  rfl

theorem punctuator?_plain {text : Text} (plain : text ∈ plainPunctuators) (apart : NotMark more) :
    Lexeme.punctuator? (text ++ more) = some text.length := by
  cases more with
  | nil =>
    have alone : ∀ text ∈ plainPunctuators, Lexeme.punctuator? (text ++ []) = some text.length := by
      decide
    exact alone text plain
  | cons d more =>
    have other : ∀ c ∈ lengthening, (c == d) = false := by
      rintro c member
      refine beq_false_of_ne ?_
      rintro rfl
      exact apart c rfl member
    have equal := other '=' (by decide)
    have greater := other '>' (by decide)
    have question := other '?' (by decide)
    have dot := other '.' (by decide)
    simp only [plainPunctuators, List.mem_cons, List.not_mem_nil, or_false] at plain
    rcases plain with rfl | rfl | rfl | rfl | rfl | rfl | rfl | rfl
    all_goals
      simp [Lexeme.punctuator?, Lexeme.punctuators, Text.startsWith, List.isPrefixOf, equal, greater,
        question, dot]

theorem lexeme?_sealed {body : Text} (closed : Literal.sealed body = true) (more : Text)
    (code : expected ∈ Lexer.codeSets) (before : Text) :
    Lexer.lexeme? expected before ('"' :: (body ++ ['"']) ++ more)
      = some (.token (.leaf .string) ('"' :: (body ++ ['"'])).length) := by
  have string : Lexer.leafSize? .string [] ('"' :: (body ++ ['"']) ++ more)
      = some ('"' :: (body ++ ['"'])).length := by
    rw [Lexer.leafSize?, Lexeme.string?_sealed closed]
    simp
  have read := Lexer.leaf?_code code .string (by decide) (by decide) string
  rw [List.cons_append] at read ⊢
  rw [Lexer.lexeme?_visible (by decide) (by decide) (by decide),
    Lexer.leaf?_unread .name rfl, Lexer.leaf?_unread .member rfl,
    Lexer.leaf?_unread .number rfl, read]
  rfl

theorem lexeme?_blanks {blanks : Text} (blank : ∀ c ∈ blanks, Text.isBlank c = true)
    (nonempty : blanks ≠ []) (apart : NotBlank more) (expected : List Terminal) (before : Text) :
    Lexer.lexeme? expected before (blanks ++ more) = some (.skipped blanks.length) := by
  obtain ⟨c, rest, rfl⟩ := List.exists_cons_of_ne_nil nonempty
  have read : Lexeme.blanks? (c :: rest ++ more) = some (c :: rest).length := by
    rw [Lexeme.blanks?, Lexeme.run1?, Lexeme.run_append_apart _ _ apart, Lexeme.run_all blank]
    rfl
  have regex : Lexer.leaf? expected before (c :: rest ++ more) .regex = none := by
    refine Lexer.leaf?_unread .regex ?_
    have body : Lexeme.regexBody? (c :: rest ++ more) = none := by
      refine Lexeme.regexBody?.eq_2 _ fun _ _ same => ?_
      have slash := blank c List.mem_cons_self
      rw [(List.cons.inj same).1] at slash
      exact absurd slash (by decide)
    rw [Lexer.leafSize?, Lexer.regex?, Lexeme.regex?, body]
    simp
  rw [Lexer.lexeme?, regex, Lexer.ignored?, read]
  rfl

theorem lexeme?_gap (sound : blank = ' ' ∨ blank = '\n') (apart : NotBlank more)
    (expected : List Terminal) (before : Text) :
    Lexer.lexeme? expected before (blank :: more) = some (.skipped 1) := by
  have alone : ∀ c ∈ [blank], Text.isBlank c = true := by rcases sound with rfl | rfl <;> decide
  exact lexeme?_blanks alone (List.cons_ne_nil _ _) apart expected before

-- Every segment is read back as it was written.
theorem lexeme?_segment (sound : segment.Sound) (free : segment.Free) (apart : segment.apart more)
    (code : expected ∈ Lexer.codeSets)
    (closes : ∀ bracket, segment = .closer bracket → .closer bracket ∈ expected) (before : Text) :
    Lexer.lexeme? expected before (segment.text ++ more) = some segment.lexed := by
  cases segment with
  | gap blank =>
    exact lexeme?_gap sound apart expected before
  | word text =>
    rw [lexed, Segment.text, lexeme?_word sound more apart code, Lexer.nameTerminal_code code free]
    rfl
  | property name =>
    have member : Lexer.leafSize? .member [] ('.' :: (name ++ more)) = some (name.length + 1) := by
      obtain ⟨c, rest, rfl, starts, letters⟩ := sound
      have gap : Lexeme.isMemberGap c = false := by
        have gaps : ∀ gap ∈ [' ', '\t', '\r', '\n'], Text.isNameStart gap = false := by decide
        cases found : Lexeme.isMemberGap c with
        | false => rfl
        | true =>
          have member : c ∈ [' ', '\t', '\r', '\n'] := by simpa [Lexeme.isMemberGap, or_assoc] using found
          rw [gaps c member] at starts
          cases starts
      have read : Lexeme.name? (c :: rest ++ more) = some (c :: rest).length := name?_append starts letters apart
      simp only [Lexer.leafSize?, Lexeme.member?, Lexeme.propertyName?]
      rw [List.cons_append, Lexeme.run, if_neg (by simp [gap]), List.drop_zero, ← List.cons_append, read]
      rfl
    rw [text, List.cons_append, Lexer.lexeme?_visible (by decide) (by decide) (by decide),
      Lexer.leaf?_unread .name rfl, Lexer.leaf?_code code .member (by decide) (by decide) member]
    rfl
  | literal content =>
    obtain ⟨inner, parts, closed⟩ := Literal.writeCodes_parts content
    rw [lexed, text, parts]
    exact lexeme?_sealed closed more code before
  | punctuator text =>
    have read : Lexer.leaf? expected [] (text ++ more) .punctuator
        = some (.token (.leaf .punctuator) text.length) := by
      rw [Lexer.leaf?, if_pos (Lexer.contains_leaf code .punctuator)]
      simp [Lexer.leafSize?, punctuator?_plain sound apart, Lexer.punctuatorTerminal_code code]
    have heads : ∀ text ∈ plainPunctuators, ∃ c ∈ [';', ',', '=', ':', '?', '&',
      '|'], text.head? = some c := by
      decide
    obtain ⟨c, mark, head⟩ := heads text sound
    obtain ⟨rest, rfl⟩ := List.head?_eq_some_iff.mp head
    have facts : ∀ c ∈ [';', ',', '=', ':', '?', '&', '|'], c ≠ '/' ∧ c ≠ '#' ∧ Text.isBlank c = false := by
      decide
    have others : ∀ leaf, leaf = .name ∨ leaf = .number ∨ leaf = .string ∨ leaf = .template →
        Lexer.leaf? expected [] (c :: (rest ++ more)) leaf = none := by
      intro leaf other
      refine Lexer.leaf?_unread leaf ?_
      simp only [List.mem_cons, List.not_mem_nil, or_false] at mark
      rcases mark with rfl | rfl | rfl | rfl | rfl | rfl | rfl
      all_goals rcases other with rfl | rfl | rfl | rfl <;> rfl
    have unread : Lexer.leaf? expected [] (c :: rest ++ more) .member = none := by
      refine Lexer.leaf?_unread .member (Lexeme.member?.eq_3 _ ?_ ?_)
      · intro later same
        obtain ⟨rfl, tail⟩ := List.cons.inj same
        have single : ∀ text ∈ plainPunctuators, text.head? = some '?' → text = ['?'] := by decide
        cases single _ sound rfl
        cases tail
        exact absurd (apart '.' rfl) (by decide)
      · intro later same
        cases same
        exact absurd mark (by decide)
    obtain ⟨slash, hash, visible⟩ := facts c mark
    rw [List.cons_append] at read unread
    rw [Segment.text, List.cons_append, Lexer.lexeme?_visible slash hash visible, others .name (by simp),
      unread, others .number (by simp), others .string (by simp), others .template (by simp), read]
    rfl
  | opener bracket =>
    have alone : ∀ more, Lexer.lexeme? expected [] (bracket.opening :: more)
        = some (.token (.opener bracket) 1) := by
      intro more
      rcases Lexer.mem_codeSets code with rfl | rfl | ⟨other, rfl⟩
      · cases bracket <;> rfl
      · cases bracket <;> rfl
      · cases bracket <;> cases other <;> rfl
    have plain : bracket.opening ≠ '/' ∧ bracket.opening ≠ '#' := by cases bracket <;> decide
    exact (Lexer.lexeme?_plain plain.1 plain.2 before [] more).trans (alone more)
  | closer bracket =>
    have alone : ∀ more, Lexer.lexeme? expected [] (bracket.closing :: more)
        = some (.token (.closer bracket) 1) := by
      intro more
      have expects := closes bracket rfl
      rcases Lexer.mem_codeSets code with rfl | rfl | ⟨other, rfl⟩
      · exact absurd expects (by cases bracket <;> decide)
      · cases bracket <;> rfl
      · have same : other = bracket := by
          revert expects
          cases bracket <;> cases other <;> decide
        subst same
        cases other <;> rfl
    have plain : bracket.closing ≠ '/' ∧ bracket.closing ≠ '#' := by cases bracket <;> decide
    exact (Lexer.lexeme?_plain plain.1 plain.2 before [] more).trans (alone more)

-- The open brackets, the innermost first, each with whether anything stands behind it.
def used : List (Bracket × Bool) → List (Bracket × Bool)
  | [] => []
  | (bracket, _) :: outside => (bracket, true) :: outside

def walkStep (stack : List (Bracket × Bool)) : Segment → Option (List (Bracket × Bool))
  | gap _ => some stack
  | opener bracket => some ((bracket, false) :: stack)
  | closer bracket =>
    match stack with
    | (opened, _) :: outside => if opened = bracket then some (used outside) else none
    | [] => none
  | word _ | property _ | literal _ | punctuator _ => some (used stack)

def walk (stack : List (Bracket × Bool)) : List Segment → Option (List (Bracket × Bool))
  | [] => some stack
  | segment :: later => (walkStep stack segment).bind fun stack => walk stack later

theorem walk_append (segments later : List Segment) :
    walk stack (segments ++ later) = (walk stack segments).bind fun stack => walk stack later := by
  induction segments generalizing stack with
  | nil => rfl
  | cons first rest ih =>
    simp only [List.cons_append, walk, Option.bind_assoc]
    exact congrArg _ (funext fun _ => ih)

theorem map_used (stack : List (Bracket × Bool)) : (used stack).map Prod.fst = stack.map Prod.fst := by
  cases stack <;> rfl

theorem nest_segment (steps : walkStep stack segment = some stack') (sound : segment.Sound) :
    nest (stack.map Prod.fst) segment.pieces = some (stack'.map Prod.fst) := by
  cases segment with
  | gap => exact congrArg (fun stack => some (stack.map Prod.fst)) (Option.some.inj steps)
  | word | property | literal =>
    cases steps
    rw [map_used]
    rfl
  | punctuator text =>
    cases steps
    rw [map_used]
    simp only [Sound, plainPunctuators, List.mem_cons, List.not_mem_nil, or_false] at sound
    rcases sound with rfl | rfl | rfl | rfl | rfl | rfl | rfl | rfl <;> rfl
  | opener bracket =>
    cases steps
    cases bracket <;> rfl
  | closer bracket =>
    cases stack with
    | nil => cases steps
    | cons entry outside =>
      obtain ⟨opened, inUse⟩ := entry
      simp only [walkStep] at steps
      split at steps
      · rename_i same
        subst same
        cases steps
        rw [map_used]
        cases opened <;> rfl
      · cases steps

-- The masker finds the same brackets open.
theorem nest_walk (walks : walk stack segments = some stack')
    (sound : ∀ segment ∈ segments, segment.Sound) :
    nest (stack.map Prod.fst) (segments.flatMap pieces) = some (stack'.map Prod.fst) := by
  induction segments generalizing stack with
  | nil =>
    cases walks
    rfl
  | cons first rest ih =>
    obtain ⟨between, steps, later⟩ := Option.bind_eq_some_iff.mp walks
    rw [List.flatMap_cons, nest_append, nest_segment steps (sound first List.mem_cons_self)]
    exact ih later fun segment member => sound segment (List.mem_cons_of_mem _ member)

def Occupied (entry : Bracket × Bool) (frame : Syntax.Frame) : Prop :=
  frame.bracket = entry.1 ∧ if entry.2 then 2 ≤ frame.children.length else frame.children.length = 1

-- A machine between tokens of code, with these brackets open.
structure Stands (stack : List (Bracket × Bool)) (machine : Syntax.Machine) : Prop where
  code : machine.items.all Syntax.Item.isCode = true
  idle : ∃ afterNode, machine.progress = .idle afterNode
  frames : List.Forall₂ Occupied stack machine.frames

variable {machine : Syntax.Machine} {token : Token}

-- What is read next, by what stands in the innermost bracket.
theorem Stands.expects (stands : Stands stack machine) :
    stack = [] ∧ (machine.expected = outer ∨ machine.expected = outer ++ closers) ∨
      (∃ bracket outside, stack = (bracket, false) :: outside ∧
        machine.expected = Terminal.inner ++ [Terminal.closer bracket]) ∨
      ∃ bracket outside, stack = (bracket, true) :: outside ∧ machine.expected = outer ++ closers := by
  obtain ⟨items, progress, frames⟩ := machine
  obtain ⟨_, ⟨afterNode, idle⟩, open_⟩ := stands
  cases idle
  cases open_ with
  | nil =>
    cases afterNode
    · exact .inl ⟨rfl, .inl rfl⟩
    · exact .inl ⟨rfl, .inr rfl⟩
  | @cons entry frame outside frames first rest =>
    obtain ⟨bracket, inUse⟩ := entry
    obtain ⟨frameBracket, children⟩ := frame
    obtain ⟨same, size⟩ := first
    dsimp only at same size
    subst same
    cases inUse with
    | false =>
      obtain ⟨child, rfl⟩ := List.length_eq_one_iff.mp (by simpa using size)
      exact .inr (.inl ⟨_, _, rfl, rfl⟩)
    | true =>
      have several : 2 ≤ children.length := by simpa using size
      match children, several with
      | _ :: _ :: _, _ => exact .inr (.inr ⟨_, _, rfl, rfl⟩)

theorem Stands.expected (stands : Stands stack machine) :
    machine.expected ∈ Lexer.codeSets ∧
      ∀ bracket inUse outside, stack = (bracket, inUse) :: outside → .closer bracket ∈ machine.expected ∧
        (inUse = true → machine.expected = outer ++ closers) := by
  rcases stands.expects with ⟨rfl, same | same⟩ | ⟨bracket, outside, rfl, same⟩ | ⟨bracket, outside,
    rfl, same⟩
  · exact ⟨same ▸ (by decide : outer ∈ Lexer.codeSets), nofun⟩
  · exact ⟨same ▸ (by decide : outer ++ closers ∈ Lexer.codeSets), nofun⟩
  · rw [same]
    refine ⟨by cases bracket <;> decide, ?_⟩
    rintro _ _ _ ⟨⟩
    exact ⟨List.mem_append_right inner List.mem_cons_self, nofun⟩
  · rw [same]
    refine ⟨by decide, ?_⟩
    rintro _ _ _ ⟨⟩
    have closing : Terminal.closer bracket ∈ closers := by cases bracket <;> decide
    exact ⟨List.mem_append_right outer closing, fun _ => rfl⟩

theorem occupied_more (occupied : Occupied (bracket, inUse) frame) (node : Node) :
    Occupied (bracket, true) { frame with children := node :: frame.children } := by
  obtain ⟨same, size⟩ := occupied
  refine ⟨same, ?_⟩
  simp only [if_true, List.length_cons]
  split at size
  · omega
  · omega

section
open Syntax Machine

theorem Stands.add_leaf (stands : Stands stack machine) (lexed : token.terminal = .leaf kind) :
    ∃ next, machine.feed token = some next ∧ Stands (used stack) next := by
  obtain ⟨items, progress, frames⟩ := machine
  obtain ⟨code, ⟨afterNode, idle⟩, open_⟩ := stands
  cases idle
  cases open_ with
  | nil =>
    refine ⟨⟨.node (.leaf token) :: items, .idle true, []⟩, ?_, ?_, ⟨true, rfl⟩, .nil⟩
    · exact Step.fed (.begins rfl rfl (.leaf lexed))
    · simpa [Item.isCode] using code
  | @cons entry frame outside frames first rest =>
    exact ⟨_, Step.fed (.leaf rfl lexed), code, ⟨afterNode, rfl⟩, .cons (occupied_more first _) rest⟩

theorem Stands.open_bracket (stands : Stands stack machine)
    (lexed : token.terminal = .opener bracket) :
    ∃ next, machine.feed token = some next ∧ Stands ((bracket, false) :: stack) next := by
  obtain ⟨items, progress, frames⟩ := machine
  obtain ⟨code, ⟨afterNode, idle⟩, open_⟩ := stands
  cases idle
  have first : Occupied (bracket, false) ⟨bracket, [.leaf token]⟩ := ⟨rfl, rfl⟩
  cases open_ with
  | nil =>
    exact ⟨_, Step.fed (.begins rfl rfl (.group lexed)), code, ⟨true, rfl⟩, .cons first .nil⟩
  | @cons entry frame outside frames second rest =>
    exact ⟨_, Step.fed (.group rfl lexed), code, ⟨afterNode, rfl⟩, .cons first (.cons second rest)⟩

theorem Stands.close_bracket (stands : Stands ((bracket, inUse) :: stack) machine)
    (lexed : token.terminal = .closer bracket) :
    ∃ next, machine.feed token = some next ∧ Stands (used stack) next := by
  obtain ⟨items, progress, frames⟩ := machine
  obtain ⟨code, ⟨afterNode, idle⟩, open_⟩ := stands
  cases idle
  obtain ⟨frame, outer, first, rest, rfl⟩ := List.forall₂_cons_left_iff.mp open_
  have own : token.terminal = .closer frame.bracket := by rw [first.1, lexed]
  cases rest with
  | nil =>
    refine ⟨⟨.node (frame.closed token) :: items, .idle true, []⟩, Step.fed (.closes rfl own), ?_,
      ⟨true, rfl⟩, .nil⟩
    simpa [Item.isCode] using code
  | @cons entry second outside frames occupied rest =>
    exact ⟨_, Step.fed (.closesInner rfl own), code, ⟨afterNode, rfl⟩, .cons (occupied_more occupied _) rest⟩

end

theorem Stands.feed (stands : Stands stack machine) (steps : walkStep stack segment = some stack')
    (lexed : segment.terminal? = some token.terminal) :
    ∃ next, machine.feed token = some next ∧ Stands stack' next := by
  cases segment with
  | gap => cases lexed
  | word | property | literal | punctuator =>
    cases steps
    exact stands.add_leaf (Option.some.inj lexed).symm
  | opener bracket =>
    cases steps
    exact stands.open_bracket (Option.some.inj lexed).symm
  | closer bracket =>
    cases stack with
    | nil => cases steps
    | cons entry outside =>
      obtain ⟨opened, inUse⟩ := entry
      simp only [walkStep] at steps
      split at steps
      · rename_i same
        subst same
        cases steps
        exact stands.close_bracket (Option.some.inj lexed).symm
      · cases steps

-- The parser stands in front of a text, with these brackets open, and whether it accepts from there
-- decides over a statement.
def Reaches (stack : List (Bracket × Bool)) (before more : Text) (statement : Prop) : Prop :=
  ∃ fuel machine cursor previous, Stands stack machine ∧ cursor.before = before ∧ cursor.rest = more ∧
    more.length ≤ fuel ∧ (statement ↔ Syntax.Accepts fuel machine cursor previous)

theorem reaches_start (text : Text) : Reaches [] [] text (Syntax.isPlain text = true) :=
  ⟨text.length, {}, Cursor.start text, none, ⟨rfl, ⟨false, rfl⟩, .nil⟩, rfl, rfl, Nat.le_refl _,
    Syntax.isPlain_iff text⟩

theorem Reaches.pass (reaches : Reaches stack before (segment.text ++ more) statement)
    (steps : walkStep stack segment = some stack') (sound : segment.Sound) (free : segment.Free)
    (apart : segment.apart more) : Reaches stack' (segment.text.reverse ++ before) more statement := by
  obtain ⟨fuel, machine, cursor, previous, stands, passed, rest, enough, decides⟩ := reaches
  obtain ⟨code, closers⟩ := stands.expected
  have closes : ∀ bracket, segment = .closer bracket → .closer bracket ∈ machine.expected := by
    rintro bracket rfl
    cases stack with
    | nil => cases steps
    | cons entry outside =>
      simp only [walkStep] at steps
      split at steps
      · rename_i same
        exact same ▸ (closers _ _ _ rfl).1
      · cases steps
  have read := lexeme?_segment sound free apart code closes cursor.before
  rw [← rest] at read
  have nonempty : segment.text ≠ [] := by
    obtain ⟨c, later, parts, _⟩ := text_head sound
    rw [parts]
    exact List.cons_ne_nil _ _
  have positive := List.length_pos_iff.mpr nonempty
  have remains : cursor.rest ≠ [] := by simp [rest, nonempty]
  have before_advance : (cursor.advance segment.text.length).before = segment.text.reverse ++ before := by
    rw [Cursor.before_advance, rest, passed, List.take_left]
  have rest_advance : (cursor.advance segment.text.length).rest = more := by
    rw [Cursor.rest_advance, rest, List.drop_left]
  rw [List.length_append] at enough
  obtain ⟨less, rfl⟩ : ∃ less, fuel = less + 1 := ⟨fuel - 1, by omega⟩
  have enough' : more.length ≤ less := by omega
  unfold lexed at read
  split at read
  · rename_i terminal kind
    obtain ⟨next, fed, stands'⟩ : ∃ next, machine.feed (cursor.token terminal segment.text.length) = some next ∧
        Stands stack' next := stands.feed steps kind
    rw [Syntax.Accepts, Syntax.parseFrom_token remains read fed] at decides
    exact ⟨less, next, _, _, stands', before_advance, rest_advance, enough', decides⟩
  · rename_i blank
    have same : stack' = stack := by
      cases segment with
      | gap => exact (Option.some.inj steps).symm
      | _ => cases blank
    subst same
    rw [Syntax.Accepts, Syntax.parseFrom_skipped remains read] at decides
    exact ⟨less, machine, _, _, stands, before_advance, rest_advance, enough', decides⟩

theorem Reaches.run (reaches : Reaches stack before (segments.flatMap text ++ more) statement)
    (walks : walk stack segments = some stack') (sound : ∀ segment ∈ segments, segment.Sound)
    (free : ∀ segment ∈ segments, segment.Free) (fitting : fits segments = true)
    (apart : lastApart segments more) :
    Reaches stack' ((segments.flatMap text).reverse ++ before) more statement := by
  induction segments generalizing stack before with
  | nil =>
    cases walks
    exact reaches
  | cons first rest ih =>
    obtain ⟨between, steps, later⟩ := Option.bind_eq_some_iff.mp walks
    have sound' := fun segment member => sound segment (List.mem_cons_of_mem _ member)
    have free' := fun segment member => free segment (List.mem_cons_of_mem _ member)
    rw [List.flatMap_cons, List.append_assoc] at reaches
    have here := reaches.pass steps (sound first List.mem_cons_self) (free first List.mem_cons_self)
    rw [List.flatMap_cons, List.reverse_append, List.append_assoc]
    cases rest with
    | nil => exact ih (here apart) later sound' free' rfl trivial
    | cons second rest =>
      simp only [fits, Bool.and_eq_true] at fitting
      refine ih (here ?_) later sound' free' fitting.2 apart
      rw [List.flatMap_cons, List.append_assoc]
      exact apart_of_meets (sound second (by simp)) fitting.1 _

theorem nameTerminal_reserved {spelling : Text} (word : spelling ∈ Lexer.reserved)
    (outside : expected = outer ∨ expected = outer ++ closers) :
    ∃ keyword, Lexer.nameTerminal expected spelling = .keyword keyword ∧
      (keyword = .import_ ∨ keyword = .export_) := by
  simp only [Lexer.reserved, List.mem_cons, List.not_mem_nil, or_false] at word
  rcases outside with rfl | rfl
  all_goals rcases word with rfl | rfl
  · exact ⟨.import_, by decide, .inl rfl⟩
  · exact ⟨.export_, by decide, .inr rfl⟩
  · exact ⟨.import_, by decide, .inl rfl⟩
  · exact ⟨.export_, by decide, .inr rfl⟩

theorem isName_reserved {spelling : Text} (word : spelling ∈ Lexer.reserved) :
    Text.IsName spelling := by
  simp only [Lexer.reserved, List.mem_cons, List.not_mem_nil, or_false] at word
  rcases word with rfl | rfl <;> exact ⟨_, _, rfl, by decide, by decide⟩

-- Behind the first token between two brackets the words of declarations are refused.
theorem Reaches.reserved_inside {spelling : Text}
    (reaches : Reaches ((bracket, true) :: outside) before (spelling ++ more) statement)
    (word : spelling ∈ Lexer.reserved) (apart : NotName more) : ¬ statement := by
  obtain ⟨fuel, machine, cursor, previous, stands, passed, rest, enough, decides⟩ := reaches
  obtain ⟨code, closers⟩ := stands.expected
  have named := isName_reserved word
  have read := lexeme?_word named more apart code cursor.before
  obtain ⟨keyword, keyed, _⟩ := nameTerminal_reserved word (.inr ((closers _ _ _ rfl).2 rfl))
  rw [← rest, keyed] at read
  have remains : cursor.rest ≠ [] := by
    obtain ⟨c, later, rfl, _⟩ := named
    simp [rest]
  obtain ⟨frame, outer, _, _, open_⟩ := List.forall₂_cons_left_iff.mp stands.frames
  rw [decides]
  refine Syntax.not_accepts_error (Syntax.parseFrom_refused remains read ?_)
  simp only [Syntax.Machine.feed, open_]
  rfl

theorem lexeme?_equals (expected : List Terminal) (before more : Text)
    (unread : ∀ more, Lexer.lexeme? expected [] ('=' :: more) = none) :
    Lexer.lexeme? expected before ('=' :: more) = none :=
  (Lexer.lexeme?_plain (by decide) (by decide) before [] more).trans (unread more)

-- Between brackets they begin declarations, which no equals sign can continue.
theorem Reaches.reserved_outside {spelling : Text}
    (reaches : Reaches [] before (spelling ++ ' ' :: '=' :: more) statement)
    (word : spelling ∈ Lexer.reserved) : ¬ statement := by
  obtain ⟨fuel, machine, cursor, previous, stands, passed, rest, enough, decides⟩ := reaches
  obtain ⟨code, _⟩ := stands.expected
  have named := isName_reserved word
  have apart : NotName (' ' :: '=' :: more) := by
    intro c same
    cases same
    decide
  have visible : NotBlank ('=' :: more) := by
    intro c same
    cases same
    decide
  have read := lexeme?_word named _ apart code cursor.before
  obtain ⟨items, progress, frames⟩ := machine
  obtain ⟨_, ⟨afterNode, idle⟩, open_⟩ := stands
  cases idle
  cases open_
  have outside : Syntax.Machine.expected ⟨items, .idle afterNode, []⟩ = outer ∨
      Syntax.Machine.expected ⟨items, .idle afterNode, []⟩ = outer ++ closers := by
    cases afterNode
    · exact .inl rfl
    · exact .inr rfl
  obtain ⟨keyword, keyed, keywords⟩ := nameTerminal_reserved word outside
  rw [← rest, keyed] at read
  have remains : cursor.rest ≠ [] := by simp [rest]
  have behind : (cursor.advance spelling.length).rest = ' ' :: '=' :: more := by
    rw [Cursor.rest_advance, rest, List.drop_left]
  have equals : ((cursor.advance spelling.length).advance 1).rest = '=' :: more := by
    rw [Cursor.rest_advance, behind]
    rfl
  -- The parser stops at the equals sign, whichever of the two words was read.
  have stops : ∀ fuel next previous,
      (∀ more, Lexer.lexeme? next.expected [] ('=' :: more) = none) →
        ¬ Syntax.Accepts fuel next (cursor.advance spelling.length) previous := by
    intro fuel next previous unread accepts
    have skipped := lexeme?_gap (.inl rfl) visible next.expected (cursor.advance spelling.length).before
    rw [← behind] at skipped
    have remains' : (cursor.advance spelling.length).rest ≠ [] := by simp [behind]
    cases fuel with
    | zero =>
      obtain ⟨parsed, accepted, _⟩ := accepts
      rw [behind] at skipped
      rw [Syntax.parseFrom.eq_def] at accepted
      simp only [behind, skipped] at accepted
      cases accepted
    | succ fuel =>
      rw [Syntax.Accepts, Syntax.parseFrom_skipped remains' skipped] at accepts
      refine Syntax.not_accepts_error (Syntax.parseFrom_unread (by simp [equals]) ?_) accepts
      rw [equals]
      exact lexeme?_equals _ _ _ unread
  obtain ⟨less, rfl⟩ : ∃ less, fuel = less + 1 := by
    refine ⟨fuel - 1, ?_⟩
    simp only [List.length_append, List.length_cons] at enough
    omega
  rw [decides]
  rcases keywords with rfl | rfl
  · rw [Syntax.Accepts, Syntax.parseFrom_token remains read rfl]
    exact stops less _ _ fun _ => rfl
  · rw [Syntax.Accepts, Syntax.parseFrom_token remains read rfl]
    exact stops less _ _ fun _ => rfl

-- Behind code that is over, a text on a new line is accepted as it is alone.
theorem Reaches.line (reaches : Reaches [] before ('\n' :: more) statement) :
    statement ↔ Syntax.isPlain ('\n' :: more) = true := by
  obtain ⟨fuel, machine, cursor, previous, ⟨code, ⟨afterNode, idle⟩, open_⟩, passed, rest, enough,
    decides⟩ := reaches
  obtain ⟨items, progress, frames⟩ := machine
  cases idle
  cases open_
  have alike : Syntax.Machine.Alike ⟨items, .idle afterNode, []⟩ {} :=
    ⟨code, rfl, trivial, .nil, Syntax.Machine.ready_closed rfl, Syntax.Machine.ready_closed rfl⟩
  rw [decides, Syntax.isPlain_iff]
  have recalls : Lexer.Recalls cursor.before (Cursor.start ('\n' :: more)).before cursor.rest :=
    .inl (by rw [rest]; rfl)
  constructor
  · exact Syntax.accepts_alike alike rest recalls (Nat.le_of_eq (congrArg List.length rest))
  · refine Syntax.accepts_alike alike.symm rest.symm ?_ enough
    exact rest ▸ recalls.symm

end Segment
end ModuleBundler
