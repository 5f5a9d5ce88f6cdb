import ModuleBundler.Proofs.Syntax.Phrases

/-!
Texts that are code wherever an expression may stand. They are put together from words, numbers,
literals, marks and groups; the masker shows them as they are, and the parser takes in nodes for them,
behind `export default` as between and inside brackets.
-/
namespace ModuleBundler

namespace Masking

-- A text without regex literals wherever it stands, as long as what follows is apart.
def Shown (text : Text) (apart : Text → Prop) : Prop :=
  ∀ start, ∃ pieces, Divides start text pieces apart ∧ pieces.flatMap Piece.masked = text

theorem Shown.append (first : Shown text apart) (second : Shown later apart')
    (meets : ∀ more, apart' more → apart (later ++ more)) : Shown (text ++ later) apart' := by
  intro start
  obtain ⟨pieces, divides, masked⟩ := first start
  obtain ⟨others, divides', masked'⟩ := second (readThrough start pieces)
  exact ⟨_, divides.append divides' meets, by rw [List.flatMap_append, masked, masked']⟩

theorem Shown.weaken (shown : Shown text apart) (weaker : ∀ more, apart' more → apart more) :
    Shown text apart' := by
  intro start
  obtain ⟨pieces, divides, masked⟩ := shown start
  exact ⟨pieces, ⟨divides.texts, fun more beyond => divides.reads more (weaker more beyond)⟩, masked⟩

theorem shown_word (spelled : Spelled text) : Shown text NotName :=
  fun start => ⟨_, divides_word start spelled, List.append_nil _⟩

theorem shown_mark (plain : c ∈ plainMarks) : Shown [c] Anything :=
  fun start => ⟨_, divides_mark start plain, rfl⟩

theorem shown_sealed {inner : Text} (closed : Literal.sealed inner = true) :
    Shown ('"' :: (inner ++ ['"'])) Anything :=
  fun start => ⟨_, divides_sealed start closed, List.append_nil _⟩

theorem shown_blanks (blank : ∀ c ∈ text, Text.isBlank c = true) (nonempty : text ≠ []) :
    Shown text NotBlank :=
  fun start => ⟨_, divides_blanks start blank nonempty, List.append_nil _⟩

-- A text of its own that begins no interpreter line is masked as it is.
theorem mask_shown (shown : Shown text apart) (alone : apart []) (plain : text.head? ≠ some '#') :
    mask text = text := by
  obtain ⟨pieces, divides, masked⟩ := shown {}
  have hashbang : Lexeme.hashbang? text = none := by
    cases text with
    | nil => rfl
    | cons c rest => exact Lexeme.hashbang?.eq_2 _ fun _ same => absurd (congrArg List.head? same) plain
  have read := divides.reads [] alone
  rw [List.append_nil, piecesFrom, List.append_nil] at read
  rw [mask, Masking.pieces, hashbang]
  dsimp only
  rw [read, masked]

end Masking

namespace Lexer
open Terminal

-- What is expected behind `export default`.
def valueSet : List Terminal := outer ++ [keyword .async, keyword .class_, keyword .function]

def declaring : List Text := [Keyword.async, .class_, .function].map Keyword.spelling

theorem nameTerminal_value (free : text ∉ declaring) :
    nameTerminal valueSet text = nameTerminal outer text := by
  have words : ∀ word ∈ Keyword.all,
      valueSet.contains (.keyword word) = outer.contains (.keyword word) ∨ word.spelling ∈ declaring := by
    decide
  have same : ∀ word ∈ Keyword.all, (valueSet.contains (.keyword word) && word.spelling == text)
      = (outer.contains (.keyword word) && word.spelling == text) := by
    intro word member
    rcases words word member with same | declares
    · rw [same]
    · have other : word.spelling ≠ text := by
        rintro rfl
        exact free declares
      rw [beq_false_of_ne other, Bool.and_false, Bool.and_false]
  rw [nameTerminal, nameTerminal, List.find?_congr same]

-- Only the words of declarations are read in another way there.
theorem lexeme?_value (free : ∀ size, Lexeme.name? rest = some size → rest.take size ∉ declaring) :
    lexeme? valueSet before rest = lexeme? outer before rest := by
  have sets : ∀ leaf ∈ Leaf.all,
      valueSet.contains (.leaf leaf) = true ∧ outer.contains (.leaf leaf) = true := by decide
  have marks : ∀ text, punctuatorTerminal valueSet text = punctuatorTerminal outer text := by
    intro text
    have none : ∀ mark ∈ Mark.all, valueSet.contains (.mark mark) = outer.contains (.mark mark) := by
      decide
    have same : ∀ mark ∈ Mark.all, (valueSet.contains (.mark mark) && [mark.char] == text)
        = (outer.contains (.mark mark) && [mark.char] == text) := fun mark member => by
      rw [none mark member]
    rw [punctuatorTerminal, punctuatorTerminal, List.find?_congr same]
  have leaves : ∀ leaf, leaf? valueSet before rest leaf = leaf? outer before rest leaf := by
    intro leaf
    obtain ⟨here, there⟩ := sets leaf (by cases leaf <;> decide)
    rw [leaf?, leaf?, if_pos here, if_pos there]
    cases leaf with
    | name =>
      cases read : Lexeme.name? rest with
      | none => simp [leafSize?, read]
      | some size => simp [leafSize?, read, nameTerminal_value (free size read)]
    | punctuator => simp [marks]
    | _ => rfl
  have alone : ∀ entry ∈ spelled, (readAlone valueSet entry.1 && Text.startsWith rest entry.2)
      = (readAlone outer entry.1 && Text.startsWith rest entry.2) := by
    have same : ∀ entry ∈ spelled, readAlone valueSet entry.1 = readAlone outer entry.1 := by decide
    intro entry member
    rw [same entry member]
  simp only [lexeme?, leaves, spelled?, List.find?_congr alone]

end Lexer

namespace Syntax

namespace Machine

-- `export default` is over where its value begins.
def settled (machine : Machine) : Machine :=
  match machine.progress with
  | .exportDefault word defaultWord =>
    machine.finish (.export word (.default defaultWord .expression)) false
  | _ => machine

-- One more node at the place where the machine stands.
def put (machine : Machine) (node : Node) : Machine :=
  match machine.frames with
  | frame :: frames =>
    { machine with frames := { frame with children := node :: frame.children } :: frames }
  | [] => machine.settled.addNode node

-- A machine that an expression can begin or go on in.
def Resting (machine : Machine) : Prop :=
  (∃ afterNode, machine.progress = .idle afterNode) ∨
    machine.frames = [] ∧ ∃ word defaultWord, machine.progress = .exportDefault word defaultWord

variable {machine : Machine} {token : Token}

theorem settled_frames (machine : Machine) : machine.settled.frames = machine.frames := by
  unfold settled
  split <;> rfl

theorem put_inside {outers : List Frame} (open_ : machine.frames = ⟨bracket, children⟩ :: outers)
    (nodes : List Node) :
    nodes.foldl put machine = { machine with frames := ⟨bracket, nodes.reverse ++ children⟩ :: outers } := by
  induction nodes generalizing machine children with
  | nil => rw [List.foldl_nil, List.reverse_nil, List.nil_append, ← open_]
  | cons node nodes ih =>
    have here : machine.put node = { machine with frames := ⟨bracket, node :: children⟩ :: outers } := by
      rw [put, open_]
    rw [List.foldl_cons, here, ih rfl, List.reverse_cons, List.append_assoc]
    rfl

theorem put_outside (closed : machine.frames = []) (nonempty : nodes ≠ []) :
    nodes.foldl put machine
      = ⟨(nodes.map Item.node).reverse ++ machine.settled.items, .idle true, []⟩ := by
  have idle : ∀ (nodes : List Node) items, nodes.foldl put ⟨items, .idle true, []⟩
      = ⟨(nodes.map Item.node).reverse ++ items, .idle true, []⟩ := by
    intro nodes
    induction nodes with
    | nil => exact fun _ => rfl
    | cons node nodes ih =>
      intro items
      rw [List.foldl_cons]
      refine (ih (.node node :: items)).trans ?_
      simp
  obtain ⟨node, nodes, rfl⟩ := List.exists_cons_of_ne_nil nonempty
  have here : machine.put node = ⟨.node node :: machine.settled.items, .idle true, []⟩ := by
    rw [put, closed]
    simp only [addNode, settled_frames, closed]
  rw [List.foldl_cons, here, idle]
  simp

-- Inside a group its own closing bracket can come next.
theorem expected_inside {outers : List Frame} (open_ : machine.frames = ⟨bracket, children⟩ :: outers) :
    machine.expected ∈ Lexer.codeSets ∧ .closer bracket ∈ machine.expected := by
  have within : Frame.expected ⟨bracket, children⟩ ∈ Lexer.codeSets ∧
      .closer bracket ∈ Frame.expected ⟨bracket, children⟩ := by
    unfold Frame.expected
    split
    · refine ⟨?_, List.mem_append_right _ List.mem_cons_self⟩
      show Terminal.inner ++ [.closer bracket] ∈ Lexer.codeSets
      cases bracket <;> decide
    · refine ⟨by decide, ?_⟩
      cases bracket <;> decide
  rwa [Machine.expected, open_]

theorem Resting.put (resting : machine.Resting) (node : Node) : (machine.put node).Resting := by
  unfold Machine.put
  split
  · rename_i open_
    rcases resting with idle | ⟨closed, _⟩
    · exact .inl idle
    · rw [closed] at open_
      cases open_
  · exact .inl ⟨true, rfl⟩

theorem Resting.puts (resting : machine.Resting) (nodes : List Node) :
    (nodes.foldl Machine.put machine).Resting := by
  induction nodes generalizing machine with
  | nil => exact resting
  | cons node nodes ih => exact ih (resting.put node)

theorem Resting.expected (resting : machine.Resting) :
    machine.expected ∈ Lexer.codeSets ∨ machine.expected = Lexer.valueSet := by
  obtain ⟨items, progress, frames⟩ := machine
  cases frames with
  | nil =>
    rcases resting with ⟨afterNode, idle⟩ | ⟨_, word, defaultWord, exporting⟩
    · cases idle
      refine .inl ?_
      cases afterNode
      · exact (by decide : Terminal.outer ∈ Lexer.codeSets)
      · exact (by decide : Terminal.outer ++ Terminal.closers ∈ Lexer.codeSets)
    · cases exporting
      exact .inr rfl
  | cons frame frames => exact .inl (expected_inside rfl).1

theorem feed_leaf (resting : machine.Resting) (lexed : token.terminal = .leaf leaf) :
    machine.feed token = some (machine.put (.leaf token)) := by
  obtain ⟨items, progress, frames⟩ := machine
  cases frames with
  | cons frame frames => exact Step.fed (.leaf rfl lexed)
  | nil =>
    rcases resting with ⟨afterNode, idle⟩ | ⟨_, word, defaultWord, exporting⟩
    · cases idle
      exact Step.fed (.begins rfl rfl (.leaf lexed))
    · cases exporting
      exact Step.fed (.follows rfl .expression (.leaf lexed))

-- A bracket opens a frame, and its closer puts the group where the bracket stood.
theorem feed_group (resting : machine.Resting) (lexed : token.terminal = .opener bracket) :
    ∃ entered outers, machine.feed token = some entered ∧ entered.Resting ∧
      entered.frames = ⟨bracket, [.leaf token]⟩ :: outers ∧
      ∀ (nodes : List Node) (last : Token), last.terminal = .closer bracket →
        (nodes.foldl put entered).feed last
          = some (machine.put (.group bracket (.leaf token :: (nodes ++ [.leaf last])))) := by
  have group : ∀ (nodes : List Node) (last : Token), Frame.closed ⟨bracket,
    nodes.reverse ++ [.leaf token]⟩ last
      = .group bracket (.leaf token :: (nodes ++ [.leaf last])) := by simp [Frame.closed]
  obtain ⟨items, progress, frames⟩ := machine
  cases frames with
  | cons frame frames =>
    refine ⟨⟨items, progress, ⟨bracket, [.leaf token]⟩ :: frame :: frames⟩, frame :: frames, ?_, ?_, rfl, ?_⟩
    · exact Step.fed (.group rfl lexed)
    · rcases resting with idle | ⟨closed, _⟩
      · exact .inl idle
      · cases closed
    · intro nodes last closes
      rw [put_inside rfl, ← group]
      exact Step.fed (.closesInner rfl closes)
  | nil =>
    have fed : feed ⟨items, progress, []⟩ token
        = some ⟨(settled ⟨items, progress, []⟩).items, .idle true, [⟨bracket, [.leaf token]⟩]⟩ := by
      rcases resting with ⟨afterNode, idle⟩ | ⟨_, word, defaultWord, exporting⟩
      · cases idle
        exact Step.fed (.begins rfl rfl (.group lexed))
      · cases exporting
        exact Step.fed (.follows rfl .expression (.group lexed))
    refine ⟨_, [], fed, .inl ⟨true, rfl⟩, rfl, ?_⟩
    intro nodes last closes
    rw [put_inside rfl, ← group, Step.fed (.closes rfl closes)]
    simp only [attach, addNode, put, settled_frames]

end Machine

-- The parser takes in nodes for the text, and goes on in front of what follows.
def Adds (text : Text) (apart : Text → Prop) : Prop :=
  ∀ more, apart more → ∀ fuel (machine : Machine) cursor previous, machine.Resting →
    cursor.rest = text ++ more → (text ++ more).length ≤ fuel →
      ∃ less, ∃ nodes : List Node, ∃ next last, next.rest = more ∧ more.length ≤ less ∧
        parseFrom fuel machine cursor previous
          = parseFrom less (nodes.foldl Machine.put machine) next last

theorem Adds.append (first : Adds text apart) (second : Adds later apart')
    (meets : ∀ more, apart' more → apart (later ++ more)) : Adds (text ++ later) apart' := by
  intro more beyond fuel machine cursor previous resting rest enough
  rw [List.append_assoc] at rest enough
  obtain ⟨less, nodes, next, last, rest', enough', same⟩ :=
    first _ (meets more beyond) fuel machine cursor previous resting rest enough
  obtain ⟨less', others, next', last', rest'', enough'', same'⟩ :=
    second more beyond less _ next last (resting.puts nodes) rest' enough'
  exact ⟨less', nodes ++ others, next', last', rest'', enough'', by rw [same, same', List.foldl_append]⟩

theorem Adds.weaken (adds : Adds text apart) (weaker : ∀ more, apart' more → apart more) :
    Adds text apart' :=
  fun more beyond => adds more (weaker more beyond)

-- What is read in one way between and inside brackets and behind `export default`.
def ReadAs (text : Text) (lexed : Lexer.Lexed) (apart : Text → Prop) : Prop :=
  ∀ expected, expected ∈ Lexer.codeSets ∨ expected = Lexer.valueSet → ∀ before more, apart more →
    Lexer.lexeme? expected before (text ++ more) = some lexed

-- Behind `export default` no word that declares is read in another way, so only such words are to be kept out.
theorem readAs_plain (read : ∀ expected ∈ Lexer.codeSets, ∀ before more, apart more →
      Lexer.lexeme? expected before (text ++ more) = some lexed)
    (plain : ∀ more, apart more → ∀ size, Lexeme.name? (text ++ more) = some size →
      (text ++ more).take size ∉ Lexer.declaring) : ReadAs text lexed apart := by
  intro expected expects before more beyond
  rcases expects with code | rfl
  · exact read expected code before more beyond
  · rw [Lexer.lexeme?_value (plain more beyond)]
    exact read Terminal.outer (by decide) before more beyond

theorem readAs_unnamed (unnamed : ∀ c, text.head? = some c → Text.isNameStart c = false)
    (nonempty : text ≠ []) (read : ∀ expected ∈ Lexer.codeSets, ∀ before more, apart more →
      Lexer.lexeme? expected before (text ++ more) = some lexed) : ReadAs text lexed apart := by
  obtain ⟨c, rest, rfl⟩ := List.exists_cons_of_ne_nil nonempty
  refine readAs_plain read ?_
  intro more _ size named
  rw [List.cons_append, Lexeme.name?, unnamed c rfl] at named
  cases named

theorem readAs_word (named : Text.IsName text) (free : text ∉ Lexer.reserved)
    (plain : text ∉ Lexer.declaring) : ReadAs text (.token (.leaf .name) text.length) Masking.NotName := by
  refine readAs_plain ?_ ?_
  · intro expected code before more beyond
    rw [Segment.lexeme?_word named more beyond code, Lexer.nameTerminal_code code free]
  · obtain ⟨c, rest, rfl, starts, letters⟩ := named
    intro more beyond size whole
    rw [Segment.name?_append starts letters beyond] at whole
    rw [← Option.some.inj whole, List.take_left]
    exact plain

theorem adds_leaf (read : ReadAs text (.token (.leaf leaf) text.length) apart) (nonempty : text ≠ []) :
    Adds text apart := by
  intro more beyond fuel machine cursor previous resting rest enough
  have lexed := read machine.expected resting.expected cursor.before more beyond
  rw [← rest] at lexed
  have positive := List.length_pos_iff.mpr nonempty
  rw [List.length_append] at enough
  obtain ⟨less, rfl⟩ : ∃ less, fuel = less + 1 := ⟨fuel - 1, by omega⟩
  have behind : (cursor.advance text.length).rest = more := by
    rw [Cursor.rest_advance, rest, List.drop_left]
  exact ⟨less, [.leaf (cursor.token (.leaf leaf) text.length)], _, _, behind, by omega,
    parseFrom_token (by simp [rest, nonempty]) lexed (Machine.feed_leaf resting rfl)⟩

theorem adds_blanks (blank : ∀ c ∈ text, Text.isBlank c = true) (nonempty : text ≠ []) :
    Adds text Masking.NotBlank := by
  intro more beyond fuel machine cursor previous resting rest enough
  have lexed := Segment.lexeme?_blanks blank nonempty beyond machine.expected cursor.before
  rw [← rest] at lexed
  have positive := List.length_pos_iff.mpr nonempty
  rw [List.length_append] at enough
  obtain ⟨less, rfl⟩ : ∃ less, fuel = less + 1 := ⟨fuel - 1, by omega⟩
  have behind : (cursor.advance text.length).rest = more := by
    rw [Cursor.rest_advance, rest, List.drop_left]
  exact ⟨less, [], _, _, behind, by omega, parseFrom_skipped (by simp [rest, nonempty]) lexed⟩

theorem lexeme?_opener (bracket : Bracket) (code : expected ∈ Lexer.codeSets) (before more : Text) :
    Lexer.lexeme? expected before (bracket.opening :: more) = some (.token (.opener bracket) 1) := by
  have sound : (Segment.opener bracket).Sound := trivial
  have read : Lexer.lexeme? expected before ((Segment.opener bracket).text ++ more)
      = some (Segment.opener bracket).lexed :=
    Segment.lexeme?_segment sound trivial trivial code (fun _ same => nomatch same) before
  exact read

theorem lexeme?_closer (code : expected ∈ Lexer.codeSets) (expects : .closer bracket ∈ expected)
    (before more : Text) :
    Lexer.lexeme? expected before (bracket.closing :: more) = some (.token (.closer bracket) 1) := by
  have sound : (Segment.closer bracket).Sound := trivial
  have read : Lexer.lexeme? expected before ((Segment.closer bracket).text ++ more)
      = some (Segment.closer bracket).lexed := by
    refine Segment.lexeme?_segment sound trivial trivial code ?_ before
    rintro _ ⟨⟩
    exact expects
  exact read

-- What stands inside a group ends in front of its closing bracket.
theorem Adds.group (adds : Adds text apart) (bracket : Bracket)
    (ends : ∀ more, apart (bracket.closing :: more)) :
    Adds (bracket.opening :: (text ++ [bracket.closing])) Masking.Anything := by
  intro more _ fuel machine cursor previous resting rest enough
  have parts : cursor.rest = bracket.opening :: (text ++ bracket.closing :: more) := by simp [rest]
  have length : text.length + more.length + 2 ≤ fuel := by
    simp only [List.cons_append, List.append_assoc, List.length_cons, List.length_append,
      List.length_nil] at enough
    omega
  have opens : ReadAs [bracket.opening] (.token (.opener bracket) 1) Masking.Anything := by
    refine readAs_unnamed ?_ (List.cons_ne_nil _ _) fun expected code before more _ =>
      lexeme?_opener bracket code before more
    rintro c same
    cases same
    cases bracket <;> decide
  have opened := opens machine.expected resting.expected cursor.before (text ++ bracket.closing :: more) trivial
  rw [List.singleton_append, ← parts] at opened
  obtain ⟨fuel, rfl⟩ : ∃ less, fuel = less + 1 := ⟨fuel - 1, by omega⟩
  have lexed : (cursor.token (.opener bracket) 1).terminal = .opener bracket := rfl
  obtain ⟨entered, outers, fed, restingInside, open_, closes⟩ := Machine.feed_group resting lexed
  have inside : (cursor.advance 1).rest = text ++ bracket.closing :: more := by
    rw [Cursor.rest_advance, parts]
    rfl
  obtain ⟨less, nodes, next, last, behind, enough',
    same⟩ := adds _ (ends more) fuel entered (cursor.advance 1)
    (some (cursor.token (.opener bracket) 1)) restingInside inside (by simp; omega)
  have frames := congrArg Machine.frames (Machine.put_inside open_ nodes)
  obtain ⟨code, expects⟩ := Machine.expected_inside frames
  have closed := lexeme?_closer code expects next.before more
  rw [← behind] at closed
  obtain ⟨less, rfl⟩ : ∃ fewer, less = fewer + 1 := by
    rw [List.length_cons] at enough'
    exact ⟨less - 1, by omega⟩
  have ended := closes nodes (next.token (.closer bracket) 1) rfl
  refine ⟨less, [.group bracket (.leaf (cursor.token (.opener bracket) 1) ::
      (nodes ++ [.leaf (next.token (.closer bracket) 1)]))],
    next.advance 1, some (next.token (.closer bracket) 1), ?_, Nat.le_of_succ_le_succ enough', ?_⟩
  · rw [Cursor.rest_advance, behind]
    rfl
  · rw [parseFrom_token (by simp [parts]) opened fed, same, parseFrom_token (by simp [behind]) closed ended]
    rfl

-- A text that is code for the masker and for the parser.
structure Code (text : Text) (apart : Text → Prop) : Prop where
  shown : Masking.Shown text apart
  adds : Adds text apart

open Masking (Anything NotBlank NotName)

theorem Code.append (first : Code text apart) (second : Code later apart')
    (meets : ∀ more, apart' more → apart (later ++ more)) : Code (text ++ later) apart' :=
  ⟨first.shown.append second.shown meets, first.adds.append second.adds meets⟩

theorem Code.weaken (code : Code text apart) (weaker : ∀ more, apart' more → apart more) :
    Code text apart' :=
  ⟨code.shown.weaken weaker, code.adds.weaken weaker⟩

theorem Code.group (code : Code text apart) (bracket : Bracket)
    (ends : ∀ more, apart (bracket.closing :: more)) :
    Code (bracket.opening :: (text ++ [bracket.closing])) Anything := by
  refine ⟨?_, code.adds.group bracket ends⟩
  have marks : bracket.opening ∈ Masking.plainMarks ∧ bracket.closing ∈ Masking.plainMarks := by
    cases bracket <;> decide
  have inside := code.shown.append (Masking.shown_mark marks.2) fun more _ => ends more
  exact (Masking.shown_mark marks.1).append inside fun _ _ => trivial

theorem code_nil : Code [] Anything :=
  ⟨fun _ => ⟨[], ⟨rfl, fun _ _ => rfl⟩, rfl⟩,
    fun _ _ fuel _ cursor previous _ rest enough => ⟨fuel, [], cursor, previous, rest, enough, rfl⟩⟩

theorem code_word (named : Text.IsName text) (free : text ∉ Lexer.reserved)
    (plain : text ∉ Lexer.declaring) : Code text NotName := by
  have spelled := Masking.spelled_of_isName named
  exact ⟨Masking.shown_word spelled, adds_leaf (readAs_word named free plain) spelled.1⟩

theorem code_blanks (blank : ∀ c ∈ text, Text.isBlank c = true) (nonempty : text ≠ []) :
    Code text NotBlank :=
  ⟨Masking.shown_blanks blank nonempty, adds_blanks blank nonempty⟩

theorem code_sealed {inner : Text} (closed : Literal.sealed inner = true) :
    Code ('"' :: (inner ++ ['"'])) Anything := by
  have nonempty : '"' :: (inner ++ ['"']) ≠ [] := List.cons_ne_nil _ _
  have read : ReadAs ('"' :: (inner ++ ['"'])) (.token (.leaf .string) ('"' :: (inner ++ ['"'])).length)
      Anything := by
    refine readAs_unnamed ?_ nonempty fun expected code before more _ =>
      Segment.lexeme?_sealed closed more code before
    rintro c same
    cases same
    decide
  exact ⟨Masking.shown_sealed closed, adds_leaf read nonempty⟩

-- A mark that nothing makes longer.
theorem code_punctuator (mark : c ∈ [',', ':', ';', '-'])
    (alone : ∀ more, apart more → Lexeme.punctuator? (c :: more) = some 1) : Code [c] apart := by
  have facts : ∀ c ∈ [',', ':', ';', '-'], c ∈ Masking.plainMarks ∧ Text.isNameStart c = false ∧
      c ≠ '/' ∧ c ≠ '#' ∧ Text.isBlank c = false := by decide
  obtain ⟨plain, unnamed, slash, hash, visible⟩ := facts c mark
  have read : ReadAs [c] (.token (.leaf .punctuator) 1) apart := by
    refine readAs_unnamed ?_ (List.cons_ne_nil _ _) fun expected code before more beyond => ?_
    · rintro d same
      cases same
      exact unnamed
    · have others : ∀ leaf, leaf = .name ∨ leaf = .member ∨ leaf = .number ∨ leaf = .string ∨
          leaf = .template → Lexer.leaf? expected [] (c :: more) leaf = none := by
        intro leaf other
        refine Lexer.leaf?_unread leaf ?_
        simp only [List.mem_cons, List.not_mem_nil, or_false] at mark
        rcases mark with rfl | rfl | rfl | rfl
        all_goals rcases other with rfl | rfl | rfl | rfl | rfl <;> rfl
      have here : Lexer.leaf? expected [] (c :: more) .punctuator
          = some (.token (.leaf .punctuator) 1) := by
        rw [Lexer.leaf?, if_pos (Lexer.contains_leaf code .punctuator)]
        simp [Lexer.leafSize?, alone more beyond, Lexer.punctuatorTerminal_code code]
      rw [List.singleton_append, Lexer.lexeme?_visible slash hash visible, others .name (by simp),
        others .member (by simp), others .number (by simp), others .string (by simp),
        others .template (by simp), here]
      rfl
  exact ⟨(Masking.shown_mark plain).weaken fun _ _ => trivial, adds_leaf read (List.cons_ne_nil _ _)⟩

theorem code_mark (mark : c ∈ [',', ':', ';']) : Code [c] Anything := by
  have listed : c ∈ [',', ':', ';', '-'] := List.mem_append_left ['-'] mark
  refine code_punctuator listed fun more _ => ?_
  simp only [List.mem_cons, List.not_mem_nil, or_false] at mark
  rcases mark with rfl | rfl | rfl <;> rfl

def NotMinus (more : Text) : Prop := ∀ c, more.head? = some c → c ≠ '-' ∧ c ≠ '='

theorem code_minus : Code ['-'] NotMinus := by
  refine code_punctuator (by decide) fun more beyond => ?_
  cases more with
  | nil => decide
  | cons c more =>
    obtain ⟨minus, equal⟩ := beyond c rfl
    simp [Lexeme.punctuator?, Lexeme.punctuators, Text.startsWith, List.isPrefixOf,
      beq_false_of_ne (Ne.symm minus), beq_false_of_ne (Ne.symm equal)]

end Syntax
end ModuleBundler
