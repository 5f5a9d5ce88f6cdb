import ModuleBundler.Proofs.Masking.Nesting
import ModuleBundler.Proofs.Masking.Templates
import ModuleBundler.Proofs.Rewriting.FaultPlaces
import ModuleBundler.Proofs.Syntax.Twins

/-!
Modules with one template literal at a place that the masker and the parser come to whatever follows. The literal
is taken as one token exactly if no braces in its substitutions stand in other ones, and then the tokens around it
are those of the module that has a literal without substitutions in its place.
-/
namespace ModuleBundler

namespace Lexer
open Lexeme
variable {depth : Nat} {text : Text}

-- At a backtick there is a template literal or nothing.
theorem lexeme?_backtick (expected : List Terminal) (before rest : Text) :
    lexeme? expected before ('\x60' :: rest)
      = if .leaf .template ∈ expected then
          (template? ('\x60' :: rest)).map fun size => .token (.leaf .template) size
        else none := by
  have sizes : ∀ leaf, leaf ≠ .template → leafSize? leaf before ('\x60' :: rest) = none := by
    intro leaf other
    cases leaf with
    | template => exact absurd rfl other
    | regex => simp [leafSize?, regex?, Lexeme.regex?, show regexBody? ('\x60' :: rest) = none from rfl]
    | _ => rfl
  have leaves : ∀ leaf, leaf ≠ .template → leaf? expected before ('\x60' :: rest) leaf = none := by
    intro leaf other
    rw [leaf?, sizes leaf other, Option.map_none, ite_self]
  have ignored : ignored? before ('\x60' :: rest) = none := by
    simp [ignored?, show blanks? ('\x60' :: rest) = none from rfl,
      show comment? ('\x60' :: rest) = none from rfl,
      show hashbang? ('\x60' :: rest) = none from rfl]
  have word : spelled? expected ('\x60' :: rest) = none := by
    have heads : ∀ entry ∈ spelled, entry.2.head?.any (· != '\x60') = true := by decide
    rw [spelled?, List.find?_eq_none.mpr, Option.map_none]
    intro entry among
    obtain ⟨c, head, apart⟩ := (Option.any_eq_true _ _).mp (heads entry among)
    obtain ⟨letters, same⟩ := List.head?_eq_some_iff.mp head
    simp only [bne_iff_ne, ne_eq] at apart
    simp [Text.startsWith, same, List.isPrefixOf, apart]
  have own : leaf? expected before ('\x60' :: rest) .template = if .leaf .template ∈ expected then
      (template? ('\x60' :: rest)).map fun size => .token (.leaf .template) size else none := by
    simp only [leaf?, leafSize?, List.contains_iff_mem]
  unfold lexeme?
  rw [leaves .regex (by decide), leaves .name (by decide), leaves .member (by decide),
    leaves .number (by decide),
    leaves .string (by decide), leaves .punctuator (by decide), ignored, word, own]
  simp [Option.orElse_eq_or]

theorem lexeme?_quoted (template : Template depth text) (expects : .leaf .template ∈ expected) (before more : Text) :
    lexeme? expected before (quoted text ++ more)
      = if depth ≤ 1 then some (.token (.leaf .template) (quoted text).length) else none := by
  have read := template?_quoted template more
  rw [quoted_append] at read ⊢
  rw [lexeme?_backtick, if_pos expects, read]
  split
  · rfl
  · rfl

end Lexer

namespace Lexeme
variable {text : Text}

-- A text of the same lines without anything on them.
def plain (text : Text) : Text := text.map fun c => if c = '\n' then c else ' '

theorem template_plain (text : Text) : Template 0 (plain text) := by
  induction text with
  | nil => exact .nil
  | cons c text ih =>
    have blank : ∀ d ∈ ['\x60', '\\', '$'], (if c = '\n' then c else ' ') ≠ d := by
      intro d among
      split
      · rename_i broken
        rw [broken]
        revert d
        decide
      · revert d
        decide
    exact .char (blank _ (by simp)) (blank _ (by simp)) (fun dollar => absurd dollar (blank _ (by simp))) ih

theorem plain_blanked (text : Text) : List.Forall₂ Masking.Blanked (quoted (plain text)) (quoted text) := by
  have inside : List.Forall₂ Masking.Blanked (plain text) text := by
    induction text with
    | nil => exact .nil
    | cons c text ih =>
      refine .cons ?_ ih
      dsimp only
      split
      · exact .inl rfl
      · rename_i unbroken
        exact .inr ⟨rfl, unbroken⟩
  exact .cons (.inl rfl) (List.rel_append inside (Masking.blanked_refl _))

end Lexeme

namespace Masking

-- Nothing is blanked in front of the first slash.
theorem Blotted.slashless (blotted : Blotted false masked (front ++ back)) (slashless : '/' ∉ front) :
    ∃ later, masked = front ++ later := by
  induction front generalizing masked with
  | nil => exact ⟨masked, rfl⟩
  | cons c front ih =>
    rw [List.mem_cons, not_or] at slashless
    cases blotted with
    | shown behind =>
      rw [beq_false_of_ne (Ne.symm slashless.1)] at behind
      obtain ⟨later, rfl⟩ := ih behind slashless.2
      exact ⟨later, rfl⟩

end Masking

-- The place behind a text.
def Cursor.behind (passed rest : Text) : Cursor :=
  ⟨passed.reverse, rest, passed.length, Text.newlines passed + 1, (Text.lastLine passed.reverse).length + 1⟩

namespace Syntax
open Lexeme Masking
variable {depth : Nat} {text front back rest passed : Text} {machine next : Machine} {cursor : Cursor}
  {token other : Token}

theorem Comes.behind (comes : Comes (passed ++ rest) machine cursor) (stands : cursor.rest = rest) :
    cursor = Cursor.behind passed rest := by
  have within := comes.within
  have parts := within.parts
  rw [stands] at parts
  have before : cursor.before = passed.reverse := by
    rw [← List.append_cancel_right parts, List.reverse_reverse]
  have offset := within.offset
  have line := within.line
  have column := comes.column
  rw [before] at offset line column
  rw [List.length_reverse] at offset
  rw [Text.newlines, List.count_reverse] at line
  obtain ⟨_, _, _, _, _⟩ := cursor
  cases before
  cases stands
  cases offset
  cases line
  cases column
  rfl

theorem Comes.past (comes : Comes (passed ++ (text ++ rest)) machine (.behind passed (text ++ rest)))
    (read : Lexer.lexeme? machine.expected passed.reverse (text ++ rest) = some (.token terminal text.length))
    (fed : machine.feed ((Cursor.behind passed (text ++ rest)).token terminal text.length) = some next) :
    Comes (passed ++ text ++ rest) next (.behind (passed ++ text) rest) := by
  have taken := comes.take read fed
  have stands : ((Cursor.behind passed (text ++ rest)).advance text.length).rest = rest := by
    rw [Cursor.rest_advance, Cursor.behind, List.drop_left]
  rw [← List.append_assoc] at taken
  rw [← taken.behind stands]
  exact taken

-- An accepted text is read further wherever the parser is before its end.
theorem Comes.fed (comes : Comes text machine cursor) (accepted : Syntax.parse text = .ok parsed)
    (remains : cursor.rest ≠ []) :
    ∃ lexed, Lexer.lexeme? machine.expected cursor.before cursor.rest = some lexed ∧
      ∀ terminal size, lexed = .token terminal size → ∃ next, machine.feed (cursor.token terminal size) = some next := by
  obtain ⟨fuel, previous, _, goes⟩ := comes.parse
  rw [goes] at accepted
  cases read : Lexer.lexeme? machine.expected cursor.before cursor.rest with
  | none =>
    obtain ⟨fault, stops⟩ : ∃ fault, parseFrom fuel machine cursor previous = .error fault :=
      parseFrom_unread remains read
    rw [stops] at accepted
    cases accepted
  | some lexed =>
    refine ⟨lexed, rfl, ?_⟩
    rintro terminal size rfl
    cases feeds : machine.feed (cursor.token terminal size) with
    | some next => exact ⟨next, rfl⟩
    | none =>
      obtain ⟨fault, stops⟩ : ∃ fault, parseFrom fuel machine cursor previous = .error fault :=
        parseFrom_refused remains read feeds
      rw [stops] at accepted
      cases accepted

namespace Machine

theorem frames_alike (frames : List Frame) : List.Forall₂ Frame.Alike frames frames :=
  List.forall₂_same.mpr fun _ _ => ⟨rfl, rfl⟩

-- Template literals are taken alike.
theorem feed_template (own : token.terminal = .leaf .template) (same : other.terminal = .leaf .template)
    (fed : machine.feed token = some next) :
    ∃ otherNext, machine.feed other = some otherNext ∧ Twins next otherNext := by
  obtain ⟨items, progress, frames⟩ := machine
  obtain ⟨_, _, _, _, _⟩ := token
  obtain ⟨_, _, _, _, _⟩ := other
  cases own
  cases same
  cases frames with
  | cons frame outers =>
    cases fed
    exact ⟨_, rfl, rfl, .cons ⟨rfl, rfl⟩ (frames_alike outers)⟩
  | nil =>
    cases progress with
    | idle | exportDefault | exportDefaultAsync | exportList =>
      cases fed
      exact ⟨_, rfl, rfl, .nil⟩
    | importNames _ _ list | exportNames _ list =>
      obtain ⟨_, _, stage⟩ := list
      cases stage
      all_goals cases fed
    | _ => cases fed

end Machine

-- A front of modules that is divided and read alike in front of every backtick.
structure Leads (front : Text) (own : List Piece) (reading : Reading) (machine : Machine) : Prop where
  texts : own.flatMap Piece.text = front
  divides : ∀ rest, pieces (front ++ '\x60' :: rest) = own ++ piecesFrom reading ('\x60' :: rest)
  comes : ∀ rest, ∃ cursor,
    Comes (own.flatMap Piece.masked ++ '\x60' :: rest) machine cursor ∧ cursor.rest = '\x60' :: rest

variable {own : List Piece} {reading : Reading}

theorem Leads.blanked (leads : Leads front own reading machine) :
    List.Forall₂ Blanked (own.flatMap Piece.masked) front := by
  have whole := mask_blanked (front ++ ['\x60'])
  rw [mask, leads.divides, List.flatMap_append] at whole
  have size := whole.length_eq
  rw [List.length_append, List.length_append, (piecesFrom_blanked reading ['\x60']).length_eq] at size
  have same := Nat.add_right_cancel size
  have both := List.forall₂_take front.length whole
  rwa [List.take_left, ← same, List.take_left] at both

theorem Leads.reached (leads : Leads front own reading machine) (rest : Text) :
    Comes (own.flatMap Piece.masked ++ '\x60' :: rest) machine
      (.behind (own.flatMap Piece.masked) ('\x60' :: rest)) := by
  obtain ⟨cursor, comes, stands⟩ := leads.comes rest
  rw [← comes.behind stands]
  exact comes

theorem Leads.pieces_shallow (leads : Leads front own reading machine) (template : Template depth text)
    (shallow : depth ≤ 1) (back : Text) :
    pieces (front ++ (quoted text ++ back))
      = own ++ ⟨.literal, quoted text⟩ :: piecesFrom { reading with preceding := .literal } back := by
  have next := nextPiece_quoted template reading.preceding back
  have size : (quoted text).length - 1 = (text ++ ['\x60']).length := by simp [quoted]
  rw [if_pos shallow, quoted_append, size] at next
  have whole : text ++ '\x60' :: back = (text ++ ['\x60']) ++ back := by simp
  rw [quoted_append, leads.divides, piecesFrom_cons next, whole, List.take_left, List.drop_left]
  rfl

theorem Leads.mask_shallow (leads : Leads front own reading machine) (template : Template depth text)
    (shallow : depth ≤ 1) (back : Text) :
    mask (front ++ (quoted text ++ back)) = own.flatMap Piece.masked ++ (quoted text
      ++ (piecesFrom { reading with preceding := .literal } back).flatMap Piece.masked) := by
  rw [mask, leads.pieces_shallow template shallow, List.flatMap_append, List.flatMap_cons]
  rfl

-- A literal that is not read as one is a mark and what follows, up to the first slash as it stands.
theorem Leads.mask_deep (leads : Leads front own reading machine) (template : Template depth text)
    (deep : 1 < depth) (slashless : '/' ∉ text) (back : Text) :
    ∃ later, mask (front ++ (quoted text ++ back)) = own.flatMap Piece.masked ++ (quoted text ++ later) := by
  have next := nextPiece_quoted template reading.preceding back
  rw [if_neg (Nat.not_le.mpr deep), quoted_append] at next
  have blotted := piecesFrom_blotted false (reading.after .mark ['\x60']) ((text ++ ['\x60']) ++ back)
  obtain ⟨later, shown⟩ := blotted.slashless (by simpa using slashless)
  refine ⟨later, ?_⟩
  rw [List.append_assoc, List.singleton_append] at shown
  rw [quoted_append, mask, leads.divides, piecesFrom_cons next, List.flatMap_append,
    List.flatMap_cons, List.take_zero,
    List.drop_zero, shown]
  simp [Piece.masked, quoted]

-- The token that a template literal behind a text is.
def templateBehind (passed text : Text) : Token :=
  ⟨.leaf .template, quoted text, passed.length, Text.newlines passed + 1,
    (Text.lastLine passed.reverse).length + 1⟩

theorem behind_token (passed text rest : Text) :
    (Cursor.behind passed (quoted text ++ rest)).token (.leaf .template) (quoted text).length
      = templateBehind passed text := by
  rw [Cursor.token, Cursor.behind, List.take_left]
  rfl

-- Behind two literals of one length and the same lines the parser is at one place.
theorem level_quoted (passed text rest : Text) :
    Level (.behind (passed ++ quoted (plain text)) rest) (.behind (passed ++ quoted text) rest) := by
  have blanked := List.rel_append (blanked_refl passed) (plain_blanked text)
  refine ⟨⟨rfl, blanked.length_eq.symm, ?_, ?_⟩, [], (passed ++ '\x60' :: plain text).reverse,
    (passed ++ '\x60' :: text).reverse, by simp [Cursor.behind, quoted], by simp [Cursor.behind, quoted]⟩
  · exact congrArg (· + 1) (newlines_blanked blanked).symm
  · exact congrArg (· + 1) (lastLine_blanked (List.rel_reverse blanked)).symm

theorem templateBehind_blanked (blanked : List.Forall₂ Blanked passed front) (text : Text) :
    templateBehind passed text = templateBehind front text := by
  rw [templateBehind, blanked.length_eq, newlines_blanked blanked,
    lastLine_blanked (List.rel_reverse blanked)]
  rfl

theorem Leads.takes (leads : Leads front own reading machine) (template : Template depth text) (shallow : depth ≤ 1)
    (expects : .leaf .template ∈ machine.expected)
    (fed : machine.feed (templateBehind (own.flatMap Piece.masked) text) = some next) (rest : Text) :
    Comes (own.flatMap Piece.masked ++ quoted text ++ rest) next
        (.behind (own.flatMap Piece.masked ++ quoted text) rest) ∧
      next.tokens = machine.tokens ++ [templateBehind front text] := by
  have comes := leads.reached (text ++ '\x60' :: rest)
  rw [← quoted_append] at comes
  have read := Lexer.lexeme?_quoted template expects (own.flatMap Piece.masked).reverse rest
  rw [if_pos shallow] at read
  refine ⟨comes.past read (by rwa [behind_token]), ?_⟩
  rw [(Machine.feed_tokens comes.ready fed).1, templateBehind_blanked leads.blanked]

-- Where the plain literal is accepted a template literal is expected and taken.
theorem Leads.expects (leads : Leads front own reading machine)
    (accepted : parse (mask (front ++ (quoted (plain text) ++ back))) = .ok stand) :
    .leaf .template ∈ machine.expected ∧
      ∃ next, machine.feed (templateBehind (own.flatMap Piece.masked) (plain text)) = some next := by
  rw [leads.mask_shallow (template_plain text) (Nat.zero_le 1), quoted_append] at accepted
  obtain ⟨lexed, read, feeds⟩ := (leads.reached _).fed accepted (List.cons_ne_nil _ _)
  have expects : .leaf .template ∈ machine.expected := by
    rw [Cursor.behind, Lexer.lexeme?_backtick] at read
    by_contra missing
    rw [if_neg missing] at read
    cases read
  refine ⟨expects, ?_⟩
  rw [← quoted_append] at read feeds
  have own := Lexer.lexeme?_quoted (template_plain text) expects
  rw [Cursor.behind, own, if_pos (Nat.zero_le 1)] at read
  obtain rfl := Option.some.inj read
  rw [← behind_token]
  exact feeds _ _ rfl

-- A literal that is read as one is taken, and what follows is read as it is behind the plain one.
theorem Leads.accepts (leads : Leads front own reading machine) (template : Template depth text) (shallow : depth ≤ 1)
    (accepted : parse (mask (front ++ (quoted (plain text) ++ back))) = .ok stand) :
    ∃ parsed later, parse (mask (front ++ (quoted text ++ back))) = .ok parsed ∧
      parsed.items.flatMap Item.tokens = machine.tokens ++ templateBehind front text :: later ∧
      stand.items.flatMap Item.tokens = machine.tokens ++ templateBehind front (plain text) :: later := by
  obtain ⟨expects, plainNext, plainFed⟩ := leads.expects accepted
  obtain ⟨next, fed, twins⟩ := Machine.feed_template rfl
    (show (templateBehind (own.flatMap Piece.masked) text).terminal = .leaf .template from rfl) plainFed
  rw [leads.mask_shallow (template_plain text) (Nat.zero_le 1)] at accepted
  rw [leads.mask_shallow template shallow]
  generalize (piecesFrom { reading with preceding := .literal } back).flatMap Piece.masked = behind at accepted ⊢
  obtain ⟨past, tokens⟩ := leads.takes template shallow expects fed behind
  obtain ⟨plainPast, plainTokens⟩ := leads.takes (template_plain text) (Nat.zero_le 1) expects plainFed behind
  obtain ⟨fuel, previous, enough, goes⟩ := past.parse
  obtain ⟨plainFuel, plainPrevious, _, plainGoes⟩ := plainPast.parse
  rw [← List.append_assoc] at accepted ⊢
  obtain ⟨parsed, later, accepts, plainAll,
    all⟩ := parseFrom_twins twins (level_quoted _ text behind) plainPast.ready
    past.ready enough (plainGoes.symm.trans accepted)
  refine ⟨parsed, later, goes.trans accepts, ?_, ?_⟩
  · rw [all, tokens, List.append_assoc]
    rfl
  · rw [plainAll, plainTokens, List.append_assoc]
    rfl

-- A literal that is not read as one is refused at its backtick.
theorem Leads.refuses (leads : Leads front own reading machine) (template : Template depth text) (deep : 1 < depth)
    (slashless : '/' ∉ text) (back : Text) :
    transpile (front ++ (quoted text ++ back)) = .error (.grammar
      (.character '\x60' (templateBehind front text).line (templateBehind front text).column)) := by
  obtain ⟨later, shown⟩ := leads.mask_deep template deep slashless back
  have comes := leads.reached (text ++ '\x60' :: later)
  have unread : ∀ expected before,
      Lexer.lexeme? expected before ('\x60' :: (text ++ '\x60' :: later)) = none := by
    intro expected before
    have none_ := template?_quoted template later
    rw [if_neg (Nat.not_le.mpr deep), quoted_append] at none_
    rw [Lexer.lexeme?_backtick, none_, Option.map_none, ite_self]
  have refused : parse (mask (front ++ (quoted text ++ back))) = .error (.character '\x60'
      (templateBehind front text).line (templateBehind front text).column) := by
    obtain ⟨fuel, previous, _, goes⟩ := comes.parse
    rw [shown, quoted_append, goes, parseFrom.eq_def, ← templateBehind_blanked leads.blanked]
    simp only [Cursor.behind, unread, faultAt]
    rfl
  rw [transpile, Rewriting.analyzeSource, refused]
  rfl

-- The literal between a front and a back is one piece and one token, and the other tokens are those of the module
-- with the plain literal.
structure Taken (front text back : Text) (stand : Module) : Prop where
  piece : ∃ before after, pieces (front ++ (quoted text ++ back)) = before ++ ⟨.literal,
    quoted text⟩ :: after ∧
    before.flatMap Piece.text = front
  token : ∃ parsed earlier later, parse (mask (front ++ (quoted text ++ back))) = .ok parsed ∧
    parsed.items.flatMap Item.tokens = earlier ++ templateBehind front text :: later ∧
    stand.items.flatMap Item.tokens = earlier ++ templateBehind front (plain text) :: later

theorem Leads.shallow_of_piece (leads : Leads front own reading machine) (template : Template depth text)
    (parts : pieces (front ++ (quoted text ++ back)) = before ++ ⟨.literal, quoted text⟩ :: after)
    (texts : before.flatMap Piece.text = front) : depth ≤ 1 := by
  by_contra deep
  have next := nextPiece_quoted template reading.preceding back
  rw [if_neg deep, quoted_append] at next
  have nonempty := pieces_nonempty (front ++ (quoted text ++ back))
  rw [parts] at nonempty
  rw [quoted_append, leads.divides, piecesFrom_cons next] at parts
  obtain ⟨_, same⟩ := parted_unique parts.symm nonempty (texts.trans leads.texts.symm)
  cases same

-- A template literal is one piece and one token exactly if the braces of its substitutions stand in no other ones.
-- With deeper ones it is refused, unless a regex in it could be blanked.
theorem template_taken_iff (template : Template depth text) (leads : Leads front own reading machine)
    (accepted : parse (mask (front ++ (quoted (plain text) ++ back))) = .ok stand) :
    (∀ preceding more,
      nextPiece preceding (quoted text ++ more) = (.literal, (quoted text).length - 1) ↔ depth ≤ 1) ∧
    (∀ expected before more, .leaf .template ∈ expected →
      (Lexer.lexeme? expected before (quoted text ++ more) = some (.token (.leaf .template) (quoted text).length)
        ↔ depth ≤ 1)) ∧
    (Taken front text back stand ↔ depth ≤ 1) ∧
    (1 < depth → '/' ∉ text → transpile (front ++ (quoted text ++ back)) = .error (.grammar
      (.character '\x60' (templateBehind front text).line (templateBehind front text).column))) := by
  refine ⟨?_, ?_, ⟨?_, ?_⟩, fun deep slashless => leads.refuses template deep slashless back⟩
  · intro preceding more
    rw [nextPiece_quoted template]
    by_cases shallow : depth ≤ 1
    · simp [shallow]
    · simp [shallow]
  · intro expected before more expects
    rw [Lexer.lexeme?_quoted template expects]
    by_cases shallow : depth ≤ 1
    · simp [shallow]
    · simp [shallow]
  · rintro ⟨⟨before, after, parts, texts⟩, _⟩
    exact leads.shallow_of_piece template parts texts
  · intro shallow
    obtain ⟨parsed, later, accepts, all, plainAll⟩ := leads.accepts template shallow accepted
    exact ⟨⟨own, _, leads.pieces_shallow template shallow back, leads.texts⟩,
      ⟨parsed, machine.tokens, later, accepts, all, plainAll⟩⟩

-- In front of the argument of a call.
theorem call_leads : ∃ own reading machine, Leads ['f', '('] own reading machine := by
  have word : ∀ rest, piecesFrom {} ('f' :: '(' :: rest) = ⟨.word,
    ['f']⟩ :: piecesFrom ⟨.word ['f'], []⟩ ('(' :: rest) :=
    fun rest => piecesFrom_cons rfl
  have paren : ∀ rest, piecesFrom ⟨.word ['f'], []⟩ ('(' :: rest)
      = ⟨.mark, ['(']⟩ :: piecesFrom ⟨.mark '(', [false]⟩ rest :=
    fun rest => piecesFrom_cons rfl
  let name : Token := ⟨.leaf .name, ['f'], 0, 1, 1⟩
  let opening : Token := ⟨.opener .paren, ['('], 1, 1, 2⟩
  refine ⟨[⟨.word, ['f']⟩, ⟨.mark, ['(']⟩], ⟨.mark '(', [false]⟩,
    { items := [.node (.leaf name)], progress := .idle true,
      frames := [⟨.paren, [.leaf opening]⟩] }, rfl, ?_, ?_⟩
  · intro rest
    show piecesFrom {} ('f' :: '(' :: '\x60' :: rest) = _
    rw [word, paren]
    rfl
  · intro rest
    have nameRead : Lexer.lexeme? (Machine.mk [] (.idle false) []).expected [] ('f' :: '(' :: '\x60' :: rest)
        = some (.token (.leaf .name) 1) := rfl
    have named : Comes ('f' :: '(' :: '\x60' :: rest)
        { items := [.node (.leaf name)], progress := .idle true }
        ⟨['f'], '(' :: '\x60' :: rest, 1, 1, 2⟩ := .take .start nameRead rfl
    have openingRead : Lexer.lexeme? (Machine.mk [.node (.leaf name)] (.idle true) []).expected ['f']
        ('(' :: '\x60' :: rest) = some (.token (.opener .paren) 1) := rfl
    exact ⟨_, named.take openingRead rfl, rfl⟩

-- An object in a substitution, and an object in an object.
def objectText : Text := "$\x7b\x7ba:1\x7d\x7d".toList
def nestedText : Text := "$\x7b\x7ba:\x7bb:1\x7d\x7d\x7d".toList

theorem template_object : Template 1 objectText := by
  have entry : Braced 0 "a:1".toList := .char (by decide) (.char (by decide) (.char (by decide) .nil))
  exact .substitution (.braces entry .nil) .nil

theorem template_nested : Template 2 nestedText := by
  have entry : Braced 0 "b:1".toList := .char (by decide) (.char (by decide) (.char (by decide) .nil))
  have outer : Braced 1 "a:\x7bb:1\x7d".toList := .char (by decide) (.char (by decide) (.braces entry .nil))
  exact .substitution (.braces outer .nil) .nil

-- The one argument is a token, and the other one is refused.
theorem arguments_taken : ∃ own reading machine objectStand nestedStand, Leads ['f',
    '('] own reading machine ∧
    parse (mask (['f', '('] ++ (quoted (plain objectText) ++ [')']))) = .ok objectStand ∧
    parse (mask (['f', '('] ++ (quoted (plain nestedText) ++ [')']))) = .ok nestedStand ∧
    Taken ['f', '('] objectText [')'] objectStand ∧ ¬ Taken ['f', '('] nestedText [')'] nestedStand ∧
    transpile (['f', '('] ++ (quoted nestedText ++ [')'])) = .error (.grammar (.character '\x60' 1 3)) := by
  obtain ⟨own, reading, machine, leads⟩ := call_leads
  have accepts : ∀ text ∈ [objectText, nestedText],
      (parse (mask (['f', '('] ++ (quoted (plain text) ++ [')'])))).isOk = true := by
    decide +kernel
  have stands : ∀ text ∈ [objectText, nestedText],
      ∃ stand, parse (mask (['f', '('] ++ (quoted (plain text) ++ [')']))) = .ok stand := by
    intro text among
    have accepted := accepts text among
    cases parses : parse (mask (['f', '('] ++ (quoted (plain text) ++ [')']))) with
    | error fault =>
      rw [parses] at accepted
      cases accepted
    | ok stand => exact ⟨stand, rfl⟩
  obtain ⟨objectStand, objectAccepted⟩ := stands objectText (by simp)
  obtain ⟨nestedStand, nestedAccepted⟩ := stands nestedText (by simp)
  obtain ⟨_, _, object, _⟩ := template_taken_iff template_object leads objectAccepted
  obtain ⟨_, _, nested, refused⟩ := template_taken_iff template_nested leads nestedAccepted
  exact ⟨own, reading, machine, objectStand, nestedStand, leads, objectAccepted, nestedAccepted,
    object.mpr (by decide),
    mt nested.mp (by decide), refused (by decide) (by decide)⟩

-- A module that holds nothing else is refused, although the plain literal is accepted in its place.
theorem nested_refused : Template 2 nestedText ∧ (parse (mask (quoted (plain nestedText)))).isOk = true ∧
    transpile (quoted nestedText) = .error (.grammar (.character '\x60' 1 1)) := by
  refine ⟨template_nested, ?_⟩
  decide +kernel

end Syntax
end ModuleBundler
