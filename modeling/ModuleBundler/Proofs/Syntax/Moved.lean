import ModuleBundler.Proofs.Syntax.Alike

/-!
The parser looks at nothing of a token but its terminal: where the same text is read further on, and behind
other items, it gives the same items with their tokens moved.
-/
namespace ModuleBundler

-- How much further on the same text stands, and the columns that its tokens have there.
structure Move where
  far : Nat
  column : Token → Nat

-- Further on by whole lines.
def Move.lines (far : Nat) : Move := ⟨far, Token.column⟩

-- Further on in its line.
def Move.columns (far : Nat) : Move := ⟨far, fun token => token.column + far⟩

section
variable (move : Move)

-- A token of the same text, where that begins later.
def Token.moved (token : Token) : Token :=
  { token with start := token.start + move.far, column := move.column token }

namespace Node

mutual
def moved : Node → Node
  | leaf token => leaf (token.moved move)
  | group bracket children => group bracket (movedAll children)

def movedAll : List Node → List Node
  | [] => []
  | node :: nodes => moved node :: movedAll nodes
end

theorem movedAll_eq_map (nodes : List Node) : movedAll move nodes = nodes.map (moved move) := by
  induction nodes with
  | nil => rfl
  | cons node nodes ih => rw [movedAll, ih, List.map_cons]

end Node

namespace Syntax

def Rename.moved (rename : Rename) : Rename := ⟨rename.asWord.moved move, rename.name.moved move⟩

def Specifier.moved (specifier : Specifier) : Specifier :=
  ⟨specifier.name.moved move, specifier.rename.map (Rename.moved move)⟩

def Entry.moved (entry : Entry) : Entry :=
  ⟨entry.specifier.moved move, entry.comma.map (Token.moved move)⟩

def SpecifierList.moved (list : SpecifierList) : SpecifierList :=
  ⟨list.opener.moved move, list.entries.map (Entry.moved move), list.closer.moved move⟩

def DefaultHead.moved (head : DefaultHead) : DefaultHead := ⟨head.name.moved move, head.comma.moved move⟩

def FunctionHead.moved (head : FunctionHead) : FunctionHead :=
  ⟨head.asyncWord.map (Token.moved move), head.functionWord.moved move, head.star.map (Token.moved move)⟩

def ImportClause.moved : ImportClause → ImportClause
  | .defaultOnly name => .defaultOnly (name.moved move)
  | .namespace head star asWord name =>
    .namespace (head.map (DefaultHead.moved move)) (star.moved move) (asWord.moved move) (name.moved move)
  | .named head list => .named (head.map (DefaultHead.moved move)) (list.moved move)

def DefaultTarget.moved : DefaultTarget → DefaultTarget
  | .expression => .expression
  | .async word => .async (word.moved move)
  | .namedFunction head name => .namedFunction (head.moved move) (name.moved move)
  | .anonymousFunction head parameters => .anonymousFunction (head.moved move) (parameters.moved move)
  | .namedClass classWord name => .namedClass (classWord.moved move) (name.moved move)
  | .anonymousClass classWord body => .anonymousClass (classWord.moved move) (body.moved move)
  | .derivedClass classWord extendsWord => .derivedClass (classWord.moved move) (extendsWord.moved move)

def ExportBody.moved : ExportBody → ExportBody
  | .default word target => .default (word.moved move) (target.moved move)
  | .function head name => .function (head.moved move) (name.moved move)
  | .class classWord name => .class (classWord.moved move) (name.moved move)
  | .variable kind binding => .variable (kind.moved move) (binding.moved move)
  | .names list => .names (list.moved move)
  | .namesFrom list fromWord source => .namesFrom (list.moved move) (fromWord.moved move) (source.moved move)
  | .all star fromWord source => .all (star.moved move) (fromWord.moved move) (source.moved move)
  | .namespace star asWord name fromWord source =>
    .namespace (star.moved move) (asWord.moved move) (name.moved move) (fromWord.moved move) (source.moved move)

def Item.moved : Item → Item
  | .node code => .node (code.moved move)
  | .importCall word arguments => .importCall (word.moved move) (arguments.moved move)
  | .importMeta word dot name => .importMeta (word.moved move) (dot.moved move) (name.moved move)
  | .importBare word source => .importBare (word.moved move) (source.moved move)
  | .importFrom word clause fromWord source =>
    .importFrom (word.moved move) (clause.moved move) (fromWord.moved move) (source.moved move)
  | .export word body => .export (word.moved move) (body.moved move)

def SpecifierStage.moved : SpecifierStage → SpecifierStage
  | .fresh => .fresh
  | .named name => .named (name.moved move)
  | .renaming name asWord => .renaming (name.moved move) (asWord.moved move)
  | .renamed specifier => .renamed (specifier.moved move)

def PartialList.moved (list : PartialList) : PartialList :=
  ⟨list.opener.moved move, list.entries.map (Entry.moved move), list.stage.moved move⟩

def ListStep.moved : ListStep → ListStep
  | .open list => .open (list.moved move)
  | .closed list => .closed (list.moved move)

def Progress.moved : Progress → Progress
  | .idle afterNode => .idle afterNode
  | .importing word => .importing (word.moved move)
  | .importMeta word dot => .importMeta (word.moved move) (dot.moved move)
  | .importDefault word name => .importDefault (word.moved move) (name.moved move)
  | .importDefaultComma word head => .importDefaultComma (word.moved move) (head.moved move)
  | .importStar word head star =>
    .importStar (word.moved move) (head.map (DefaultHead.moved move)) (star.moved move)
  | .importStarAs word head star asWord =>
    .importStarAs (word.moved move) (head.map (DefaultHead.moved move)) (star.moved move) (asWord.moved move)
  | .importNames word head list =>
    .importNames (word.moved move) (head.map (DefaultHead.moved move)) (list.moved move)
  | .importClause word clause => .importClause (word.moved move) (clause.moved move)
  | .importFrom word clause fromWord =>
    .importFrom (word.moved move) (clause.moved move) (fromWord.moved move)
  | .exporting word => .exporting (word.moved move)
  | .exportDefault word defaultWord => .exportDefault (word.moved move) (defaultWord.moved move)
  | .exportDefaultAsync word defaultWord asyncWord =>
    .exportDefaultAsync (word.moved move) (defaultWord.moved move) (asyncWord.moved move)
  | .exportDefaultFunction word defaultWord head =>
    .exportDefaultFunction (word.moved move) (defaultWord.moved move) (head.moved move)
  | .exportDefaultClass word defaultWord classWord =>
    .exportDefaultClass (word.moved move) (defaultWord.moved move) (classWord.moved move)
  | .exportAsync word asyncWord => .exportAsync (word.moved move) (asyncWord.moved move)
  | .exportFunction word head => .exportFunction (word.moved move) (head.moved move)
  | .exportClass word classWord => .exportClass (word.moved move) (classWord.moved move)
  | .exportVariable word kind => .exportVariable (word.moved move) (kind.moved move)
  | .exportNames word list => .exportNames (word.moved move) (list.moved move)
  | .exportList word list => .exportList (word.moved move) (list.moved move)
  | .exportListFrom word list fromWord =>
    .exportListFrom (word.moved move) (list.moved move) (fromWord.moved move)
  | .exportStar word star => .exportStar (word.moved move) (star.moved move)
  | .exportStarFrom word star fromWord =>
    .exportStarFrom (word.moved move) (star.moved move) (fromWord.moved move)
  | .exportStarAs word star asWord => .exportStarAs (word.moved move) (star.moved move) (asWord.moved move)
  | .exportNamespace word star asWord name =>
    .exportNamespace (word.moved move) (star.moved move) (asWord.moved move) (name.moved move)
  | .exportNamespaceFrom word star asWord name fromWord =>
    .exportNamespaceFrom (word.moved move) (star.moved move) (asWord.moved move) (name.moved move)
      (fromWord.moved move)

def Frame.moved (frame : Frame) : Frame := ⟨frame.bracket, frame.children.map (Node.moved move)⟩

-- The same state behind other items, the last one first.
def Machine.onto (base : List Item) (machine : Machine) : Machine :=
  ⟨machine.items.map (Item.moved move) ++ base, machine.progress.moved move,
    machine.frames.map (Frame.moved move)⟩

end Syntax
end

namespace Syntax
variable {move : Move} {base : List Item}

-- What a declaration waits for is the same.
theorem Progress.expected_moved (progress : Progress) :
    (progress.moved move).expected = progress.expected := by
  cases progress with
  | importNames word head list =>
    obtain ⟨opener, entries, stage⟩ := list
    cases stage <;> rfl
  | exportNames word list =>
    obtain ⟨opener, entries, stage⟩ := list
    cases stage <;> rfl
  | exportDefaultFunction word defaultWord head =>
    obtain ⟨asyncWord, functionWord, star⟩ := head
    cases star <;> rfl
  | exportFunction word head =>
    obtain ⟨asyncWord, functionWord, star⟩ := head
    cases star <;> rfl
  | _ => rfl

theorem Frame.expected_moved (frame : Frame) : (frame.moved move).expected = frame.expected := by
  obtain ⟨bracket, children⟩ := frame
  match children with
  | [] => rfl
  | [_] => rfl
  | _ :: _ :: _ => rfl

theorem PartialList.feed_moved (exporting : Bool) (list : PartialList) (token : Token) :
    (list.moved move).feed exporting (token.moved move)
      = (list.feed exporting token).map (ListStep.moved move) := by
  obtain ⟨opener, entries, stage⟩ := list
  have closed : ∀ last : Option Specifier, (moved move ⟨opener, entries,
    stage⟩).close (last.map (Specifier.moved move))
      (token.moved move) = (close ⟨opener, entries, stage⟩ last token).moved move := by
    intro last
    cases last <;> simp [close, moved, SpecifierList.moved, Entry.moved]
  obtain ⟨terminal, text, start, line, column⟩ := token
  cases stage with
  | fresh =>
    cases terminal with
    | closer bracket =>
      cases bracket with
      | brace => exact congrArg (fun list => some (ListStep.closed list)) (closed none)
      | _ => rfl
    | keyword word => cases word <;> rfl
    | leaf leaf => cases leaf <;> rfl
    | _ => rfl
  | named name =>
    cases terminal with
    | closer bracket =>
      cases bracket with
      | brace =>
        -- An imported default must be renamed in the moved list as well.
        rw [feed, feed]
        dsimp only [moved, SpecifierStage.moved, Token.moved]
        split
        · rfl
        · exact congrArg (fun list => some (ListStep.closed list)) (closed (some ⟨name, none⟩))
      | _ => rfl
    | mark mark =>
      cases mark with
      | comma =>
        rw [feed, feed]
        dsimp only [moved, SpecifierStage.moved, Token.moved]
        split <;> rfl
      | _ => rfl
    | keyword word => cases word <;> rfl
    | _ => rfl
  | renamed specifier =>
    cases terminal with
    | closer bracket =>
      cases bracket with
      | brace => exact congrArg (fun list => some (ListStep.closed list)) (closed (some specifier))
      | _ => rfl
    | mark mark => cases mark <;> rfl
    | _ => rfl
  | _ =>
    cases terminal with
    | keyword word => cases word <;> cases exporting <;> rfl
    | leaf leaf => cases leaf <;> rfl
    | _ => rfl

namespace Machine

theorem expected_onto (move : Move) (base : List Item) (machine : Machine) :
    (machine.onto move base).expected = machine.expected := by
  obtain ⟨items, progress, frames⟩ := machine
  cases frames with
  | nil => exact progress.expected_moved
  | cons frame frames => exact frame.expected_moved

theorem feedItem_onto (move : Move) (base : List Item) (machine : Machine) (token : Token) :
    (machine.onto move base).feedItem (token.moved move)
      = (machine.feedItem token).map (onto move base) := by
  obtain ⟨items, progress, frames⟩ := machine
  obtain ⟨terminal, text, start, line, column⟩ := token
  cases terminal with
  | keyword word => cases word <;> rfl
  | _ => rfl

theorem feedOuter_onto (machine : Machine) (closed : machine.frames = []) (token : Token) :
    (machine.onto move base).feedOuter (token.moved move)
      = (machine.feedOuter token).map (onto move base) := by
  obtain ⟨items, progress, frames⟩ := machine
  cases closed
  cases progress with
  | idle afterNode => exact feedItem_onto move base _ token
  | importNames word head list =>
    simp only [feedOuter, onto, Progress.moved, PartialList.feed_moved]
    cases list.feed false token with
    | none => rfl
    | some step => cases step <;> rfl
  | exportNames word list =>
    simp only [feedOuter, onto, Progress.moved, PartialList.feed_moved]
    cases list.feed true token with
    | none => rfl
    | some step => cases step <;> rfl
  | exportDefault word defaultWord =>
    have item := feedItem_onto move base
      (finish ⟨items, .exportDefault word defaultWord,
        []⟩ (.export word (.default defaultWord .expression)) false) token
    obtain ⟨terminal, text, start, line, column⟩ := token
    cases terminal with
    | keyword word => cases word <;> first | exact item | rfl
    | _ => exact item
  | exportDefaultAsync word defaultWord asyncWord =>
    have item := feedItem_onto move base
      (finish ⟨items, .exportDefaultAsync word defaultWord asyncWord, []⟩
        (.export word (.default defaultWord (.async asyncWord))) false) token
    obtain ⟨terminal, text, start, line, column⟩ := token
    cases terminal with
    | keyword word => cases word <;> first | exact item | rfl
    | _ => exact item
  | exportList word list =>
    have item := feedItem_onto move base
      (finish ⟨items, .exportList word list, []⟩ (.export word (.names list)) false) token
    obtain ⟨terminal, text, start, line, column⟩ := token
    cases terminal with
    | keyword word => cases word <;> first | exact item | rfl
    | _ => exact item
  | exportDefaultFunction word defaultWord head =>
    obtain ⟨terminal, text, start, line, column⟩ := token
    obtain ⟨asyncWord, functionWord, star⟩ := head
    cases terminal with
    | mark mark =>
      cases mark with
      | star => cases star <;> rfl
      | _ => rfl
    | opener bracket => cases bracket <;> rfl
    | leaf leaf => cases leaf <;> rfl
    | _ => rfl
  | exportFunction word head =>
    obtain ⟨terminal, text, start, line, column⟩ := token
    obtain ⟨asyncWord, functionWord, star⟩ := head
    cases terminal with
    | mark mark =>
      cases mark with
      | star => cases star <;> rfl
      | _ => rfl
    | leaf leaf => cases leaf <;> rfl
    | _ => rfl
  | _ =>
    obtain ⟨terminal, text, start, line, column⟩ := token
    cases terminal with
    | keyword word => cases word <;> rfl
    | opener bracket => cases bracket <;> rfl
    | closer bracket => rfl
    | mark mark => cases mark <;> rfl
    | leaf leaf => cases leaf <;> rfl

theorem attach_onto (machine : Machine) (group : Node) :
    (machine.onto move base).attach (group.moved move) = (machine.attach group).onto move base := by
  obtain ⟨items, progress, frames⟩ := machine
  cases progress <;> rfl

theorem feedInner_onto (machine : Machine) (frame : Frame) (outers : List Frame) (token : Token) :
    (machine.onto move base).feedInner (frame.moved move) (outers.map (Frame.moved move)) (token.moved move)
      = (machine.feedInner frame outers token).map (onto move base) := by
  obtain ⟨terminal, text, start, line, column⟩ := token
  cases terminal with
  | closer bracket =>
    have brackets : (frame.moved move).bracket = frame.bracket := rfl
    simp only [feedInner, Token.moved, brackets]
    by_cases same : bracket = frame.bracket
    · have group :
          (Node.group bracket (.leaf ⟨.closer bracket, text, start, line,
            column⟩ :: frame.children).reverse).moved move
            = .group bracket
                (.leaf ⟨.closer bracket, text, start + move.far, line, move.column ⟨.closer bracket,
                  text, start, line, column⟩⟩
                  :: (frame.moved move).children).reverse := by
        simp [Node.moved, Node.movedAll_eq_map, Frame.moved, Token.moved]
      rw [if_pos same, if_pos same, ← group]
      cases outers with
      | nil => exact congrArg some (attach_onto { machine with frames := [] } _)
      | cons outer outers => rfl
    · rw [if_neg same, if_neg same]
      rfl
  | _ => rfl

theorem feed_onto (machine : Machine) (token : Token) :
    (machine.onto move base).feed (token.moved move) = (machine.feed token).map (onto move base) := by
  obtain ⟨items, progress, frames⟩ := machine
  cases frames with
  | nil => exact feedOuter_onto ⟨items, progress, []⟩ rfl token
  | cons frame outers => exact feedInner_onto ⟨items, progress, frame :: outers⟩ frame outers token

end Machine

-- A module behind other items.
def onto (move : Move) (base : List Item) (module : Module) : Module :=
  ⟨base.reverse ++ module.items.map (Item.moved move)⟩

theorem Machine.result?_onto (machine : Machine) :
    (machine.onto move base).result? = machine.result?.map (Syntax.onto move base) := by
  obtain ⟨items, progress, frames⟩ := machine
  cases frames with
  | cons frame frames => cases progress <;> rfl
  | nil =>
    cases progress
    case idle | exportDefault | exportDefaultAsync | exportList =>
      simp [result?, Machine.onto, Syntax.onto, Progress.moved, Item.moved, ExportBody.moved,
        DefaultTarget.moved]
    all_goals rfl

-- Two places in front of the same text, the second one further on but as far in its line.
structure Beside (far : Nat) (cursor other : Cursor) : Prop where
  rest : other.rest = cursor.rest
  offset : other.offset = cursor.offset + far
  line : other.line = cursor.line
  column : other.column = cursor.column

variable {far : Nat} {cursor other : Cursor}

theorem Beside.step (beside : Beside far cursor other) : Beside far cursor.step other.step := by
  obtain ⟨rest, offset, line, column⟩ := beside
  unfold Cursor.step
  rw [rest]
  split
  · exact ⟨rest, offset, line, column⟩
  · split
    · exact ⟨rfl, by simp only [offset]; omega, by simp only [line], rfl⟩
    · exact ⟨rfl, by simp only [offset]; omega, line, by simp only [column]⟩

theorem Beside.advance (beside : Beside far cursor other) (count : Nat) :
    Beside far (cursor.advance count) (other.advance count) := by
  induction count generalizing cursor other with
  | zero => exact beside
  | succ count ih => exact ih beside.step

theorem Beside.token (beside : Beside far cursor other) (terminal : Terminal) (size : Nat) :
    other.token terminal size = (cursor.token terminal size).moved (.lines far) := by
  obtain ⟨rest, offset, line, column⟩ := beside
  simp only [Cursor.token, Token.moved, Move.lines, rest, offset, line, column]

-- From such places the parser goes on alike.
theorem parseFrom_onto (beside : Beside far cursor other)
    (recalls : Lexer.Recalls cursor.before other.before cursor.rest) (enough : cursor.rest.length ≤ fuel)
    (otherEnough : cursor.rest.length ≤ otherFuel) :
    (parseFrom otherFuel (machine.onto (.lines far) base) other otherPrevious).toOption
      = (parseFrom fuel machine cursor previous).toOption.map (onto (.lines far) base) := by
  fun_induction parseFrom fuel machine cursor previous generalizing other otherFuel otherPrevious with
  | case1 fuel machine cursor previous ended module ending =>
    rw [parseFrom.eq_def]
    simp only [beside.rest, ended, Machine.result?_onto, ending]
    rfl
  | case2 fuel machine cursor previous ended unfinished =>
    rw [parseFrom.eq_def]
    simp only [beside.rest, ended, Machine.result?_onto, unfinished]
    rfl
  | case3 fuel machine cursor previous first tail remaining unread =>
    rw [recalls.lexeme?, ← beside.rest, ← machine.expected_onto (.lines far) base] at unread
    obtain ⟨fault, stops⟩ : ∃ fault, parseFrom otherFuel (machine.onto (.lines far) base) other otherPrevious = .error fault :=
      parseFrom_unread (by simp [beside.rest, remaining]) unread
    rw [stops]
    rfl
  | case4 machine cursor previous first tail remaining =>
    rw [remaining] at enough
    cases enough
  | case5 machine cursor previous first tail remaining size fuel read ih =>
    have remains : cursor.rest ≠ [] := by simp [remaining]
    have passes := Lexer.lexeme?_skipped_pos read
    rw [recalls.lexeme?, ← beside.rest, ← machine.expected_onto (.lines far) base] at read
    obtain ⟨less, rfl, _, recalls', otherEnough'⟩ :=
      advance_alike beside.rest.symm recalls otherEnough passes (beside.rest ▸ remains)
    rw [parseFrom_skipped (beside.rest ▸ remains) read]
    exact ih (beside.advance size) recalls' (rest_shorter enough passes) otherEnough'
  | case6 machine cursor previous first tail remaining terminal size fuel read token next fed =>
    rename_i ih
    have remains : cursor.rest ≠ [] := by simp [remaining]
    have passes := Lexer.lexeme?_token_pos read
    rw [recalls.lexeme?, ← beside.rest, ← machine.expected_onto (.lines far) base] at read
    obtain ⟨less, rfl, _, recalls', otherEnough'⟩ :=
      advance_alike beside.rest.symm recalls otherEnough passes (beside.rest ▸ remains)
    have fed' : (machine.onto (.lines far) base).feed (other.token terminal size) = some (next.onto (.lines far) base) := by
      rw [beside.token, Machine.feed_onto, fed]
      rfl
    rw [parseFrom_token (beside.rest ▸ remains) read fed']
    exact ih (beside.advance size) recalls' (rest_shorter enough passes) otherEnough'
  | case7 machine cursor previous first tail remaining terminal size fuel read token =>
    rename_i refused
    have remains : cursor.rest ≠ [] := by simp [remaining]
    rw [recalls.lexeme?, ← beside.rest, ← machine.expected_onto (.lines far) base] at read
    have refused' : (machine.onto (.lines far) base).feed (other.token terminal size) = none := by
      rw [beside.token, Machine.feed_onto, refused]
      rfl
    obtain ⟨fault, stops⟩ : ∃ fault, parseFrom otherFuel (machine.onto (.lines far) base) other otherPrevious = .error fault :=
      parseFrom_refused (beside.rest ▸ remains) read refused'
    rw [stops]
    rfl

end Syntax
end ModuleBundler
