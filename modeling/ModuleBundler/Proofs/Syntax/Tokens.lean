import ModuleBundler.Proofs.Lexeme
import ModuleBundler.Proofs.Spans
import ModuleBundler.Proofs.Syntax.Steps
import ModuleBundler.Syntax.Parser

/-!
Parsing loses no token: the tokens of a parsed module, in the order of its tree, are the tokens that
were read, each cut from its own place in the text.
-/
namespace ModuleBundler

-- What a cursor that has come to some place in the text says about that place.
structure Cursor.Within (text : Text) (cursor : Cursor) : Prop where
  parts : cursor.before.reverse ++ cursor.rest = text
  offset : cursor.offset = cursor.before.length
  line : cursor.line = Text.newlines cursor.before + 1

namespace Cursor

theorem start_within (text : Text) : Within text (start text) := ⟨rfl, rfl, rfl⟩

theorem Within.step (within : Within text cursor) : Within text cursor.step := by
  obtain ⟨parts, offset, line⟩ := within
  unfold Cursor.step
  split
  · exact ⟨parts, offset, line⟩
  · rename_i c rest read
    rw [read] at parts
    split
    · rename_i broken
      refine ⟨by simpa using parts, by simp [offset], ?_⟩
      simp only [beq_iff_eq] at broken
      simp [line, broken, Text.newlines]
    · rename_i unbroken
      refine ⟨by simpa using parts, by simp [offset], ?_⟩
      rw [line]
      simp only [Text.newlines, List.count_cons, Bool.not_eq_true] at unbroken ⊢
      simp [unbroken]

theorem Within.advance (within : Within text cursor) (count : Nat) :
    Within text (cursor.advance count) := by
  induction count generalizing cursor with
  | zero => exact within
  | succ count ih => exact ih within.step

theorem Within.offset_advance (within : Within text cursor) (count : Nat) :
    (cursor.advance count).offset = cursor.offset + (cursor.rest.take count).length := by
  have total := congrArg List.length within.parts
  have moved := congrArg List.length (within.advance count).parts
  have before := within.offset
  have after := (within.advance count).offset
  rw [rest_advance] at moved
  simp only [List.length_append, List.length_reverse, List.length_drop, List.length_take] at *
  omega

theorem Within.rest (within : Within text cursor) : cursor.rest = text.drop cursor.offset := by
  rw [← within.parts, within.offset, ← List.length_reverse, List.drop_left]

theorem Within.before (within : Within text cursor) :
    cursor.before = (text.take cursor.offset).reverse := by
  rw [← within.parts, within.offset, ← List.length_reverse, List.take_left, List.reverse_reverse]

end Cursor

-- A token that a text has at the place where the token says it is.
structure Token.CutFrom (text : Text) (token : Token) : Prop where
  slice : token.text = (text.drop token.start).take token.text.length
  nonempty : token.text ≠ []
  line : token.line = Text.newlines (text.take token.start) + 1
  named : (token.terminal = .leaf .name ∨ ∃ keyword, token.terminal = .keyword keyword) →
    Text.IsName token.text

theorem Cursor.Within.cut (within : Within text cursor) (remains : cursor.rest ≠ [])
    (read : Lexer.lexeme? expected cursor.before cursor.rest = some (.token terminal size)) :
    (cursor.token terminal size).CutFrom text where
  slice := by
    simp only [Cursor.token, within.rest, List.length_take]
    rw [List.take_eq_take_iff]
    omega
  nonempty := by
    simp only [Cursor.token, ne_eq, List.take_eq_nil_iff, not_or]
    exact ⟨Nat.ne_of_gt (Lexer.lexeme?_token_pos read), remains⟩
  line := by
    have counted := within.line
    rw [within.before] at counted
    simpa [Cursor.token, Text.newlines] using counted
  named := Lexer.lexeme?_isName read

theorem Cursor.Within.stop_token (within : Within text cursor) :
    (cursor.token terminal size).stop = (cursor.advance size).offset := by
  rw [within.offset_advance]
  rfl

theorem Token.CutFrom.stop_le (cut : CutFrom source token) : token.stop ≤ source.length := by
  have size := congrArg List.length cut.slice
  have positive := List.length_pos_iff.mpr cut.nonempty
  simp only [List.length_take, List.length_drop] at size
  unfold Token.stop
  omega

theorem Token.CutFrom.start_lt (cut : CutFrom source token) : token.start < token.stop :=
  Nat.lt_add_of_pos_right (List.length_pos_iff.mpr cut.nonempty)

-- The tokens of a piece of syntax are those that its outline shows.
def Node.tokens (node : Node) : List Token := node.outline.tokens

@[simp] theorem Node.tokens_leaf (token : Token) : (Node.leaf token).tokens = [token] := by
  simp [tokens, outline, Outline.tokens]

@[simp] theorem Node.tokens_group (bracket : Bracket) (children : List Node) :
    (Node.group bracket children).tokens = children.flatMap Node.tokens := by
  simp only [tokens, outline, Outline.tokens, List.flatMap_map]
  rfl

namespace Syntax

def Item.tokens (item : Item) : List Token := item.outline.tokens

def Specifier.tokens (specifier : Specifier) : List Token :=
  specifier.name :: (specifier.rename.map fun rename => [rename.asWord, rename.name]).getD []

def Entry.tokens (entry : Entry) : List Token := entry.specifier.tokens ++ entry.comma.toList

def SpecifierList.tokens (list : SpecifierList) : List Token :=
  list.opener :: list.entries.flatMap Entry.tokens ++ [list.closer]

def headTokens (head : Option DefaultHead) : List Token :=
  (head.map fun head => [head.name, head.comma]).getD []

def FunctionHead.tokens (head : FunctionHead) : List Token :=
  head.asyncWord.toList ++ head.functionWord :: head.star.toList

def ImportClause.tokens : ImportClause → List Token
  | .defaultOnly name => [name]
  | .namespace head star asWord name => headTokens head ++ [star, asWord, name]
  | .named head list => headTokens head ++ list.tokens

theorem tokens_entriesOutline (show_ : Specifier → Outline)
    (shown : ∀ specifier, (show_ specifier).tokens = specifier.tokens) (entries : List Entry) :
    (entriesOutline show_ entries).flatMap Outline.tokens = entries.flatMap Entry.tokens := by
  fun_induction entriesOutline show_ entries with
  | case1 => simp [Outline.tokens]
  | case2 last =>
    cases comma : last.comma <;> simp [Outline.optional, Outline.tokens, shown, Entry.tokens, comma]
  | case3 entry entries _ ih =>
    cases comma : entry.comma <;> simp [Outline.tokens, shown, Entry.tokens, comma, ih]

@[simp] theorem tokens_importListOutline (list : SpecifierList) :
    (importListOutline list).tokens = list.tokens := by
  have shown : ∀ specifier : Specifier, (Specifier.outline "import_specifier"
      [.absent, .absent] specifier).tokens = specifier.tokens := by
    intro specifier
    cases renamed : specifier.rename <;> simp [Specifier.outline, Specifier.tokens, Outline.tokens, renamed]
  simp [importListOutline, SpecifierList.outline, SpecifierList.tokens, Outline.tokens,
    tokens_entriesOutline _ shown]

@[simp] theorem tokens_exportListOutline (list : SpecifierList) :
    (exportListOutline list).tokens = list.tokens := by
  have shown : ∀ specifier : Specifier, (Specifier.outline "export_specifier"
      [.absent] specifier).tokens = specifier.tokens := by
    intro specifier
    cases renamed : specifier.rename <;> simp [Specifier.outline, Specifier.tokens, Outline.tokens, renamed]
  simp [exportListOutline, SpecifierList.outline, SpecifierList.tokens, Outline.tokens,
    tokens_entriesOutline _ shown]

@[simp] theorem tokens_headOutline (head : Option DefaultHead) :
    (headOutline head).flatMap Outline.tokens = headTokens head := by
  cases head <;> simp [headOutline, headTokens, Outline.tokens]

@[simp] theorem tokens_clauseOutline (clause : ImportClause) :
    clause.outline.tokens = clause.tokens := by
  cases clause <;> simp [ImportClause.outline, ImportClause.tokens, Outline.tokens]

@[simp] theorem tokens_functionOutline (head : FunctionHead) :
    head.outline.flatMap Outline.tokens = head.tokens := by
  obtain ⟨asyncWord, functionWord, star⟩ := head
  cases asyncWord <;> cases star <;>
    simp [FunctionHead.outline, FunctionHead.tokens, Outline.optional, Outline.tokens]

def DefaultTarget.tokens : DefaultTarget → List Token
  | .expression => []
  | .async word => [word]
  | .namedFunction head name => head.tokens ++ [name]
  | .anonymousFunction head parameters => head.tokens ++ parameters.tokens
  | .namedClass classWord name => [classWord, name]
  | .anonymousClass classWord body => classWord :: body.tokens
  | .derivedClass classWord extendsWord => [classWord, extendsWord]

def ExportBody.tokens : ExportBody → List Token
  | .default word target => word :: target.tokens
  | .function head name => head.tokens ++ [name]
  | .class classWord name => [classWord, name]
  | .variable kind binding => kind :: binding.tokens
  | .names list => list.tokens
  | .namesFrom list fromWord source => list.tokens ++ [fromWord, source]
  | .all star fromWord source => [star, fromWord, source]
  | .namespace star asWord name fromWord source => [star, asWord, name, fromWord, source]

@[simp] theorem tokens_targetOutline (target : DefaultTarget) :
    target.outline.2.flatMap Outline.tokens = target.tokens := by
  cases target <;> simp [DefaultTarget.outline, DefaultTarget.tokens, Outline.tokens, Node.tokens]

@[simp] theorem tokens_exportOutline (body : ExportBody) :
    body.outline.2.flatMap Outline.tokens = body.tokens := by
  cases body <;> simp [ExportBody.outline, ExportBody.tokens, Outline.tokens, Node.tokens]

-- One equation for each shape of an item.
@[simp] theorem Item.tokens_node (node : Node) : (Item.node node).tokens = node.tokens := rfl

@[simp] theorem Item.tokens_importCall (word : Token) (arguments : Node) :
    (Item.importCall word arguments).tokens = word :: arguments.tokens := by
  simp [Item.tokens, Item.outline, Outline.tokens, Node.tokens]

@[simp] theorem Item.tokens_importMeta (word dot name : Token) :
    (Item.importMeta word dot name).tokens = [word, dot, name] := by
  simp [Item.tokens, Item.outline, Outline.tokens]

@[simp] theorem Item.tokens_importBare (word source : Token) :
    (Item.importBare word source).tokens = [word, source] := by
  simp [Item.tokens, Item.outline, Outline.tokens]

@[simp] theorem Item.tokens_importFrom (word : Token) (clause : ImportClause)
    (fromWord source : Token) :
    (Item.importFrom word clause fromWord source).tokens
      = word :: (clause.tokens ++ [fromWord, source]) := by
  simp [Item.tokens, Item.outline, Outline.tokens]

@[simp] theorem Item.tokens_export (word : Token) (body : ExportBody) :
    (Item.export word body).tokens = word :: body.tokens := by
  simp [Item.tokens, Item.outline, Outline.tokens]

def SpecifierStage.tokens : SpecifierStage → List Token
  | .fresh => []
  | .named name => [name]
  | .renaming name asWord => [name, asWord]
  | .renamed specifier => specifier.tokens

def PartialList.tokens (list : PartialList) : List Token :=
  list.opener :: list.entries.reverse.flatMap Entry.tokens ++ list.stage.tokens

-- What the declaration under way has taken in.
def Progress.tokens : Progress → List Token
  | .idle _ => []
  | .importing word => [word]
  | .importMeta word dot => [word, dot]
  | .importDefault word name => [word, name]
  | .importDefaultComma word head => word :: headTokens (some head)
  | .importStar word head star => word :: (headTokens head ++ [star])
  | .importStarAs word head star asWord => word :: (headTokens head ++ [star, asWord])
  | .importNames word head list => word :: (headTokens head ++ list.tokens)
  | .importClause word clause => word :: clause.tokens
  | .importFrom word clause fromWord => word :: (clause.tokens ++ [fromWord])
  | .exporting word => [word]
  | .exportDefault word defaultWord => [word, defaultWord]
  | .exportDefaultAsync word defaultWord asyncWord => [word, defaultWord, asyncWord]
  | .exportDefaultFunction word defaultWord head => word :: defaultWord :: head.tokens
  | .exportDefaultClass word defaultWord classWord => [word, defaultWord, classWord]
  | .exportAsync word asyncWord => [word, asyncWord]
  | .exportFunction word head => word :: head.tokens
  | .exportClass word classWord => [word, classWord]
  | .exportVariable word kind => [word, kind]
  | .exportNames word list => word :: list.tokens
  | .exportList word list => word :: list.tokens
  | .exportListFrom word list fromWord => word :: (list.tokens ++ [fromWord])
  | .exportStar word star => [word, star]
  | .exportStarFrom word star fromWord => [word, star, fromWord]
  | .exportStarAs word star asWord => [word, star, asWord]
  | .exportNamespace word star asWord name => [word, star, asWord, name]
  | .exportNamespaceFrom word star asWord name fromWord => [word, star, asWord, name, fromWord]

-- A group at the top level is opaque code or the part of a declaration that is made of a group.
def Progress.takesGroup : Progress → Bool
  | .idle _ | .importing _ | .exportDefaultFunction _ _ _ | .exportDefaultClass _ _ _
  | .exportVariable _ _ => true
  | _ => false

def framesTokens (frames : List Frame) : List Token :=
  frames.reverse.flatMap fun frame => frame.children.reverse.flatMap Node.tokens

namespace Machine

def tokens (machine : Machine) : List Token :=
  machine.items.reverse.flatMap Item.tokens ++ machine.progress.tokens ++ framesTokens machine.frames

def Ready (machine : Machine) : Prop := machine.frames ≠ [] → machine.progress.takesGroup = true

theorem ready_closed {machine : Machine} (closed : machine.frames = []) : machine.Ready :=
  fun standing => absurd closed standing

end Machine

def ListStep.tokens : ListStep → List Token
  | .open list => list.tokens
  | .closed list => list.tokens

variable {list : PartialList} {machine next : Machine} {token : Token}

@[simp] theorem PartialList.tokens_stage (list : PartialList) (stage : SpecifierStage) :
    { list with stage := stage }.tokens
      = list.opener :: list.entries.reverse.flatMap Entry.tokens ++ stage.tokens := rfl

@[simp] theorem PartialList.tokens_add (list : PartialList) (specifier : Specifier)
    (comma : Token) : (list.add specifier comma).tokens
      = list.opener :: list.entries.reverse.flatMap Entry.tokens ++ specifier.tokens ++ [comma] := by
  simp [add, tokens, Entry.tokens, SpecifierStage.tokens]

@[simp] theorem PartialList.tokens_close (list : PartialList) (last : Option Specifier)
    (closer : Token) : (list.close last closer).tokens
      = list.opener :: list.entries.reverse.flatMap Entry.tokens
        ++ (last.map Specifier.tokens).getD [] ++ [closer] := by
  cases last <;> simp [close, SpecifierList.tokens, Entry.tokens]

theorem PartialList.feed_tokens (fed : list.feed exporting token = some step) :
    step.tokens = list.tokens ++ [token] := by
  rw [tokens]
  unfold feed at fed
  split at fed <;> rename_i stage _
  all_goals try split at fed
  all_goals cases fed
  all_goals simp [ListStep.tokens, stage, SpecifierStage.tokens, Specifier.tokens]

namespace Progress

theorem Takes.tokens (taken : Takes token progress longer) : longer.tokens = progress.tokens ++ [token] := by
  cases taken with
  | importList step | importListEnd step | exportNamesMore step | exportNamesEnd step =>
    have read := PartialList.feed_tokens step
    rw [ListStep.tokens] at read
    simp [Progress.tokens, ImportClause.tokens, read]
  | defaultFunctionStar _ starless | functionStar _ starless =>
    simp [Progress.tokens, FunctionHead.tokens, Option.not_isSome_iff_eq_none.mp starless]
  | _ =>
    simp [Progress.tokens, headTokens, ImportClause.tokens, FunctionHead.tokens, PartialList.tokens,
      SpecifierStage.tokens]

theorem Completes.tokens (completed : Completes token progress item) :
    item.tokens = progress.tokens ++ [token] := by
  cases completed
  all_goals simp [Progress.tokens, ExportBody.tokens, DefaultTarget.tokens]

theorem Complete.tokens (complete : Complete progress item) : item.tokens = progress.tokens := by
  cases complete
  all_goals simp [Progress.tokens, ExportBody.tokens, DefaultTarget.tokens]

theorem Opens.takesGroup (awaited : Opens progress bracket) : progress.takesGroup = true := by
  cases awaited
  all_goals rfl

end Progress

namespace Machine

-- Between two items the machine holds nothing else.
theorem tokens_between (idle : machine.progress.tokens = []) (closed : machine.frames = []) :
    machine.tokens = machine.items.reverse.flatMap Item.tokens := by
  simp [tokens, idle, closed, framesTokens]

theorem Begins.tokens (begun : machine.Begins token next) (idle : machine.progress.tokens = [])
    (outside : machine.frames = []) : next.tokens = machine.tokens ++ [token] ∧ next.Ready := by
  rw [tokens_between idle outside]
  cases begun
  all_goals simp [tokens, Ready, addNode, opened, outside, Progress.tokens, Progress.takesGroup, framesTokens]

theorem attach_tokens (machine : Machine) (group : Node) (waits : machine.progress.takesGroup = true)
    (closed : machine.frames = []) :
    (machine.attach group).tokens = machine.tokens ++ group.tokens ∧ (machine.attach group).Ready := by
  obtain ⟨items, progress, frames⟩ := machine
  cases closed
  cases progress
  case idle | importing | exportDefaultFunction | exportDefaultClass | exportVariable =>
    simp [attach, finish, addNode, tokens, Ready, Progress.tokens, framesTokens, ExportBody.tokens,
      DefaultTarget.tokens]
  all_goals cases waits

theorem finish_tokens (machine : Machine) (afterNode : Bool) (whole : item.tokens = machine.progress.tokens ++ more)
    (outside : machine.frames = []) : (machine.finish item afterNode).tokens = machine.tokens ++ more := by
  simp [tokens, finish, outside, framesTokens, Progress.tokens, whole]

theorem feed_tokens (ready : machine.Ready) (fed : machine.feed token = some next) :
    next.tokens = machine.tokens ++ [token] ∧ next.Ready := by
  cases feed_step fed with
  | leaf within | group within | closesInner within =>
    have waits : machine.progress.takesGroup = true := ready (by simp [within])
    refine ⟨?_, fun _ => waits⟩
    simp [tokens, framesTokens, within, opened, Frame.closed]
  | closes within =>
    have waits : machine.progress.takesGroup = true := ready (by simp [within])
    obtain ⟨read, next⟩ := attach_tokens { machine with frames := [] } (Frame.closed _ token) waits rfl
    refine ⟨?_, next⟩
    rw [read]
    simp [tokens, framesTokens, within, Frame.closed]
  | begins outside idle begun => exact begun.tokens (by rw [idle]; rfl) outside
  | takes outside taken =>
    refine ⟨?_, ready_closed outside⟩
    simp [tokens, outside, framesTokens, taken.tokens]
  | completes outside completed => exact ⟨finish_tokens machine false completed.tokens outside,
    ready_closed outside⟩
  | follows outside complete begun =>
    have whole := finish_tokens machine false (complete.tokens.trans (List.append_nil _).symm) outside
    obtain ⟨read, ready⟩ := begun.tokens rfl outside
    rw [read, whole, List.append_nil]
    exact ⟨rfl, ready⟩
  | opens outside awaited =>
    refine ⟨?_, fun _ => awaited.takesGroup⟩
    simp [tokens, opened, outside, framesTokens]

theorem result?_tokens (ended : machine.result? = some parsed) :
    parsed.items.flatMap Item.tokens = machine.tokens := by
  obtain ⟨items, progress, frames⟩ := machine
  unfold result? at ended
  split at ended
  all_goals cases ended
  all_goals rename_i closed progressed
  all_goals cases closed
  all_goals cases progressed
  all_goals simp [tokens, framesTokens, Progress.tokens, ExportBody.tokens, DefaultTarget.tokens]


end Machine

-- Tokens that lie in a text one behind the other, between two offsets.
structure Laid (text : Text) (low high : Nat) (tokens : List Token) : Prop where
  cut : ∀ token ∈ tokens, token.CutFrom text
  ordered : Span.Ordered low high (tokens.map Token.span)

theorem Laid.split (laid : Laid text low high (tokens ++ others)) :
    ∃ middle, Laid text low middle tokens ∧ Laid text middle high others := by
  have ordered := laid.ordered
  rw [List.map_append] at ordered
  obtain ⟨middle, before, after⟩ := ordered.split
  exact ⟨middle, ⟨fun token among => laid.cut token (List.mem_append_left _ among), before⟩,
    ⟨fun token among => laid.cut token (List.mem_append_right _ among), after⟩⟩

theorem Laid.push (laid : Laid text low start tokens) (cut : token.CutFrom text)
    (behind : start ≤ token.start) : Laid text low token.stop (tokens ++ [token]) where
  cut := by
    intro member among
    rcases List.mem_append.mp among with earlier | here
    · exact laid.cut member earlier
    · exact List.mem_singleton.mp here ▸ cut
  ordered := by
    have last : Span.Ordered start token.stop [token.span] :=
      ⟨behind, cut.start_lt, Nat.le_refl token.stop⟩
    rw [List.map_append]
    exact laid.ordered.append last

theorem Laid.raise (laid : Laid text low stop tokens) (above : stop ≤ higher) :
    Laid text low higher tokens :=
  ⟨laid.cut, laid.ordered.raise above⟩

theorem Laid.advance (laid : Laid text 0 cursor.offset tokens) (within : Cursor.Within text cursor)
    (count : Nat) : Laid text 0 (cursor.advance count).offset tokens := by
  refine laid.raise ?_
  rw [within.offset_advance]
  exact Nat.le_add_right _ _

theorem Laid.whole (laid : Laid text 0 cursor.offset tokens) (within : Cursor.Within text cursor) :
    Laid text 0 text.length tokens := by
  refine laid.raise ?_
  have total := congrArg List.length within.parts
  have passed := within.offset
  simp only [List.length_append, List.length_reverse] at total
  omega

-- Every step of the parser takes the next token off the text or skips what is no token.
theorem parseFrom_laid (within : Cursor.Within text cursor) (ready : machine.Ready)
    (laid : Laid text 0 cursor.offset machine.tokens)
    (accepted : parseFrom fuel machine cursor previous = .ok parsed) :
    Laid text 0 text.length (parsed.items.flatMap Item.tokens) := by
  fun_induction parseFrom fuel machine cursor previous with
  | case1 fuel machine cursor previous ended module ending =>
    cases accepted
    rw [Machine.result?_tokens ending]
    exact laid.whole within
  | case2 | case3 | case4 | case7 => cases accepted
  | case5 machine cursor previous first tail remaining size fuel read ih =>
    exact ih (within.advance size) ready (laid.advance within size) accepted
  | case6 machine cursor previous first tail remaining terminal size fuel read token next fed ih =>
    obtain ⟨taken, ready'⟩ := Machine.feed_tokens ready fed
    have remains : cursor.rest ≠ [] := by simp [remaining]
    have pushed := laid.push (within.cut remains read) (Nat.le_refl cursor.offset)
    rw [within.stop_token] at pushed
    exact ih (within.advance size) ready' (taken ▸ pushed) accepted

theorem parse_laid (accepted : parse text = .ok parsed) :
    Laid text 0 text.length (parsed.items.flatMap Item.tokens) := by
  have start : Laid text 0 0 (Machine.tokens {}) := ⟨nofun, Nat.le_refl 0⟩
  exact parseFrom_laid (Cursor.start_within text) (Machine.ready_closed rfl) start accepted

end Syntax
end ModuleBundler
