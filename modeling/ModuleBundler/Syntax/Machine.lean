import ModuleBundler.Syntax.Tree

/-!
The parser as a machine that takes one token at a time. Between tokens it holds the items that are
finished, the declaration under way, and the groups that are open; from these it says which
terminals the next token is read among. `feed` refuses a token that cannot continue the module.
-/
namespace ModuleBundler.Syntax

-- How far a list of specifiers has come.
inductive SpecifierStage where
  | fresh
  | named (name : Token)
  | renaming (name asWord : Token)
  | renamed (specifier : Specifier)
  deriving DecidableEq, Repr

structure PartialList where
  opener : Token
  -- Entries that are finished with their comma, last one first.
  entries : List Entry := []
  stage : SpecifierStage := .fresh
  deriving DecidableEq, Repr

-- The declaration under way at the top level. `idle` remembers whether opaque code came last,
-- because closing brackets are still told apart there.
inductive Progress where
  | idle (afterNode : Bool)
  | importing (word : Token)
  | importMeta (word dot : Token)
  | importDefault (word name : Token)
  | importDefaultComma (word : Token) (head : DefaultHead)
  | importStar (word : Token) (head : Option DefaultHead) (star : Token)
  | importStarAs (word : Token) (head : Option DefaultHead) (star asWord : Token)
  | importNames (word : Token) (head : Option DefaultHead) (list : PartialList)
  | importClause (word : Token) (clause : ImportClause)
  | importFrom (word : Token) (clause : ImportClause) (fromWord : Token)
  | exporting (word : Token)
  | exportDefault (word defaultWord : Token)
  | exportDefaultAsync (word defaultWord asyncWord : Token)
  | exportDefaultFunction (word defaultWord : Token) (head : FunctionHead)
  | exportDefaultClass (word defaultWord classWord : Token)
  | exportAsync (word asyncWord : Token)
  | exportFunction (word : Token) (head : FunctionHead)
  | exportClass (word classWord : Token)
  | exportVariable (word kind : Token)
  | exportNames (word : Token) (list : PartialList)
  | exportList (word : Token) (list : SpecifierList)
  | exportListFrom (word : Token) (list : SpecifierList) (fromWord : Token)
  | exportStar (word star : Token)
  | exportStarFrom (word star fromWord : Token)
  | exportStarAs (word star asWord : Token)
  | exportNamespace (word star asWord name : Token)
  | exportNamespaceFrom (word star asWord name fromWord : Token)
  deriving DecidableEq, Repr

-- An open group: its bracket and its children so far, last one first.
structure Frame where
  bracket : Bracket
  children : List Node
  deriving Repr

structure Machine where
  -- Finished items, last one first.
  items : List Item := []
  progress : Progress := .idle false
  -- Open groups, innermost first.
  frames : List Frame := []
  deriving Repr

open Terminal in
def SpecifierStage.expected (exporting : Bool) : SpecifierStage → List Terminal
  | .fresh => [keyword .default, leaf .name, closer .brace]
  | .named name =>
    if !exporting && name.terminal == keyword .default then [keyword .as_]
    else [keyword .as_, mark .comma, closer .brace]
  | .renaming _ _ => if exporting then [keyword .default, leaf .name] else [leaf .name]
  | .renamed _ =>
    if exporting then [keyword .as_, mark .comma, closer .brace] else [mark .comma, closer .brace]

open Terminal in
def Progress.expected : Progress → List Terminal
  | .idle afterNode => if afterNode then outer ++ closers else outer
  | .importing _ =>
    [mark .dot, mark .star, leaf .name, leaf .string, opener .brace, opener .paren]
  | .importMeta _ _ => [leaf .name]
  | .importDefault _ _ => [mark .comma, keyword .from_]
  | .importDefaultComma _ _ => [opener .brace, mark .star]
  | .importStar _ _ _ => [keyword .as_]
  | .importStarAs _ _ _ _ => [leaf .name]
  | .importNames _ _ list => list.stage.expected false
  | .importClause _ _ => [keyword .from_]
  | .importFrom _ _ _ => [leaf .string]
  | .exporting _ =>
    [keyword .async, keyword .class_, keyword .const, keyword .default, keyword .function,
      keyword .let_, keyword .var, opener .brace, mark .star]
  | .exportDefault _ _ =>
    outer ++ [keyword .async, keyword .class_, keyword .function]
  | .exportDefaultAsync _ _ _ => outer ++ [keyword .function]
  | .exportDefaultFunction _ _ head =>
    if head.star.isSome then [leaf .name, opener .paren]
    else [leaf .name, opener .paren, mark .star]
  | .exportDefaultClass _ _ _ => [keyword .extends_, leaf .name, opener .brace]
  | .exportAsync _ _ => [keyword .function]
  | .exportFunction _ head =>
    if head.star.isSome then [leaf .name] else [leaf .name, mark .star]
  | .exportClass _ _ => [leaf .name]
  | .exportVariable _ _ => [leaf .name, opener .brace, opener .square]
  | .exportNames _ list => list.stage.expected true
  | .exportList _ _ => outer ++ [keyword .from_]
  | .exportListFrom _ _ _ => [leaf .string]
  | .exportStar _ _ => [keyword .as_, keyword .from_]
  | .exportStarFrom _ _ _ => [leaf .string]
  | .exportStarAs _ _ _ => [leaf .name]
  | .exportNamespace _ _ _ _ => [keyword .from_]
  | .exportNamespaceFrom _ _ _ _ _ => [leaf .string]

-- Right after an opening bracket only its own closing bracket is told apart; further inside a
-- group the terminals are those after any opaque code.
def Frame.expected (frame : Frame) : List Terminal :=
  match frame.children with
  | [_] => Terminal.inner ++ [.closer frame.bracket]
  | _ => Terminal.outer ++ Terminal.closers

def Machine.expected (machine : Machine) : List Terminal :=
  match machine.frames with
  | frame :: _ => frame.expected
  | [] => machine.progress.expected

namespace Machine

def addNode (machine : Machine) (node : Node) : Machine :=
  { machine with items := .node node :: machine.items, progress := .idle true }

-- A finished declaration; `afterNode` tells whether a group closed it.
def finish (machine : Machine) (item : Item) (afterNode : Bool) : Machine :=
  { machine with items := item :: machine.items, progress := .idle afterNode }

def opened (machine : Machine) (bracket : Bracket) (token : Token) : Machine :=
  { machine with frames := ⟨bracket, [.leaf token]⟩ :: machine.frames }

-- A group that closed at the top level belongs to the declaration under way, if that waits for it.
def attach (machine : Machine) (group : Node) : Machine :=
  match machine.progress with
  | .importing word => machine.finish (.importCall word group) true
  | .exportDefaultFunction word defaultWord head =>
    machine.finish (.export word (.default defaultWord (.anonymousFunction head group))) true
  | .exportDefaultClass word defaultWord classWord =>
    machine.finish (.export word (.default defaultWord (.anonymousClass classWord group))) true
  | .exportVariable word kind => machine.finish (.export word (.variable kind group)) true
  | _ => machine.addNode group

-- A token inside the innermost of the open groups.
def feedInner (machine : Machine) (frame : Frame) (frames : List Frame) (token : Token) :
    Option Machine :=
  match token.terminal with
  | .leaf _ =>
    some { machine with
      frames := { frame with children := .leaf token :: frame.children } :: frames }
  | .opener bracket => some (machine.opened bracket token)
  | .closer bracket =>
    if bracket = frame.bracket then
      let group := Node.group bracket (.leaf token :: frame.children).reverse
      match frames with
      | [] => some ({ machine with frames := [] }.attach group)
      | outer :: frames =>
        some { machine with
          frames := { outer with children := group :: outer.children } :: frames }
    else none
  | _ => none

-- A token that begins an item.
def feedItem (machine : Machine) (token : Token) : Option Machine :=
  match token.terminal with
  | .leaf _ => some (machine.addNode (.leaf token))
  | .opener bracket => some ({ machine with progress := .idle true }.opened bracket token)
  | .keyword .import_ => some { machine with progress := .importing token }
  | .keyword .export_ => some { machine with progress := .exporting token }
  | _ => none

end Machine

inductive ListStep where
  | open (list : PartialList)
  | closed (list : SpecifierList)
  deriving DecidableEq, Repr

namespace PartialList

def add (list : PartialList) (specifier : Specifier) (comma : Token) : PartialList :=
  ⟨list.opener, ⟨specifier, some comma⟩ :: list.entries, .fresh⟩

def close (list : PartialList) (last : Option Specifier) (token : Token) : SpecifierList :=
  let entries : List Entry := match last with
    | some specifier => ⟨specifier, none⟩ :: list.entries
    | none => list.entries
  ⟨list.opener, entries.reverse, token⟩

-- An imported default must be renamed; an exported one may keep its name.
def feed (exporting : Bool) (list : PartialList) (token : Token) : Option ListStep :=
  match list.stage, token.terminal with
  | .fresh, .leaf .name => some (.open { list with stage := .named token })
  | .fresh, .keyword .default => some (.open { list with stage := .named token })
  | .fresh, .closer .brace => some (.closed (list.close none token))
  | .named name, .keyword .as_ => some (.open { list with stage := .renaming name token })
  | .named name, .mark .comma =>
    if !exporting && name.terminal == .keyword .default then none
    else some (.open (list.add ⟨name, none⟩ token))
  | .named name, .closer .brace =>
    if !exporting && name.terminal == .keyword .default then none
    else some (.closed (list.close (some ⟨name, none⟩) token))
  | .renaming name asWord, .leaf .name =>
    some (.open { list with stage := .renamed ⟨name, some ⟨asWord, token⟩⟩ })
  | .renaming name asWord, .keyword .default =>
    if exporting then some (.open { list with stage := .renamed ⟨name, some ⟨asWord, token⟩⟩ })
    else none
  | .renamed specifier, .mark .comma => some (.open (list.add specifier token))
  | .renamed specifier, .closer .brace => some (.closed (list.close (some specifier) token))
  | _, _ => none

end PartialList

namespace Machine

-- A token where a declaration is under way and no group is open.
def feedOuter (machine : Machine) (token : Token) : Option Machine :=
  let go (progress : Progress) : Option Machine := some { machine with progress }
  match machine.progress, token.terminal with
  | .idle _, _ => machine.feedItem token
  | .importing word, .leaf .string => some (machine.finish (.importBare word token) false)
  | .importing word, .leaf .name => go (.importDefault word token)
  | .importing word, .mark .star => go (.importStar word none token)
  | .importing word, .mark .dot => go (.importMeta word token)
  | .importing word, .opener .brace => go (.importNames word none { opener := token })
  | .importing _, .opener .paren => some (machine.opened .paren token)
  | .importMeta word dot, .leaf .name => some (machine.finish (.importMeta word dot token) false)
  | .importDefault word name, .mark .comma => go (.importDefaultComma word ⟨name, token⟩)
  | .importDefault word name, .keyword .from_ =>
    go (.importFrom word (.defaultOnly name) token)
  | .importDefaultComma word head, .mark .star => go (.importStar word (some head) token)
  | .importDefaultComma word head, .opener .brace =>
    go (.importNames word (some head) { opener := token })
  | .importStar word head star, .keyword .as_ => go (.importStarAs word head star token)
  | .importStarAs word head star asWord, .leaf .name =>
    go (.importClause word (.namespace head star asWord token))
  | .importNames word head list, _ =>
    match list.feed false token with
    | some (.open list) => go (.importNames word head list)
    | some (.closed list) => go (.importClause word (.named head list))
    | none => none
  | .importClause word clause, .keyword .from_ => go (.importFrom word clause token)
  | .importFrom word clause fromWord, .leaf .string =>
    some (machine.finish (.importFrom word clause fromWord token) false)
  | .exporting word, .keyword .default => go (.exportDefault word token)
  | .exporting word, .keyword .async => go (.exportAsync word token)
  | .exporting word, .keyword .function => go (.exportFunction word ⟨none, token, none⟩)
  | .exporting word, .keyword .class_ => go (.exportClass word token)
  | .exporting word, .keyword .const => go (.exportVariable word token)
  | .exporting word, .keyword .let_ => go (.exportVariable word token)
  | .exporting word, .keyword .var => go (.exportVariable word token)
  | .exporting word, .opener .brace => go (.exportNames word { opener := token })
  | .exporting word, .mark .star => go (.exportStar word token)
  | .exportDefault word defaultWord, .keyword .async =>
    go (.exportDefaultAsync word defaultWord token)
  | .exportDefault word defaultWord, .keyword .function =>
    go (.exportDefaultFunction word defaultWord ⟨none, token, none⟩)
  | .exportDefault word defaultWord, .keyword .class_ =>
    go (.exportDefaultClass word defaultWord token)
  | .exportDefault word defaultWord, _ =>
    (machine.finish (.export word (.default defaultWord .expression)) false).feedItem token
  | .exportDefaultAsync word defaultWord asyncWord, .keyword .function =>
    go (.exportDefaultFunction word defaultWord ⟨some asyncWord, token, none⟩)
  | .exportDefaultAsync word defaultWord asyncWord, _ =>
    (machine.finish (.export word (.default defaultWord (.async asyncWord))) false).feedItem token
  | .exportDefaultFunction word defaultWord head, .mark .star =>
    if head.star.isSome then none
    else go (.exportDefaultFunction word defaultWord { head with star := some token })
  | .exportDefaultFunction word defaultWord head, .leaf .name =>
    some (machine.finish (.export word (.default defaultWord (.namedFunction head token))) false)
  | .exportDefaultFunction _ _ _, .opener .paren => some (machine.opened .paren token)
  | .exportDefaultClass word defaultWord classWord, .leaf .name =>
    some (machine.finish (.export word (.default defaultWord (.namedClass classWord token))) false)
  | .exportDefaultClass word defaultWord classWord, .keyword .extends_ =>
    some (machine.finish (.export word (.default defaultWord (.derivedClass classWord token))) false)
  | .exportDefaultClass _ _ _, .opener .brace => some (machine.opened .brace token)
  | .exportAsync word asyncWord, .keyword .function =>
    go (.exportFunction word ⟨some asyncWord, token, none⟩)
  | .exportFunction word head, .mark .star =>
    if head.star.isSome then none else go (.exportFunction word { head with star := some token })
  | .exportFunction word head, .leaf .name =>
    some (machine.finish (.export word (.function head token)) false)
  | .exportClass word classWord, .leaf .name =>
    some (machine.finish (.export word (.class classWord token)) false)
  | .exportVariable word kind, .leaf .name =>
    some (machine.finish (.export word (.variable kind (.leaf token))) false)
  | .exportVariable _ _, .opener .brace => some (machine.opened .brace token)
  | .exportVariable _ _, .opener .square => some (machine.opened .square token)
  | .exportNames word list, _ =>
    match list.feed true token with
    | some (.open list) => go (.exportNames word list)
    | some (.closed list) => go (.exportList word list)
    | none => none
  | .exportList word list, .keyword .from_ => go (.exportListFrom word list token)
  | .exportList word list, _ => (machine.finish (.export word (.names list)) false).feedItem token
  | .exportListFrom word list fromWord, .leaf .string =>
    some (machine.finish (.export word (.namesFrom list fromWord token)) false)
  | .exportStar word star, .keyword .from_ => go (.exportStarFrom word star token)
  | .exportStar word star, .keyword .as_ => go (.exportStarAs word star token)
  | .exportStarFrom word star fromWord, .leaf .string =>
    some (machine.finish (.export word (.all star fromWord token)) false)
  | .exportStarAs word star asWord, .leaf .name => go (.exportNamespace word star asWord token)
  | .exportNamespace word star asWord name, .keyword .from_ =>
    go (.exportNamespaceFrom word star asWord name token)
  | .exportNamespaceFrom word star asWord name fromWord, .leaf .string =>
    some (machine.finish (.export word (.namespace star asWord name fromWord token)) false)
  | _, _ => none

def feed (machine : Machine) (token : Token) : Option Machine :=
  match machine.frames with
  | frame :: frames => machine.feedInner frame frames token
  | [] => machine.feedOuter token

-- The module, where the text may end here.
def result? (machine : Machine) : Option Module :=
  match machine.frames, machine.progress with
  | [], .idle _ => some ⟨machine.items.reverse⟩
  | [], .exportDefault word defaultWord =>
    some ⟨(.export word (.default defaultWord .expression) :: machine.items).reverse⟩
  | [], .exportDefaultAsync word defaultWord asyncWord =>
    some ⟨(.export word (.default defaultWord (.async asyncWord)) :: machine.items).reverse⟩
  | [], .exportList word list => some ⟨(.export word (.names list) :: machine.items).reverse⟩
  | _, _ => none

end Machine
end ModuleBundler.Syntax
