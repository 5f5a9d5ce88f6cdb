import ModuleBundler.Rewriting.Declaration
import ModuleBundler.Token.Lexeme

/-!
References to imported bindings. Each one is replaced by an expression that reads the current value
of the binding; what a name is, a reference or something else of the same spelling, is judged by the
neighbours it has at its nesting level.
-/
namespace ModuleBundler

-- A source span and the text that takes its place.
structure Edit where
  start : Nat
  stop : Nat
  text : Text
  deriving DecidableEq, Repr

-- Imported names with the expressions that read them.
abbrev LiveBindings := List (Text × Text)

namespace Reference

-- Where a nesting level stands: directly in braces, and in the braces of a class body.
structure Level where
  inBraces : Bool
  inClass : Bool
  deriving DecidableEq, Repr

-- The siblings before a place, nearest first, and those after it, as far as rules look at them.
structure Around where
  before : List Sibling
  following : Option Sibling
  after : Option Sibling
  deriving Repr

def isAnyPunctuator (sibling : Sibling) (texts : List String) : Bool :=
  texts.any sibling.isPunctuator

def isTerminal (sibling : Sibling) (terminals : List Terminal) : Bool :=
  sibling.token?.any fun token => terminals.contains token.terminal

-- Whether a brace group at this place is a class body: looking backwards, `class` comes before
-- anything that ends an expression.
def opensClassBody : List Sibling → Bool
  | [] => false
  | item :: earlier =>
    match item with
    | .declaration declaration => declaration.opensClass
    | _ =>
      if item.isWord ["class"] then true
      else if item.isGroup .brace || isTerminal item Terminal.openers then false
      else if isAnyPunctuator item [";", "=", ",", ":", "=>", "?"] then false
      else opensClassBody earlier

-- What a name in the given place is replaced by, if it is a reference at all.
def replacement? (level : Level) (around : Around) (name expression : Text) : Option Text :=
  let previous := around.before.head?
  let isMethodName :=
    around.following.any (·.isGroup .paren) && around.after.any (·.isGroup .brace)
  if previous.any (·.isPunctuator "#") || isMethodName then none
  else if level.inClass then
    -- Of the members only the initial values of fields are references.
    if previous.any (fun item =>
        isTerminal item [.leaf .punctuator] && !isAnyPunctuator item [";", "*"])
    then some expression else none
  else if level.inBraces && previous.any (fun item =>
      isTerminal item [.opener .brace] || item.isPunctuator ",") then
    if around.following.any (·.isPunctuator ":") then none
    else if around.following.any (fun item =>
        item.isPunctuator "," || isTerminal item [.closer .brace]) then
      some (name ++ ':' :: ' ' :: expression)
    else some expression
  else some expression

-- Names in a piece of text, each with its offset. A name does not begin behind a word character or
-- a dot. `covered` counts the characters of a name that are still to be passed over.
def namesIn (previous : Option Char) (offset covered : Nat) : Text → List (Nat × Text)
  | [] => []
  | c :: rest =>
    match covered with
    | covered + 1 => namesIn (some c) (offset + 1) covered rest
    | 0 =>
      let begins := Text.isNameStart c
        && !previous.any (fun p => Text.isNameChar p || p == '.')
      if begins then
        let more := Lexeme.run Text.isNameChar rest
        (offset, c :: rest.take more) :: namesIn (some c) (offset + 1) more rest
      else namesIn (some c) (offset + 1) 0 rest

-- The rest of a substitution behind its opening brace, through its closing one. Templates and
-- braces inside it are read as in a template literal, one level deep.
inductive SubstitutionPart where
  | plain | nested | braces
  deriving DecidableEq, Repr

def substitutionRest? : SubstitutionPart → Text → Option Nat
  | _, [] => none
  | .plain, '}' :: _ => some 1
  | .plain, '\x60' :: rest => (substitutionRest? .nested rest).map (· + 1)
  | .plain, '{' :: rest => (substitutionRest? .braces rest).map (· + 1)
  | .plain, _ :: rest => (substitutionRest? .plain rest).map (· + 1)
  | .nested, '\x60' :: rest => (substitutionRest? .plain rest).map (· + 1)
  | .nested, '\\' :: _ :: rest => (substitutionRest? .nested rest).map (· + 2)
  | .nested, ['\\'] => none
  | .nested, _ :: rest => (substitutionRest? .nested rest).map (· + 1)
  | .braces, '}' :: rest => (substitutionRest? .plain rest).map (· + 1)
  | .braces, '{' :: _ => none
  | .braces, _ :: rest => (substitutionRest? .braces rest).map (· + 1)

-- The bodies of the substitutions in a template literal, each with its offset.
def substitutions (previous : Option Char) (offset covered : Nat) : Text → List (Nat × Text)
  | [] => []
  | c :: rest =>
    match covered with
    | covered + 1 => substitutions (some c) (offset + 1) covered rest
    | 0 =>
      let size? :=
        match c, rest with
        | '$', '{' :: body => if previous == some '\\' then none else substitutionRest? .plain body
        | _, _ => none
      match size? with
      | some size =>
        (offset + 2, (rest.drop 1).take (size - 1))
          :: substitutions (some c) (offset + 1) (size + 1) rest
      | none => substitutions (some c) (offset + 1) 0 rest

-- Literals and functions inside a substitution are left alone.
def isPlainCode (body : Text) : Bool :=
  let signs := ["\"", "'", "\x60", "=>", "function"]
  !signs.any fun sign => Text.includes sign.toList body

def templateEdits (live : LiveBindings) (token : Token) : List Edit :=
  (substitutions none token.start 0 token.text).flatMap fun (offset, body) =>
    if isPlainCode body then
      (namesIn none offset 0 body).filterMap fun (place, name) =>
        (live.lookup name).map fun expression => ⟨place, place + name.length, expression⟩
    else []

def leafEdits (live : LiveBindings) (level : Level) (around : Around) (token : Token) :
    List Edit :=
  match token.terminal with
  | .leaf .template => templateEdits live token
  | .leaf .name =>
    match live.lookup token.text with
    | some expression =>
      ((replacement? level around token.text expression).map fun text =>
        ⟨token.start, token.stop, text⟩).toList
    | none => []
  | _ => []

mutual
-- The edits in one node, given what stands around it.
def nodeEdits (live : LiveBindings) (level : Level) (around : Around) : Node → List Edit
  | .leaf token => leafEdits live level around token
  | .group bracket children =>
    let inner : Level := ⟨bracket == .brace, bracket == .brace && opensClassBody around.before⟩
    levelEdits live inner [] children

-- The edits at one nesting level, in order. `before` holds the siblings passed, last one first.
def levelEdits (live : LiveBindings) (level : Level) (before : List Sibling) :
    List Node → List Edit
  | [] => []
  | node :: nodes =>
    let around : Around := ⟨before, nodes.head?.map .node, (nodes.drop 1).head?.map .node⟩
    nodeEdits live level around node ++ levelEdits live level (.node node :: before) nodes
end

-- The edits in a class body that a default export took along.
def consumedEdits (live : LiveBindings) : Option Consumed → List Edit
  | some (.body (.group _ children)) => levelEdits live ⟨true, true⟩ [] children
  | _ => []

-- The edits of a whole module in the order of its items.
def edits (live : LiveBindings) (before : List Sibling) : List Sibling → List Edit
  | [] => []
  | item :: rest =>
    let here :=
      match item with
      | .declaration declaration =>
        match declaration.meaning with
        | .assignsDefault consumed _ => consumedEdits live consumed
        | _ => []
      | .importExpression children => levelEdits live ⟨false, false⟩ [] children
      | .node node => nodeEdits live ⟨false, false⟩ ⟨before, rest.head?, (rest.drop 1).head?⟩ node
    here ++ edits live (item :: before) rest

end Reference
end ModuleBundler
