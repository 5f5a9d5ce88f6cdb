import ModuleBundler.Literal
import ModuleBundler.Syntax.Tree

/-!
Declarations as far as rewriting needs them: the source span that is rewritten, and what the
declaration means. A sibling list is the code of one nesting level, declarations included.
-/
namespace ModuleBundler

inductive Imported where
  | default
  | namespace
  | named (name : Text)
  deriving DecidableEq, Repr

structure ImportBinding where
  imported : Imported
  localName : Text
  deriving DecidableEq, Repr

-- A group that a default export takes along: its parameters or its class body.
inductive Consumed where
  | parameters (group : Node)
  | body (group : Node)
  deriving Repr

-- Specifiers are told apart by the code points of their literals.
inductive Meaning where
  | imports (specifier : CodePoints) (bindings : List ImportBinding)
  -- The default export is the value of the expression that follows.
  | assignsDefault (consumed : Option Consumed) (derivedClass : Bool)
  -- A function or class that stays where it is.
  | exportsLocal (exported localName : Text) (isClass : Bool)
  | exportsVariables (names : List Text)
  -- Pairs of an exported and a local name.
  | exportsNames (bindings : List (Text × Text))
  -- Pairs of an exported and an imported name.
  | reexports (specifier : CodePoints) (bindings : List (Text × Text))
  | reexportsAll (specifier : CodePoints)
  | reexportsNamespace (specifier : CodePoints) (name : Text)
  deriving Repr

structure Declaration where
  start : Nat
  stop : Nat
  meaning : Meaning
  deriving Repr

namespace Declaration

def origin? (declaration : Declaration) : Option CodePoints :=
  match declaration.meaning with
  | .imports specifier _ | .reexports specifier _ | .reexportsAll specifier
  | .reexportsNamespace specifier _ => some specifier
  | _ => none

-- The specifier as it is shown.
def specifier? (declaration : Declaration) : Option Text :=
  declaration.origin?.map CodePoints.shown

def isImport (declaration : Declaration) : Bool :=
  match declaration.meaning with
  | .imports _ _ => true
  | _ => false

-- Whether the whole statement goes away, and with it the semicolon that ends it.
def isStatement (declaration : Declaration) : Bool :=
  match declaration.meaning with
  | .imports _ _ | .exportsNames _ | .reexports _ _ | .reexportsAll _
  | .reexportsNamespace _ _ => true
  | _ => false

-- Whether a brace group after the declaration is a class body.
def opensClass (declaration : Declaration) : Bool :=
  match declaration.meaning with
  | .assignsDefault _ derivedClass => derivedClass
  | .exportsLocal _ _ isClass => isClass
  | _ => false

end Declaration

inductive Sibling where
  | node (node : Node)
  -- `import(...)` and `import.meta` with their tokens.
  | importExpression (children : List Node)
  | declaration (declaration : Declaration)
  deriving Repr

namespace Node

def isGroup (bracket : Bracket) : Node → Bool
  | group b _ => b == bracket
  | leaf _ => false

def token? : Node → Option Token
  | leaf token => some token
  | group _ _ => none

-- A group begins with the token of its opening and ends with that of its closing bracket.
def firstToken? : Node → Option Token
  | leaf token => some token
  | group _ children => children.head?.bind token?

def lastToken? : Node → Option Token
  | leaf token => some token
  | group _ children => children.getLast?.bind token?

end Node

namespace Sibling

def token? : Sibling → Option Token
  | node code => code.token?
  | _ => none

def isPunctuator (sibling : Sibling) (text : String) : Bool :=
  sibling.token?.any (·.isPunctuator text.toList)

def isName (sibling : Sibling) : Bool := sibling.token?.any Token.isName

def isWord (sibling : Sibling) (words : List String) : Bool :=
  sibling.token?.any fun token => token.isName && words.any fun word => token.text == word.toList

def isGroup (sibling : Sibling) (bracket : Bracket) : Bool :=
  match sibling with
  | node code => code.isGroup bracket
  | _ => false

def firstLine? : Sibling → Option Nat
  | node code => code.firstToken?.map Token.line
  | importExpression children => (children.head?.bind Node.firstToken?).map Token.line
  | declaration _ => none

def lastLine? : Sibling → Option Nat
  | node code => code.lastToken?.map Token.lastLine
  | importExpression children => (children.getLast?.bind Node.lastToken?).map Token.lastLine
  | declaration _ => none

end Sibling

namespace Syntax

-- The name a specifier takes from, and the name it gives.
def Specifier.names (specifier : Specifier) : Text × Text :=
  (specifier.name.text, (specifier.rename.map (·.name.text)).getD specifier.name.text)

def importedName (name : Text) : Imported :=
  if name = Keyword.default.spelling then .default else .named name

def SpecifierList.imports (list : SpecifierList) : List ImportBinding :=
  list.entries.map fun entry =>
    ⟨importedName entry.specifier.names.1, entry.specifier.names.2⟩

-- The exported name comes first.
def SpecifierList.exports (list : SpecifierList) : List (Text × Text) :=
  list.entries.map fun entry => entry.specifier.names.swap

def DefaultHead.imports (head : Option DefaultHead) : List ImportBinding :=
  (head.map fun head => ⟨.default, head.name.text⟩).toList

def ImportClause.bindings : ImportClause → List ImportBinding
  | .defaultOnly name => [⟨.default, name.text⟩]
  | .namespace head _ _ name => DefaultHead.imports head ++ [⟨.namespace, name.text⟩]
  | .named head list => DefaultHead.imports head ++ list.imports

end Syntax
end ModuleBundler
