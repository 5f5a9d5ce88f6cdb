import ModuleBundler.Token.Basic

/-!
The syntax of a module. Import and export declarations are parsed into typed parts; all other code
is a sequence of leaves and bracket groups that pass through untouched.
-/
namespace ModuleBundler

-- Opaque code. The children of a group begin with its opening and end with its closing bracket.
inductive Node where
  | leaf (token : Token)
  | group (bracket : Bracket) (children : List Node)
  deriving Repr

namespace Syntax

-- What stands behind `as`, with the word itself.
structure Rename where
  asWord : Token
  name : Token
  deriving DecidableEq, Repr

structure Specifier where
  name : Token
  rename : Option Rename
  deriving DecidableEq, Repr

-- A specifier with the comma after it; only the last one may lack its comma.
structure Entry where
  specifier : Specifier
  comma : Option Token
  deriving DecidableEq, Repr

structure SpecifierList where
  opener : Token
  entries : List Entry
  closer : Token
  deriving DecidableEq, Repr

-- The local name of a default import, and the comma when more follows it.
structure DefaultHead where
  name : Token
  comma : Token
  deriving DecidableEq, Repr

inductive ImportClause where
  | defaultOnly (name : Token)
  | namespace (head : Option DefaultHead) (star asWord name : Token)
  | named (head : Option DefaultHead) (list : SpecifierList)
  deriving DecidableEq, Repr

structure FunctionHead where
  asyncWord : Option Token
  functionWord : Token
  star : Option Token
  deriving DecidableEq, Repr

-- What `export default` takes along with it; the value itself follows as opaque code.
inductive DefaultTarget where
  | expression
  | async (word : Token)
  | namedFunction (head : FunctionHead) (name : Token)
  | anonymousFunction (head : FunctionHead) (parameters : Node)
  | namedClass (classWord name : Token)
  | anonymousClass (classWord : Token) (body : Node)
  | derivedClass (classWord extendsWord : Token)
  deriving Repr

inductive ExportBody where
  | default (word : Token) (target : DefaultTarget)
  | function (head : FunctionHead) (name : Token)
  | class (classWord name : Token)
  | variable (kind : Token) (binding : Node)
  | names (list : SpecifierList)
  | namesFrom (list : SpecifierList) (fromWord source : Token)
  | all (star fromWord source : Token)
  | namespace (star asWord name fromWord source : Token)
  deriving Repr

inductive Item where
  | node (node : Node)
  | importCall (word : Token) (arguments : Node)
  | importMeta (word dot name : Token)
  | importBare (word source : Token)
  | importFrom (word : Token) (clause : ImportClause) (fromWord source : Token)
  | export (word : Token) (body : ExportBody)
  deriving Repr

end Syntax

-- A parsed module: its items in source order.
structure Module where
  items : List Syntax.Item
  deriving Repr

-- How a module is shown: labelled branches over tokens, with a gap where an optional part is absent.
inductive Outline where
  | token (token : Token)
  | absent
  | branch (label : String) (children : List Outline)
  deriving Repr

namespace Outline

def optional : Option Token → Outline
  | some t => token t
  | none => absent

end Outline

def Node.outline : Node → Outline
  | .leaf token => .token token
  | .group bracket children => .branch bracket.groupName (children.map Node.outline)

namespace Syntax

open Outline

-- An absent rename leaves a gap for the word and, for imports, one more for the name.
def Specifier.outline (label : String) (gaps : List Outline) (specifier : Specifier) : Outline :=
  branch label (token specifier.name ::
    match specifier.rename with
    | some rename => [token rename.asWord, token rename.name]
    | none => gaps)

def entriesOutline (show_ : Specifier → Outline) : List Entry → List Outline
  | [] => [absent, absent]
  | [last] => [show_ last.specifier, optional last.comma]
  | entry :: entries =>
    show_ entry.specifier :: (entry.comma.map token).toList ++ entriesOutline show_ entries

def SpecifierList.outline (label : String) (show_ : Specifier → Outline)
    (list : SpecifierList) : Outline :=
  branch label (token list.opener :: entriesOutline show_ list.entries ++ [token list.closer])

def importListOutline : SpecifierList → Outline :=
  SpecifierList.outline "named_bindings" (Specifier.outline "import_specifier" [absent, absent])

def exportListOutline : SpecifierList → Outline :=
  SpecifierList.outline "export_list" (Specifier.outline "export_specifier" [absent])

def headOutline : Option DefaultHead → List Outline
  | some head => [branch "default_binding" [token head.name], token head.comma]
  | none => []

def ImportClause.outline (clause : ImportClause) : Outline :=
  branch "import_clause"
    (match clause with
      | .defaultOnly name => [branch "default_binding" [token name]]
      | .namespace head star asWord name =>
        headOutline head ++ [branch "namespace_binding" [token star, token asWord, token name]]
      | .named head list => headOutline head ++ [importListOutline list])

def FunctionHead.outline (head : FunctionHead) : List Outline :=
  [optional head.asyncWord, token head.functionWord, optional head.star]

def DefaultTarget.outline : DefaultTarget → String × List Outline
  | .expression => ("export_default_expr", [])
  | .async word => ("export_default_expr", [token word])
  | .namedFunction head name => ("export_default_named", head.outline ++ [token name])
  | .anonymousFunction head parameters =>
    ("export_default_expr", head.outline ++ [parameters.outline])
  | .namedClass classWord name => ("export_default_named", [token classWord, token name])
  | .anonymousClass classWord body => ("export_default_expr", [token classWord, body.outline])
  | .derivedClass classWord extendsWord =>
    ("export_default_expr", [token classWord, token extendsWord])

def ExportBody.outline : ExportBody → String × List Outline
  | .default word target => (target.outline.1, token word :: target.outline.2)
  | .function head name => ("export_function", head.outline ++ [token name])
  | .class classWord name => ("export_class", [token classWord, token name])
  | .variable kind binding => ("export_variable", [token kind, binding.outline])
  | .names list => ("export_names", [exportListOutline list])
  | .namesFrom list fromWord source =>
    ("export_from", [exportListOutline list, token fromWord, token source])
  | .all star fromWord source => ("export_all", [token star, token fromWord, token source])
  | .namespace star asWord name fromWord source =>
    ("export_namespace", [token star, token asWord, token name, token fromWord, token source])

def Item.outline : Item → Outline
  | .node code => code.outline
  | .importCall word arguments => branch "import_expr" [token word, arguments.outline]
  | .importMeta word dot name => branch "import_expr" [token word, token dot, token name]
  | .importBare word source => branch "import_bare" [token word, token source]
  | .importFrom word clause fromWord source =>
    branch "import_from" [token word, clause.outline, token fromWord, token source]
  | .export word body => branch body.outline.1 (token word :: body.outline.2)

end Syntax

def Module.outline (module_ : Module) : Outline :=
  .branch "start" (module_.items.map Syntax.Item.outline)

-- The tokens of an outline in order.
def Outline.tokens : Outline → List Token
  | token t => [t]
  | absent => []
  | branch _ children => children.flatMap Outline.tokens

end ModuleBundler
