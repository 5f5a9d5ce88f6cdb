import ModuleBundler.Rewriting.Declaration

/-!
The names that code binds. Patterns bind the heads of their elements; a declarator list goes on
until a semicolon, a declaration or a line break that ends the statement; and the local names of a
module are those bound anywhere in it by a few shapes of neighbouring code.
-/
namespace ModuleBundler

namespace Node

def isPunctuator (node : Node) (text : String) : Bool :=
  node.token?.any (·.isPunctuator text.toList)

-- Parts between the elements that satisfy the test; empty parts are left out.
def partsBetween (separates : α → Bool) : List α → List (List α) :=
  fun elements =>
    let (part, parts) := elements.foldr
      (fun element (part, parts) =>
        if separates element then ([], if part.isEmpty then parts else part :: parts)
        else (element :: part, parts))
      ([], [])
    if part.isEmpty then parts else part :: parts

-- A node of a pattern with the names that it would bind itself.
abbrev Bound := Node × List Text

-- The target of one element: behind a rest mark, in braces behind a colon, and before a default.
def elementNames (bracket : Bracket) (element : List Bound) : List Text :=
  let element :=
    match element with
    | first :: rest => if first.1.isPunctuator "..." then rest else element
    | [] => []
  let element :=
    if bracket = .brace then
      match element.dropWhile (fun bound => !bound.1.isPunctuator ":") with
      | _ :: target => target
      | [] => element
    else element
  match element with
  | target :: _ => if target.1.isPunctuator "=" then [] else target.2
  | [] => []

-- The children of a group between its brackets.
def between (children : List α) : List α := (children.drop 1).dropLast

mutual
-- The names bound by a name, a destructuring pattern or a parameter list.
def boundNames : Node → List Text
  | leaf token => if token.isName then [token.text] else []
  | group bracket children =>
    (partsBetween (fun bound : Bound => bound.1.isPunctuator ",")
      (between (eachBound children))).flatMap (elementNames bracket)

def eachBound : List Node → List Bound
  | [] => []
  | node :: nodes => (node, boundNames node) :: eachBound nodes
end

-- The children of every group in the node, outer groups first.
mutual
def levels : Node → List (List Node)
  | leaf _ => []
  | group _ children => children :: levelsOf children

def levelsOf : List Node → List (List Node)
  | [] => []
  | node :: nodes => levels node ++ levelsOf nodes
end

end Node

namespace Sibling

def boundNames : Sibling → List Text
  | node code => code.boundNames
  | _ => []

-- Whether a statement goes on although a line break stands between two of its parts.
def continues (previous item : Sibling) : Bool :=
  previous.token?.any (·.terminal == .leaf .punctuator)
    || item.token?.any (fun token =>
        token.terminal == .leaf .punctuator || token.terminal == .leaf .member)
    || item.isGroup .paren || item.isGroup .square

def breaksLine (previous : Option Sibling) (item : Sibling) : Bool :=
  match previous with
  | some previous =>
    match item.firstLine?, previous.lastLine? with
    | some first, some last => last < first && !continues previous item
    | _, _ => false
  | none => false

-- The names of the declarators behind the first one, each after a comma.
def trailingNames (previous : Option Sibling) (afterComma : Bool) : List Sibling → List Text
  | [] => []
  | .declaration _ :: _ => []
  | item :: rest =>
    if item.isPunctuator ";" || breaksLine previous item then []
    else if afterComma then item.boundNames ++ trailingNames (some item) false rest
    else trailingNames (some item) (item.isPunctuator ",") rest

-- The name after `function` or `class`, a star between them allowed.
def declaredName (following : List Sibling) : List Text :=
  let name :=
    match following with
    | star :: name :: _ => if star.isPunctuator "*" then some name else some star
    | [name] => some name
    | [] => none
  match name with
  | some name => if name.isName then name.boundNames else []
  | none => []

-- The names bound at one place: a declaration keyword, a function or class, the parameter of an
-- arrow, or parentheses before a body that are not the head of a statement.
def namesAt (previous : Option Sibling) (item : Sibling) (following : List Sibling) : List Text :=
  match item, following with
  | .declaration parsed, _ =>
    match parsed.meaning with
    | .assignsDefault (some (.parameters group)) _ => group.boundNames
    | _ => []
  | _, _ =>
    if item.isWord ["var", "let", "const"] && !following.isEmpty then
      match following with
      | target :: rest => target.boundNames ++ trailingNames (some target) false rest
      | [] => []
    else if item.isWord ["function", "class"] then declaredName following
    else if following.head?.any (·.isPunctuator "=>") then item.boundNames
    else if item.isGroup .paren && following.head?.any (·.isGroup .brace)
        && !previous.any (·.isWord ["if", "for", "while", "switch", "with"]) then
      item.boundNames
    else []

def levelNames (previous : Option Sibling) : List Sibling → List Text
  | [] => []
  | item :: rest => namesAt previous item rest ++ levelNames (some item) rest

-- Every nesting level inside a sibling.
def innerLevels : Sibling → List (List Node)
  | .node code => code.levels
  | .importExpression children => children :: Node.levelsOf children
  | .declaration parsed =>
    match parsed.meaning with
    | .assignsDefault (some (.body group)) _ => group.levels
    | _ => []

-- Every name that the module binds itself, at any depth.
def localNames (items : List Sibling) : List Text :=
  levelNames none items
    ++ (items.flatMap innerLevels).flatMap fun level => levelNames none (level.map .node)

end Sibling
end ModuleBundler
