import ModuleBundler.Text.Blank
import ModuleBundler.Text.Word
import ModuleBundler.Token.Terminal

/-!
Hints for sources that were refused. A few common mistakes are recognised from the source text
alone, the first one that applies is reported. Lines begin at the start and after each newline;
blanks before a word may run over several lines.
-/
namespace ModuleBundler

inductive Hint where
  | typeSyntax
  | mixedModuleSystems
  | unterminatedTemplate
  | unterminatedString
  | unmatched (bracket : Bracket) (opened closed : Nat)
  | unknownExport
  deriving DecidableEq, Repr

namespace Hint

-- What follows each line start once blanks are skipped.
def laterLineStarts : Text → List Text
  | [] => []
  | c :: rest =>
    if c == '\n' then Text.stripLeft rest :: laterLineStarts rest else laterLineStarts rest

def lineStarts (source : Text) : List Text := Text.stripLeft source :: laterLineStarts source

-- What follows a word, where the word ends there.
def afterWord? (word : String) (text : Text) : Option Text :=
  (Text.after? word.toList text).filter Text.wordEnds

def beginsWord (word : String) (text : Text) : Bool := (afterWord? word text).isSome

-- What follows a word and the blanks behind it, of which there must be one.
def afterBlanks? (word : String) (text : Text) : Option Text :=
  match Text.after? word.toList text with
  | some (c :: rest) => if Text.isBlank c then some (Text.stripLeft rest) else none
  | _ => none

def isTypeDeclaration (text : Text) : Bool :=
  ["import", "export"].any fun word => (afterBlanks? word text).any (beginsWord "type")

def isExportAssignment (text : Text) : Bool :=
  ((Text.after? "export".toList text).map Text.stripLeft).any fun rest => rest.head? == some '='

-- A word that stands alone anywhere; `previous` is the character in front of the text.
def mentions (word : String) (previous : Option Char) : Text → Bool
  | [] => false
  | c :: rest =>
    (!previous.any Text.isWord && beginsWord word (c :: rest)) || mentions word (some c) rest

def mentionsModuleExports (source : Text) : Bool := mentions "module.exports" none source

-- A backslash hides the character behind it.
def withoutEscapes : Text → Text
  | '\\' :: _ :: rest => withoutEscapes rest
  | c :: rest => c :: withoutEscapes rest
  | [] => []

def hasLooseQuote (line : Text) : Bool :=
  let shown := withoutEscapes line
  shown.count '"' % 2 != 0 || shown.count '\'' % 2 != 0

-- What may follow `export` and one blank.
def isKnownExport (rest : Text) : Bool :=
  ["default", "const", "let", "var", "function", "async", "class"].any (beginsWord · rest)
    || rest.head? == some '\x7b' || rest.head? == some '*'

-- After two blanks the second one already differs from every known form.
def isUnknownExport (text : Text) : Bool :=
  match Text.after? "export".toList text with
  | some (c :: rest) => Text.isBlank c && (rest.head?.any Text.isBlank || !isKnownExport rest)
  | _ => false

def unmatched? (source : Text) (bracket : Bracket) : Option Hint :=
  let opened := source.count bracket.opening
  let closed := source.count bracket.closing
  if opened = closed then none else some (.unmatched bracket opened closed)

-- Loose quotes are looked for only when the account of the fault speaks of a character that no
-- terminal matches.
def suspectsCharacter (account : List Text) : Bool :=
  account.any fun words =>
    Text.includes "Unexpected character".toList words
      || Text.includes "No terminal matches".toList words

def find (source : Text) (account : List Text) : Option Hint :=
  let starts := lineStarts source
  if starts.any isTypeDeclaration || starts.any isExportAssignment then some .typeSyntax
  else if mentionsModuleExports source && starts.any (beginsWord "export") then
    some .mixedModuleSystems
  else if source.count '\x60' % 2 != 0 then some .unterminatedTemplate
  else if suspectsCharacter account && (Text.lines source).any hasLooseQuote then
    some .unterminatedString
  else
    [Bracket.brace, .paren, .square].findSome? (unmatched? source)
      <|> if starts.any isUnknownExport then some .unknownExport else none

def bracketsName : Bracket → String
  | .brace => "braces"
  | .paren => "parentheses"
  | .square => "brackets"

def name : Hint → String
  | typeSyntax => "typescript_syntax"
  | mixedModuleSystems => "mixed_module_systems"
  | unterminatedTemplate => "unterminated_template"
  | unterminatedString => "unterminated_string"
  | unmatched bracket _ _ => "unmatched_" ++ bracketsName bracket
  | unknownExport => "unknown_export"

def message : Hint → String
  | typeSyntax => "TypeScript module syntax is not supported: compile to JavaScript first"
  | mixedModuleSystems => "Don't mix 'module.exports' with 'export' declarations in one file"
  | unterminatedTemplate => "Unterminated template literal: check for a missing '\x60'"
  | unterminatedString => "Unterminated string literal: strings can't span lines"
  | unmatched bracket opened closed =>
    "Unmatched " ++ bracketsName bracket ++ ": found " ++ toString opened ++ " '"
      ++ bracket.opening.toString ++ "' but " ++ toString closed ++ " '"
      ++ bracket.closing.toString ++ "'"
  | unknownExport =>
    "Use 'export const', 'export function', 'export class', 'export default' or 'export \x7b ... \x7d'"

end Hint

-- The stripped text of a line, counted from one.
def lineContext? (source : Text) (line : Int) : Option Text :=
  if source.isEmpty || line ≤ 0 then none
  else ((Text.lines source)[line.toNat - 1]?).map Text.strip

end ModuleBundler
