import ModuleBundler.Token.Basic
import ModuleBundler.Token.Lexeme

/-!
One lexing step in context. The terminals that can come next decide how a text is cut: a word is a
keyword only where the keyword is expected, and where no name is expected at all a keyword is read
off the front of a longer word.
-/
namespace ModuleBundler.Lexer

inductive Lexed where
  | skipped (size : Nat)
  | token (terminal : Terminal) (size : Nat)
  deriving DecidableEq, Repr

-- Marks after which a slash begins a regex literal, directly or after one space.
def operandMarks : List Char :=
  ['(', ',', '=', ':', '[', '!', '&', '|', '?', '{', '}', ';', '+', '-', '*', '%', '<', '>', '~',
    '^', '\n']

-- Words after which a slash begins a regex literal, spelled backwards.
def operandWordsReversed : List Text := ["nruter", "foepyt", "esac"].map String.toList

-- Judged by the characters just before the slash alone.
def operandExpected : Text → Bool
  | [] => true
  | ' ' :: earlier =>
    (match earlier with
      | c :: _ => operandMarks.contains c
      | [] => false)
      || operandWordsReversed.any (Text.startsWith earlier)
  | c :: _ => operandMarks.contains c

def isFlag (c : Char) : Bool := 'a' ≤ c && c ≤ 'z'

def regex? (before rest : Text) : Option Nat :=
  if operandExpected before then Lexeme.regex? isFlag rest else none

def ignored? (before rest : Text) : Option Nat :=
  Lexeme.blanks? rest <|> Lexeme.comment? rest
    <|> if before.isEmpty then Lexeme.hashbang? rest else none

-- A word that spells an expected keyword is that keyword, and an ordinary name otherwise.
def nameTerminal (expected : List Terminal) (text : Text) : Terminal :=
  match Keyword.all.find? fun word => expected.contains (.keyword word) && word.spelling == text with
  | some word => .keyword word
  | none => .leaf .name

-- A mark that declarations use is only that mark where it is expected.
def punctuatorTerminal (expected : List Terminal) (text : Text) : Terminal :=
  match Mark.all.find? fun mark => expected.contains (.mark mark) && [mark.char] == text with
  | some mark => .mark mark
  | none => .leaf .punctuator

def leafSize? (leaf : Leaf) (before rest : Text) : Option Nat :=
  match leaf with
  | .name => Lexeme.name? rest
  | .member => Lexeme.member? rest
  | .number => Lexeme.number? rest
  | .string => Lexeme.string? rest
  | .template => Lexeme.template? rest
  | .regex => regex? before rest
  | .punctuator => Lexeme.punctuator? rest

def leaf? (expected : List Terminal) (before rest : Text) (leaf : Leaf) : Option Lexed :=
  if expected.contains (.leaf leaf) then
    (leafSize? leaf before rest).map fun size =>
      match leaf with
      | .name => .token (nameTerminal expected (rest.take size)) size
      | .punctuator => .token (punctuatorTerminal expected (rest.take size)) size
      | leaf => .token (.leaf leaf) size
  else none

-- Terminals with one fixed spelling, longest first.
def spelled : List (Terminal × Text) :=
  Keyword.all.map (fun word => (.keyword word, word.spelling))
    ++ [Bracket.brace, .paren, .square].flatMap (fun bracket =>
        [(.opener bracket, [bracket.opening]), (.closer bracket, [bracket.closing])])
    ++ Mark.all.map (fun mark => (.mark mark, [mark.char]))

-- Keywords give way to names and marks to punctuators where those are expected too.
def readAlone (expected : List Terminal) (terminal : Terminal) : Bool :=
  expected.contains terminal &&
    match terminal with
    | .keyword _ => !expected.contains (.leaf .name)
    | .mark _ => !expected.contains (.leaf .punctuator)
    | _ => true

def spelled? (expected : List Terminal) (rest : Text) : Option Lexed :=
  (spelled.find? fun entry => readAlone expected entry.1 && Text.startsWith rest entry.2).map
    fun entry => .token entry.1 entry.2.length

-- A regex literal wins over a division sign; otherwise at most one reader succeeds before the
-- punctuators, which come after comments and numbers.
def lexeme? (expected : List Terminal) (before rest : Text) : Option Lexed :=
  leaf? expected before rest .regex
    <|> (ignored? before rest).map .skipped
    <|> leaf? expected before rest .name
    <|> leaf? expected before rest .member
    <|> leaf? expected before rest .number
    <|> leaf? expected before rest .string
    <|> leaf? expected before rest .template
    <|> leaf? expected before rest .punctuator
    <|> spelled? expected rest

end ModuleBundler.Lexer
