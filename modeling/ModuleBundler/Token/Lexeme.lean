import ModuleBundler.Text.Blank
import ModuleBundler.Text.Word

/-!
How far each kind of lexeme reaches. A reader takes the text from its first character on and
answers the length of the lexeme, or nothing where no such lexeme begins. Lengths and not pieces,
so that cutting a text at an answer can lose nothing.
-/
namespace ModuleBundler.Lexeme

def run (within : Char → Bool) : Text → Nat
  | [] => 0
  | c :: rest => if within c then run within rest + 1 else 0

-- A run that must not be empty.
def run1? (within : Char → Bool) (text : Text) : Option Nat :=
  match run within text with
  | 0 => none
  | n + 1 => some (n + 1)

def blanks? (text : Text) : Option Nat := run1? Text.isBlank text

-- Up to the end of the line, which stays outside.
def lineComment? : Text → Option Nat
  | '/' :: '/' :: rest => some (run (· != '\n') rest + 2)
  | _ => none

def blockCommentRest? : Text → Option Nat
  | '*' :: '/' :: _ => some 2
  | _ :: rest => (blockCommentRest? rest).map (· + 1)
  | [] => none

def blockComment? : Text → Option Nat
  | '/' :: '*' :: rest => (blockCommentRest? rest).map (· + 2)
  | _ => none

def comment? (text : Text) : Option Nat := (lineComment? text).or (blockComment? text)

-- An interpreter line is one only at the very start of a file.
def hashbang? : Text → Option Nat
  | '#' :: '!' :: rest => some (run (· != '\n') rest + 2)
  | _ => none

-- The rest of a quoted string, its closing quote included. A backslash takes any character with
-- it; a bare line break ends the attempt.
def quotedRest? (quote : Char) : Text → Option Nat
  | [] => none
  | ['\\'] => none
  | '\\' :: _ :: rest => (quotedRest? quote rest).map (· + 2)
  | c :: rest =>
    if c == quote then some 1
    else if c == '\n' then none
    else (quotedRest? quote rest).map (· + 1)

def string? : Text → Option Nat
  | '"' :: rest => (quotedRest? '"' rest).map (· + 1)
  | '\'' :: rest => (quotedRest? '\'' rest).map (· + 1)
  | _ => none

-- Where a template literal is being read: in its text, in a substitution, in a plain template
-- inside a substitution, or in a plain pair of braces inside a substitution.
inductive TemplatePart where
  | text | substitution | nested | braces
  deriving DecidableEq, Repr

def templateRest? : TemplatePart → Text → Option Nat
  | .text, '\x60' :: _ => some 1
  | .text, '\\' :: _ :: rest => (templateRest? .text rest).map (· + 2)
  | .text, ['\\'] => none
  | .text, '$' :: '{' :: rest => (templateRest? .substitution rest).map (· + 2)
  | .text, _ :: rest => (templateRest? .text rest).map (· + 1)
  | .substitution, '}' :: rest => (templateRest? .text rest).map (· + 1)
  | .substitution, '\x60' :: rest => (templateRest? .nested rest).map (· + 1)
  | .substitution, '{' :: rest => (templateRest? .braces rest).map (· + 1)
  | .substitution, _ :: rest => (templateRest? .substitution rest).map (· + 1)
  | .nested, '\x60' :: rest => (templateRest? .substitution rest).map (· + 1)
  | .nested, '\\' :: _ :: rest => (templateRest? .nested rest).map (· + 2)
  | .nested, ['\\'] => none
  | .nested, _ :: rest => (templateRest? .nested rest).map (· + 1)
  | .braces, '}' :: rest => (templateRest? .substitution rest).map (· + 1)
  | .braces, '{' :: _ => none
  | .braces, _ :: rest => (templateRest? .braces rest).map (· + 1)
  | _, [] => none

def template? : Text → Option Nat
  | '\x60' :: rest => (templateRest? .text rest).map (· + 1)
  | _ => none

-- The rest of a regex body up to and including the closing slash. `inClass` holds inside square
-- brackets, where a slash is an ordinary character.
def regexRest? : Bool → Text → Option Nat
  | _, [] => none
  | _, ['\\'] => none
  | _, '\n' :: _ => none
  | _, '\\' :: '\n' :: _ => none
  | inClass, '\\' :: _ :: rest => (regexRest? inClass rest).map (· + 2)
  | true, c :: rest => (regexRest? (c != ']') rest).map (· + 1)
  | false, '/' :: _ => some 1
  | false, c :: rest => (regexRest? (c == '[') rest).map (· + 1)

-- The length through the closing slash. A second slash or a star would begin a comment.
def regexBody? : Text → Option Nat
  | '/' :: c :: rest =>
    if c == '/' || c == '*' then none else (regexRest? false (c :: rest)).map (· + 1)
  | _ => none

def regex? (isFlag : Char → Bool) (text : Text) : Option Nat :=
  (regexBody? text).map fun body => body + run isFlag (text.drop body)

def name? : Text → Option Nat
  | c :: rest => if Text.isNameStart c then some (run Text.isNameChar rest + 1) else none
  | [] => none

def isMemberGap (c : Char) : Bool := c == ' ' || c == '\t' || c == '\r' || c == '\n'

-- The gap after a dot and the property name behind it.
def propertyName? (text : Text) : Option Nat :=
  let gap := run isMemberGap text
  (name? (text.drop gap)).map (· + gap)

def member? : Text → Option Nat
  | '?' :: '.' :: rest => (propertyName? rest).map (· + 2)
  | '.' :: rest => (propertyName? rest).map (· + 1)
  | _ => none

def isHexDigit (c : Char) : Bool :=
  Text.isDecimal c || ('a' ≤ c && c ≤ 'f') || ('A' ≤ c && c ≤ 'F') || c == '_'

def isDigitOrGap (c : Char) : Bool := Text.isDecimal c || c == '_'

-- A letter for the base needs at least one digit behind it.
def radixNumber? : Text → Option Nat
  | '0' :: base :: rest =>
    if base ∈ ['x', 'X', 'o', 'O', 'b', 'B'] then (run1? isHexDigit rest).map (· + 2) else none
  | _ => none

def fraction : Text → Nat
  | '.' :: rest => run isDigitOrGap rest + 1
  | _ => 0

def decimal? : Text → Option Nat
  | '.' :: c :: rest => if Text.isDecimal c then some (run isDigitOrGap rest + 2) else none
  | c :: rest =>
    if Text.isDecimal c then
      let whole := run isDigitOrGap rest + 1
      some (whole + fraction ((c :: rest).drop whole))
    else none
  | [] => none

def exponentDigits? : Text → Option Nat
  | '+' :: rest => (run1? Text.isDecimal rest).map (· + 1)
  | '-' :: rest => (run1? Text.isDecimal rest).map (· + 1)
  | rest => run1? Text.isDecimal rest

-- Zero where the letter is not followed by digits: the letter then belongs to what follows.
def exponent : Text → Nat
  | 'e' :: rest | 'E' :: rest => ((exponentDigits? rest).map (· + 1)).getD 0
  | _ => 0

def bigSuffix : Text → Nat
  | 'n' :: _ => 1
  | _ => 0

def number? (text : Text) : Option Nat :=
  let whole := (radixNumber? text).or
    ((decimal? text).map fun size => size + exponent (text.drop size))
  whole.map fun size => size + bigSuffix (text.drop size)

-- Every mark of more than one character, the longer ones first, and then the single ones.
def punctuators : List Text :=
  [">>>=", "...", "===", "!==", "**=", "<<=", ">>=", ">>>", "&&=", "||=", "??=", "=>", "==", "!=",
    "<=", ">=", "&&", "||", "??", "?.", "++", "--", "**", "<<", ">>", "-=", "+=", "*=", "/=", "%=",
    "&=", "|=", "^=", "-", "+", "*", "/", "%", "&", "|", "^", "<", ">", "!", "=", "~", "?", ":", ";",
    ",", ".", "@", "#"].map String.toList

def punctuator? (text : Text) : Option Nat :=
  (punctuators.find? (Text.startsWith text)).map List.length

end ModuleBundler.Lexeme
