import ModuleBundler.Json.Reader

/-!
String literals of script code. Writing gives a double-quoted literal of printable ASCII in which
`</` never occurs; reading decodes the escapes of a single- or double-quoted literal.
-/
namespace ModuleBundler.Literal

-- A slash behind `<` is escaped, so that no literal can end a script element it stands in.
def guardClosers (text : Text) : Text := Text.replace ['<', '/'] ['<', '\\', '/'] text

def writeCodes (codes : CodePoints) : Text := guardClosers (Json.quoteCodes codes)

def write (text : Text) : Text := writeCodes text

inductive EscapeFault where
  -- `\u` or `\x` without the digits that belong to it.
  | missingDigits
  -- Past the last code point.
  | beyondLastCodePoint
  -- Past the largest machine integer.
  | tooLarge
  deriving DecidableEq, Repr

def EscapeFault.message : EscapeFault → String
  | missingDigits => "invalid literal for int() with base 16: ''"
  | beyondLastCodePoint => "chr() arg not in range(0x110000)"
  | tooLarge => "Python int too large to convert to C int"

def hexNumber (digits : Text) : Nat :=
  digits.foldl (fun number c => number * 16 + (Json.hexValue? c).getD 0) 0

def isHexDigit (c : Char) : Bool := (Json.hexValue? c).isSome

-- The digits between braces, which must be closed and hold at least one digit.
def bracedDigits? (text : Text) : Option Text :=
  match text with
  | '{' :: rest =>
    match rest.takeWhile isHexDigit, rest.dropWhile isHexDigit with
    | [], _ => none
    | digits, '}' :: _ => some digits
    | _, _ => none
  | _ => none

def fixedDigits? (count : Nat) (text : Text) : Option Text :=
  let digits := text.take count
  if digits.length = count && digits.all isHexDigit then some digits else none

def codePoint (number : Nat) : Except EscapeFault Nat :=
  if 2147483647 < number then .error .tooLarge
  else if 1114111 < number then .error .beyondLastCodePoint
  else .ok number

def simpleEscape (c : Char) : Nat :=
  match c with
  | 'n' => 10
  | 't' => 9
  | 'r' => 13
  | 'b' => 8
  | 'f' => 12
  | 'v' => 11
  | '0' => 0
  | c => c.toNat

-- What an escape stands for and how many characters it takes behind the one after the backslash.
-- A line break after a backslash stands for nothing.
def escape (letter : Char) (rest : Text) : Except EscapeFault (List Nat × Nat) :=
  let wide := if letter = 'u' then bracedDigits? rest else none
  let fixed :=
    if letter = 'u' then fixedDigits? 4 rest
    else if letter = 'x' then fixedDigits? 2 rest
    else none
  match wide, fixed with
  | some digits, _ => (codePoint (hexNumber digits)).map fun code => ([code], digits.length + 2)
  | none, some digits => .ok ([hexNumber digits], digits.length)
  | none, none =>
    if letter = 'u' || letter = 'x' then .error .missingDigits
    else if letter = '\n' then .ok ([], 0)
    else .ok ([simpleEscape letter], 0)

-- What stands between the quotes. An escape gives one code point, also where it is a half of a
-- surrogate pair with the other half beside it. A backslash at the very end stands for itself.
def decodeBody : Text → Except EscapeFault CodePoints
  | [] => .ok []
  | ['\\'] => .ok ['\\'.toNat]
  | '\\' :: letter :: rest => do
    let (codes, size) ← escape letter rest
    let more ← decodeBody (rest.drop size)
    pure (codes ++ more)
  | c :: rest => do
    let more ← decodeBody rest
    pure (c.toNat :: more)
termination_by text => text.length
decreasing_by all_goals (simp only [List.length_drop, List.length_cons]; omega)

-- The first and the last character are taken for the quotes, whatever they are.
def decode (literal : Text) : Except EscapeFault CodePoints := decodeBody (literal.drop 1).dropLast

-- The text that a literal is shown as.
def value (literal : Text) : Except EscapeFault Text := (decode literal).map CodePoints.shown

end ModuleBundler.Literal
