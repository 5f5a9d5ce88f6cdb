import ModuleBundler.Json.Basic

/-!
JSON text in ASCII. Quoting escapes everything outside the printable ASCII characters, with a
surrogate pair for a character past the first plane. Values are written on one line; parts that are
written already can be laid out with one on each line.
-/
namespace ModuleBundler.Json

def hexDigit (n : Nat) : Char := "0123456789abcdef".toList.getD n '0'

-- Four hexadecimal digits of a number below 65536.
def hex4 (n : Nat) : Text :=
  [hexDigit (n / 4096 % 16), hexDigit (n / 256 % 16), hexDigit (n / 16 % 16), hexDigit (n % 16)]

def unicodeEscape (n : Nat) : Text := '\\' :: 'u' :: hex4 n

def quoteChar (c : Char) : Text :=
  if c == '"' then ['\\', '"']
  else if c == '\\' then ['\\', '\\']
  else if c == '\n' then ['\\', 'n']
  else if c == '\r' then ['\\', 'r']
  else if c == '\t' then ['\\', 't']
  else if c == '\x0c' then ['\\', 'f']
  else if c == '\x08' then ['\\', 'b']
  else if 32 ≤ c.toNat && c.toNat ≤ 126 then [c]
  else if c.toNat < 65536 then unicodeEscape c.toNat
  else
    let high := 55296 + (c.toNat - 65536) / 1024
    let low := 56320 + (c.toNat - 65536) % 1024
    unicodeEscape high ++ unicodeEscape low

-- A surrogate is escaped like any other code unit.
def quoteCode (code : Nat) : Text :=
  if code.isValidChar then quoteChar (Char.ofNat code) else unicodeEscape code

def quoteCodes (codes : CodePoints) : Text := '"' :: codes.flatMap quoteCode ++ ['"']

def quote (text : Text) : Text := quoteCodes text

def natText (n : Nat) : Text := Nat.toDigits 10 n

def intText (n : Int) : Text := if n < 0 then '-' :: natText n.natAbs else natText n.natAbs

-- Decimals are written with an exponent; this program itself writes integers only.
def scalarText : Json → Text
  | null => "null".toList
  | bool true => "true".toList
  | bool false => "false".toList
  | int n => intText n
  | decimal negative digits exponent =>
    (if negative then ['-'] else []) ++ natText digits ++ 'e' :: intText exponent
  | nan => "NaN".toList
  | infinity negative => if negative then "-Infinity".toList else "Infinity".toList
  | string text => quote text
  | units codes => quoteCodes codes
  | array _ | object _ => []

mutual
def write : Json → Text
  | array elements => '[' :: writeElements elements ++ [']']
  | object members => '{' :: writeMembers members ++ ['}']
  | scalar => scalarText scalar

def writeElements : List Json → Text
  | [] => []
  | [last] => write last
  | element :: elements => write element ++ ',' :: ' ' :: writeElements elements

def writeMembers : List (Text × Json) → Text
  | [] => []
  | [(key, value)] => quote key ++ ':' :: ' ' :: write value
  | (key, value) :: members =>
    quote key ++ ':' :: ' ' :: write value ++ ',' :: ' ' :: writeMembers members
end

def indentation (depth : Nat) : Text := '\n' :: List.replicate (2 * depth) ' '

-- The parts of a collection, each on a line of its own. An empty collection stays on one line.
def indented (depth : Nat) (opening closing : Char) (parts : List Text) : Text :=
  match parts with
  | [] => [opening, closing]
  | parts =>
    opening :: indentation (depth + 1) ++ Text.joinWith (',' :: indentation (depth + 1)) parts
      ++ indentation depth ++ [closing]

end ModuleBundler.Json
