import ModuleBundler.Json.Writer

/-!
Reading JSON text. The reader works on what is left of the text; a fault carries what was left where
it was noticed, from which the place in the whole text follows. The names of the two infinities and
of the undefined number are read too, and an integer may have at most 4300 digits.
-/
namespace ModuleBundler.Json

inductive Fault where
  | byteOrderMark
  | value
  | extraData
  | propertyName
  | colon
  | comma
  | unterminatedString
  | controlCharacter
  | escape
  | unicodeEscape
  -- A well-formed integer of this many digits.
  | tooManyDigits (count : Nat)
  deriving DecidableEq, Repr

def Fault.message : Fault → String
  | byteOrderMark => "Unexpected UTF-8 BOM (decode using utf-8-sig)"
  | value => "Expecting value"
  | extraData => "Extra data"
  | propertyName => "Expecting property name enclosed in double quotes"
  | colon => "Expecting ':' delimiter"
  | comma => "Expecting ',' delimiter"
  | unterminatedString => "Unterminated string starting at"
  | controlCharacter => "Invalid control character at"
  | escape => "Invalid \\escape"
  | unicodeEscape => "Invalid \\uXXXX escape"
  | tooManyDigits count =>
    "Exceeds the limit (4300 digits) for integer string conversion: value has "
      ++ toString count ++ " digits; use sys.set_int_max_str_digits() to increase the limit"

-- A fault and what was left of the text at its place.
structure Failure where
  fault : Fault
  rest : Text
  deriving DecidableEq, Repr

def isGap (c : Char) : Bool := c == ' ' || c == '\t' || c == '\n' || c == '\r'

def skipGap (text : Text) : Text := text.dropWhile isGap

def isDigit (c : Char) : Bool := '0' ≤ c && c ≤ '9'

def hexValue? (c : Char) : Option Nat :=
  if isDigit c then some (c.toNat - 48)
  else if 'a' ≤ c && c ≤ 'f' then some (c.toNat - 87)
  else if 'A' ≤ c && c ≤ 'F' then some (c.toNat - 55)
  else none

def hex4? : Text → Option (Nat × Text)
  | a :: b :: c :: d :: rest => do
    let a ← hexValue? a
    let b ← hexValue? b
    let c ← hexValue? c
    let d ← hexValue? d
    pure (a * 4096 + b * 256 + c * 16 + d, rest)
  | _ => none

def simpleEscape? (c : Char) : Option Char :=
  match c with
  | '"' => some '"'
  | '\\' => some '\\'
  | '/' => some '/'
  | 'b' => some '\x08'
  | 'f' => some '\x0c'
  | 'n' => some '\n'
  | 'r' => some '\r'
  | 't' => some '\t'
  | _ => none

-- The code unit after `\u`, joined with a second one where both form a pair. Digits must be
-- followed by at least one more character. `rest` begins at the letter.
def unicodeEscape? (rest : Text) : Except Failure (Nat × Text) :=
  match hex4? (rest.drop 1) with
  | some (unit, after) =>
    if after.isEmpty then .error ⟨.unicodeEscape, rest⟩
    else if CodePoints.isHighSurrogate unit && 6 < after.length then
      match after with
      | '\\' :: 'u' :: digits =>
        match hex4? digits with
        | some (second, later) =>
          if CodePoints.isLowSurrogate second then .ok (CodePoints.pair unit second, later)
          else .ok (unit, after)
        | none => .error ⟨.unicodeEscape, after.drop 1⟩
      | _ => .ok (unit, after)
    else .ok (unit, after)
  | none => .error ⟨.unicodeEscape, rest⟩

-- The code points of a string behind its opening quote; `opening` begins at that quote. Fuel counts the
-- characters that are left.
def readString (opening : Text) : Nat → Text → Except Failure (CodePoints × Text)
  | 0, _ | _, [] => .error ⟨.unterminatedString, opening⟩
  | fuel + 1, c :: rest =>
    if c == '"' then .ok ([], rest)
    else if c == '\\' then
      match rest with
      | [] => .error ⟨.unterminatedString, opening⟩
      | 'u' :: _ => do
        let (decoded, after) ← unicodeEscape? rest
        let (codes, after) ← readString opening fuel after
        pure (decoded :: codes, after)
      | letter :: after =>
        match simpleEscape? letter with
        | some decoded => do
          let (codes, after) ← readString opening fuel after
          pure (decoded.toNat :: codes, after)
        | none => .error ⟨.escape, c :: rest⟩
    else if c.toNat < 32 then .error ⟨.controlCharacter, c :: rest⟩
    else do
      let (codes, after) ← readString opening fuel rest
      pure (c.toNat :: codes, after)

def digitsValue (digits : Text) : Nat :=
  digits.foldl (fun value c => value * 10 + (c.toNat - 48)) 0

-- Digits behind a point; a point without a digit is not part of the number.
def fraction : Text → Text × Text
  | '.' :: c :: rest =>
    if isDigit c then (c :: rest.takeWhile isDigit, rest.dropWhile isDigit)
    else ([], '.' :: c :: rest)
  | rest => ([], rest)

def exponentSign : Text → Bool × Text
  | '-' :: rest => (true, rest)
  | '+' :: rest => (false, rest)
  | rest => (false, rest)

def exponent? : Text → Option (Int × Text)
  | 'e' :: rest | 'E' :: rest =>
    let (negative, digits) := exponentSign rest
    match digits.takeWhile isDigit with
    | [] => none
    | shown =>
      let size : Int := digitsValue shown
      some (if negative then -size else size, digits.dropWhile isDigit)
  | _ => none

def digitLimit : Nat := 4300

-- The number after its sign. `start` begins at the sign, where a missing number is reported.
def readNumber (start : Text) (negative : Bool) (text : Text) : Except Failure (Json × Text) :=
  let whole :=
    match text with
    | '0' :: _ => ['0']
    | _ => text.takeWhile isDigit
  if whole.isEmpty then .error ⟨.value, start⟩
  else
    let rest := text.drop whole.length
    let (decimals, afterFraction) := fraction rest
    match decimals, exponent? afterFraction with
    | [], none =>
      if digitLimit < whole.length then .error ⟨.tooManyDigits whole.length, start⟩
      else
        let size : Int := digitsValue whole
        .ok (.int (if negative then -size else size), rest)
    | _, none =>
      .ok (.decimal negative (digitsValue (whole ++ decimals)) (-decimals.length), afterFraction)
    | _, some (exponent, after) =>
      .ok (.decimal negative (digitsValue (whole ++ decimals)) (exponent - decimals.length), after)

-- Words that stand for a value.
def words : List (Text × Json) :=
  [("null".toList, .null), ("true".toList, .bool true), ("false".toList, .bool false),
    ("NaN".toList, .nan), ("Infinity".toList, .infinity false),
    ("-Infinity".toList, .infinity true)]

def readWordOrNumber (text : Text) : Except Failure (Json × Text) :=
  match words.find? fun entry => Text.startsWith text entry.1 with
  | some (word, value) => .ok (value, text.drop word.length)
  | none =>
    match text with
    | '-' :: rest => readNumber text true rest
    | _ => readNumber text false text

-- An opening bracket takes two steps, everything else at most one for each character.
mutual
def readValue : Nat → Text → Except Failure (Json × Text)
  | 0, text => .error ⟨.value, text⟩
  | fuel + 1, text =>
    match text with
    | '"' :: rest => do
      let (decoded, after) ← readString text rest.length rest
      pure (ofCodePoints decoded, after)
    | '[' :: rest =>
      match skipGap rest with
      | ']' :: after => .ok (.array [], after)
      | inside => do
        let (elements, after) ← readElements fuel inside
        pure (.array elements, after)
    | '{' :: rest =>
      match skipGap rest with
      | '}' :: after => .ok (.object [], after)
      | inside => do
        let (members, after) ← readMembers fuel [] inside
        pure (.object members, after)
    | _ => readWordOrNumber text

def readElements : Nat → Text → Except Failure (List Json × Text)
  | 0, text => .error ⟨.value, text⟩
  | fuel + 1, text => do
    let (element, after) ← readValue fuel text
    match skipGap after with
    | ']' :: rest => .ok ([element], rest)
    | ',' :: rest => do
      let (elements, rest) ← readElements fuel (skipGap rest)
      pure (element :: elements, rest)
    | rest => .error ⟨.comma, rest⟩

def readMembers : Nat → List (Text × Json) → Text → Except Failure (List (Text × Json) × Text)
  | 0, _, text => .error ⟨.propertyName, text⟩
  | fuel + 1, members, text =>
    match text with
    | '"' :: rest => do
      let (key, after) ← readString text rest.length rest
      match skipGap after with
      | ':' :: rest => do
        let (value, after) ← readValue fuel (skipGap rest)
        let members := Dictionary.put members (CodePoints.shown key) value
        match skipGap after with
        | '}' :: rest => .ok (members, rest)
        | ',' :: rest => readMembers fuel members (skipGap rest)
        | rest => .error ⟨.comma, rest⟩
      | rest => .error ⟨.colon, rest⟩
    | _ => .error ⟨.propertyName, text⟩
end

-- Where in a text something was noticed.
structure Place where
  offset : Nat
  line : Nat
  column : Nat
  deriving DecidableEq, Repr

def placeOf (text rest : Text) : Place :=
  let passed := text.take (text.length - rest.length)
  ⟨passed.length, Text.newlines passed + 1,
    (passed.reverse.takeWhile (· != '\n')).length + 1⟩

-- One document with nothing but gaps around it.
def read (text : Text) : Except Failure Json :=
  if text.head? == some '\ufeff' then .error ⟨.byteOrderMark, text⟩
  else
    match readValue (2 * text.length + 2) (skipGap text) with
    | .error failure => .error failure
    | .ok (value, rest) =>
      match skipGap rest with
      | [] => .ok value
      | rest => .error ⟨.extraData, rest⟩

end ModuleBundler.Json
