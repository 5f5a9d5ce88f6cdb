import ModuleBundler.Json.Whole
import ModuleBundler.Regex.Basic
import ModuleBundler.Text.Blank

/-!
Checking plain data against what is expected of it. Reading is lenient: a number may be written as
text and a truth value as a word. All issues of one value are collected, each with the way to the
place it is about.
-/
namespace ModuleBundler.Schema

-- One step into a value.
inductive Step where
  | field (name : Text)
  | index (position : Nat)
  deriving DecidableEq, Repr

inductive IssueKind where
  | missing
  | extraForbidden
  | stringType
  | listType
  | dictionaryType
  | modelType (name : String)
  | literal (allowed : List String)
  | boolType
  | boolParsing
  | intType
  | intParsing
  | intParsingSize
  | intFromFraction
  | finiteNumber
  | tooSmall (least : Int)
  | value (message : Text)
  deriving DecidableEq, Repr

def IssueKind.name : IssueKind → String
  | missing => "missing"
  | extraForbidden => "extra_forbidden"
  | stringType => "string_type"
  | listType => "list_type"
  | dictionaryType => "dict_type"
  | modelType _ => "model_type"
  | literal _ => "literal_error"
  | boolType => "bool_type"
  | boolParsing => "bool_parsing"
  | intType => "int_type"
  | intParsing => "int_parsing"
  | intParsingSize => "int_parsing_size"
  | intFromFraction => "int_from_float"
  | finiteNumber => "finite_number"
  | tooSmall _ => "greater_than_equal"
  | value _ => "value_error"

def quotedWord (word : String) : Text := '\'' :: word.toList ++ ['\'']

-- Two or more words, the last one after "or".
def alternatives : List String → Text
  | [] => []
  | [word] => quotedWord word
  | [a, b] => quotedWord a ++ " or ".toList ++ quotedWord b
  | a :: rest => quotedWord a ++ ", ".toList ++ alternatives rest

def IssueKind.message : IssueKind → Text
  | missing => "Field required".toList
  | extraForbidden => "Extra inputs are not permitted".toList
  | stringType => "Input should be a valid string".toList
  | listType => "Input should be a valid list".toList
  | dictionaryType => "Input should be a valid dictionary".toList
  | modelType name =>
    "Input should be a valid dictionary or instance of ".toList ++ name.toList
  | literal allowed => "Input should be ".toList ++ alternatives allowed
  | boolType => "Input should be a valid boolean".toList
  | boolParsing => "Input should be a valid boolean, unable to interpret input".toList
  | intType => "Input should be a valid integer".toList
  | intParsing =>
    "Input should be a valid integer, unable to parse string as an integer".toList
  | intParsingSize =>
    "Unable to parse input string as an integer, exceeded maximum size".toList
  | intFromFraction =>
    "Input should be a valid integer, got a number with a fractional part".toList
  | finiteNumber => "Input should be a finite number".toList
  | tooSmall least =>
    "Input should be greater than or equal to ".toList ++ Json.intText least
  | value message => "Value error, ".toList ++ message

structure Issue where
  path : List Step
  kind : IssueKind
  deriving DecidableEq, Repr

def Step.text : Step → Text
  | field name => name
  | index position => Json.natText position

-- The way to the place, and what is wrong there.
def Issue.line (issue : Issue) : Text :=
  Text.joinWith ['.'] (issue.path.map Step.text) ++ ": ".toList ++ issue.kind.message

inductive Rejection where
  | issues (issues : List Issue)
  -- Checking broke off at a number too large to deal with.
  | interrupted (fault : Regex.Fault)
  deriving DecidableEq, Repr

abbrev Checked (α : Type) := Except Rejection α

def reject (kind : IssueKind) : Checked α := .error (.issues [⟨[], kind⟩])

-- The issues of a part, seen from the whole.
def inside (step : Step) (checked : Checked α) : Checked α :=
  match checked with
  | .error (.issues issues) =>
    .error (.issues (issues.map fun issue => { issue with path := step :: issue.path }))
  | checked => checked

-- Both values, or the issues of both.
def both (first : Checked α) (second : Checked β) : Checked (α × β) :=
  match first, second with
  | .ok a, .ok b => .ok (a, b)
  | .error (.interrupted fault), _ => .error (.interrupted fault)
  | _, .error (.interrupted fault) => .error (.interrupted fault)
  | .error (.issues first), .error (.issues second) => .error (.issues (first ++ second))
  | .error (.issues issues), .ok _ => .error (.issues issues)
  | .ok _, .error (.issues issues) => .error (.issues issues)

-- A surrogate of its own is read as NUL: neither is in the name of a file.
def readText : Json → Checked Text
  | .string text => .ok text
  | .units codes => .ok (CodePoints.named codes)
  | _ => reject .stringType

def readCodes : Json → Checked CodePoints
  | .string text => .ok text
  | .units codes => .ok codes
  | _ => reject .stringType

def readOptional (read : Json → Checked α) : Json → Checked (Option α)
  | .null => .ok none
  | value => (read value).map some

def trueWords : List Text := ["1", "on", "t", "true", "y", "yes"].map String.toList
def falseWords : List Text := ["0", "off", "f", "false", "n", "no"].map String.toList

-- Numbers past the machine integers count as no truth values at all.
def isMachineInt (value : Int) : Bool := -Int.pow 2 63 ≤ value && value < Int.pow 2 63

def boolOfInt (value : Int) : Checked Bool :=
  if value = 0 then .ok false
  else if value = 1 then .ok true
  else if isMachineInt value then reject .boolParsing
  else reject .boolType

-- Words count in any case. A number must be whole and is then zero or one.
def readBool : Json → Checked Bool
  | .bool value => .ok value
  | .int value => boolOfInt value
  | .decimal negative digits exponent =>
    match Json.wholeOfDecimal negative digits exponent with
    | .whole value => boolOfInt value
    | _ => reject .boolType
  | .string text =>
    let word := text.map Char.toLower
    if word ∈ trueWords then .ok true
    else if word ∈ falseWords then .ok false
    else reject .boolParsing
  | _ => reject .boolType

-- Blanks as Unicode defines them; the information separators are not among them.
def isSpace (c : Char) : Bool := Text.isBlank c && !(28 ≤ c.toNat && c.toNat ≤ 31)

def trim (text : Text) : Text :=
  ((text.dropWhile isSpace).reverse.dropWhile isSpace).reverse

-- Without the zeros in front, of which one stays where nothing else is left. Underscores between
-- them go along.
def dropLeadingZeros (text : Text) : Option Text :=
  match text with
  | '0' :: rest =>
    let zeros := rest.takeWhile fun c => c == '0' || c == '_'
    match rest.dropWhile fun c => c == '0' || c == '_' with
    | [] => some [(zeros.getLast?).getD '0']
    | '.' :: decimals => some ((zeros.getLast?).getD '0' :: '.' :: decimals)
    | c :: more => if '1' ≤ c && c ≤ '9' then some (c :: more) else none
  | c :: _ => if '1' ≤ c && c ≤ '9' then some text else none
  | [] => none

-- Without a point that only zeros follow.
def dropZeroFraction (text : Text) : Text :=
  match text.dropWhile (· != '.') with
  | '.' :: decimals => if decimals.all (· == '0') then text.takeWhile (· != '.') else text
  | _ => text

-- Single underscores between digits are left out.
def dropUnderscores (text : Text) : Text :=
  if text.head? == some '_' || text.getLast? == some '_' || Text.includes ['_', '_'] text then text
  else text.filter (· != '_')

def intDigits? (text : Text) : Option Text :=
  (dropLeadingZeros text).map fun digits => dropUnderscores (dropZeroFraction digits)

-- A sign in front, and only one.
def splitSign (text : Text) : Option (Bool × Text) :=
  match text with
  | '-' :: rest => if rest.head? == some '-' || rest.head? == some '+' then none else some (true, rest)
  | '+' :: rest => if rest.head? == some '-' || rest.head? == some '+' then none else some (false, rest)
  | _ => some (false, text)

def intOfText (text : Text) : Checked Int :=
  match (splitSign (trim text)).bind fun (negative, digits) =>
      (intDigits? digits).map fun digits => (negative, digits) with
  | none => reject .intParsing
  | some (negative, digits) =>
    if digits.isEmpty || !digits.all (fun c => '0' ≤ c && c ≤ '9') then reject .intParsing
    else if 4300 < digits.length then reject .intParsingSize
    else
      let size : Int := digits.foldl (fun value c => value * 10 + (c.toNat - 48)) 0
      .ok (if negative then -size else size)

def readInt : Json → Checked Int
  | .int value => .ok value
  | .bool value => .ok (if value then 1 else 0)
  | .decimal negative digits exponent =>
    match Json.wholeOfDecimal negative digits exponent with
    | .whole value =>
      if isMachineInt value then .ok value else reject .intParsingSize
    | .fractional => reject .intFromFraction
    | .infinite => reject .finiteNumber
  | .nan | .infinity _ => reject .finiteNumber
  | .string text => intOfText text
  | _ => reject .intType

def atLeast (least : Int) (checked : Checked Int) : Checked Int :=
  match checked with
  | .ok value => if value < least then reject (.tooSmall least) else .ok value
  | checked => checked

def readElements (read : Json → Checked α) (position : Nat) : List Json → Checked (List α)
  | [] => .ok []
  | element :: elements =>
    (both (inside (.index position) (read element))
      (readElements read (position + 1) elements)).map fun (first, rest) => first :: rest

def readList (read : Json → Checked α) : Json → Checked (List α)
  | .array elements => readElements read 0 elements
  | _ => reject .listType

def readMembers (read : Json → Checked α) : List (Text × Json) → Checked (Dictionary Text α)
  | [] => .ok []
  | (key, value) :: members =>
    (both (inside (.field key) (read value)) (readMembers read members)).map fun (first, rest) =>
      (key, first) :: rest

def readDictionary (read : Json → Checked α) : Json → Checked (Dictionary Text α)
  | .object members => readMembers read members
  | _ => reject .dictionaryType

def required (members : Dictionary Text Json) (name : String) (read : Json → Checked α) :
    Checked α :=
  inside (.field name.toList)
    (match members.lookup name.toList with
      | some value => read value
      | none => reject .missing)

def optional (members : Dictionary Text Json) (name : String) (default : α)
    (read : Json → Checked α) : Checked α :=
  match members.lookup name.toList with
  | some value => inside (.field name.toList) (read value)
  | none => .ok default

-- One of a few words.
def readWord (allowed : List (String × α)) : Json → Checked α
  | .string text =>
    match allowed.find? fun entry => entry.1.toList == text with
    | some entry => .ok entry.2
    | none => reject (.literal (allowed.map Prod.fst))
  | _ => reject (.literal (allowed.map Prod.fst))

-- Every member whose name is unknown is an issue of its own.
def onlyNames (names : List String) (members : Dictionary Text Json) : Checked Unit :=
  match members.filterMap fun (key, _) =>
      if (names.map String.toList).contains key then none
      else some (⟨[.field key], .extraForbidden⟩ : Issue) with
  | [] => .ok ()
  | issues => .error (.issues issues)

end ModuleBundler.Schema
