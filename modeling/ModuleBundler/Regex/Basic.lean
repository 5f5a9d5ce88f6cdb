import ModuleBundler.Text.Quoted

/-!
Regular expressions over paths, and what can be wrong with their text. A position counts characters
from the start of the expression.
-/
namespace ModuleBundler.Regex

structure Flags where
  ignoreCase : Bool := false
  multiline : Bool := false
  dotAll : Bool := false
  verbose : Bool := false
  ascii : Bool := false
  unicode : Bool := false
  -- Asks for an expression without repetitions.
  template : Bool := false
  deriving DecidableEq, Repr

namespace Flags

def union (a b : Flags) : Flags :=
  ⟨a.ignoreCase || b.ignoreCase, a.multiline || b.multiline, a.dotAll || b.dotAll,
    a.verbose || b.verbose, a.ascii || b.ascii, a.unicode || b.unicode, a.template || b.template⟩

def without (a b : Flags) : Flags :=
  ⟨a.ignoreCase && !b.ignoreCase, a.multiline && !b.multiline, a.dotAll && !b.dotAll,
    a.verbose && !b.verbose, a.ascii && !b.ascii, a.unicode && !b.unicode,
    a.template && !b.template⟩

def meets (a b : Flags) : Bool :=
  a.ignoreCase && b.ignoreCase || a.multiline && b.multiline || a.dotAll && b.dotAll
    || a.verbose && b.verbose || a.ascii && b.ascii || a.unicode && b.unicode
    || a.template && b.template

-- A group that chooses an alphabet replaces the choice around it.
def combine (outer added removed : Flags) : Flags :=
  let outer :=
    if added.ascii || added.unicode then { outer with ascii := false, unicode := false } else outer
  (outer.union added).without removed

end Flags

inductive Category where
  | digit | space | word
  deriving DecidableEq, Repr

inductive SetItem where
  | code (code : Nat)
  | range (low high : Nat)
  | category (category : Category) (negated : Bool)
  deriving DecidableEq, Repr

inductive Anchor where
  | lineStart | lineEnd | textStart | textEnd | boundary | noBoundary
  deriving DecidableEq, Repr

inductive Greed where
  | greedy | lazy | possessive
  deriving DecidableEq, Repr

inductive Node where
  | code (code : Nat)
  | any
  | set (negated : Bool) (items : List SetItem)
  | anchor (anchor : Anchor)
  | backreference (group : Nat)
  | group (index : Option Nat) (added removed : Flags) (body : Node)
  | atomic (body : Node)
  -- `back` is how far before its place a lookbehind begins to match.
  | look (back : Option Nat) (negated : Bool) (body : Node)
  | conditional (group : Nat) (yes : Node) (no : Option Node)
  | repeat (greed : Greed) (least : Nat) (most : Option Nat) (body : Node)
  | sequence (nodes : List Node)
  | choice (alternatives : List Node)
  deriving Repr

-- A whole expression with the flags that hold everywhere in it.
structure Pattern where
  flags : Flags
  groups : Nat
  root : Node
  deriving Repr

-- Least and greatest number of characters; no greatest one where there is no bound.
structure Width where
  least : Nat
  most : Option Nat
  deriving DecidableEq, Repr

namespace Width

def zero : Width := ⟨0, some 0⟩
def one : Width := ⟨1, some 1⟩

def add (a b : Width) : Width :=
  ⟨a.least + b.least, do pure ((← a.most) + (← b.most))⟩

def join (a b : Width) : Width :=
  ⟨min a.least b.least, do pure (max (← a.most) (← b.most))⟩

def times (width : Width) (least : Nat) (most : Option Nat) : Width :=
  ⟨width.least * least,
    match width.most, most with
    | some 0, _ => some 0
    | some w, some m => some (w * m)
    | _, some 0 => some 0
    | _, _ => none⟩

def isFixed (width : Width) : Bool := width.most == some width.least

end Width

-- `groups` gives the widths of the groups that are closed already.
def Node.width (groups : List (Nat × Width)) : Node → Width
  | code _ | any | set _ _ => .one
  | anchor _ | look _ _ _ => .zero
  | backreference index => (groups.lookup index).getD .zero
  | .group _ _ _ body | atomic body => body.width groups
  | conditional _ yes none => (yes.width groups).join .zero
  | conditional _ yes (some no) => (yes.width groups).join (no.width groups)
  | .repeat _ least most body => (body.width groups).times least most
  | sequence nodes => (nodes.map (Node.width groups)).foldr Width.add .zero
  | choice alternatives =>
    match alternatives.map (Node.width groups) with
    | [] => .zero
    | first :: rest => rest.foldl Width.join first

inductive Cause where
  | trailingBackslash
  | badEscape (escape : Text)
  | incompleteEscape (escape : Text)
  | octalTooLarge (escape : Text)
  | missing (what : String)
  | unterminatedName (terminator : Char)
  | badGroupName (name : Text)
  | unknownGroupName (name : Text)
  | unknownCharacterName (name : Text)
  | redefinedGroup (name : Text) (group earlier : Nat)
  | openGroup
  | groupInLookbehind
  | invalidReference (group : Nat)
  | badGroupNumber
  | unterminatedSet
  | unterminatedComment
  | unterminatedGroup
  | unbalanced
  | badRange (low high : Text)
  | repeatsReversed
  | nothingToRepeat
  | multipleRepeat
  | unexpectedEnd
  | unknownExtension (text : Text)
  | tooManyBranches
  | flagsNotAtStart
  | unknownFlag
  | localeFlag
  | incompatibleFlags
  | globalFlagOn
  | globalFlagOff
  | alphabetFlagOff
  | flagBothWays
  | variableLookbehind
  | templateRepeat (greed : Greed)
  deriving DecidableEq, Repr

def Cause.message : Cause → Text
  | trailingBackslash => "bad escape (end of pattern)".toList
  | badEscape escape => "bad escape ".toList ++ escape
  | incompleteEscape escape => "incomplete escape ".toList ++ escape
  | octalTooLarge escape =>
    "octal escape value ".toList ++ escape ++ " outside of range 0-0o377".toList
  | missing what => "missing ".toList ++ what.toList
  | unterminatedName terminator =>
    "missing ".toList ++ terminator :: ", unterminated name".toList
  | badGroupName name => "bad character in group name ".toList ++ Text.quoted name
  | unknownGroupName name => "unknown group name ".toList ++ Text.quoted name
  | unknownCharacterName name => "undefined character name ".toList ++ Text.quoted name
  | redefinedGroup name group earlier =>
    "redefinition of group name ".toList ++ Text.quoted name ++ " as group ".toList
      ++ Json.natText group ++ "; was group ".toList ++ Json.natText earlier
  | openGroup => "cannot refer to an open group".toList
  | groupInLookbehind =>
    "cannot refer to group defined in the same lookbehind subpattern".toList
  | invalidReference group => "invalid group reference ".toList ++ Json.natText group
  | badGroupNumber => "bad group number".toList
  | unterminatedSet => "unterminated character set".toList
  | unterminatedComment => "missing ), unterminated comment".toList
  | unterminatedGroup => "missing ), unterminated subpattern".toList
  | unbalanced => "unbalanced parenthesis".toList
  | badRange low high => "bad character range ".toList ++ low ++ '-' :: high
  | repeatsReversed => "min repeat greater than max repeat".toList
  | nothingToRepeat => "nothing to repeat".toList
  | multipleRepeat => "multiple repeat".toList
  | unexpectedEnd => "unexpected end of pattern".toList
  | unknownExtension text => "unknown extension ?".toList ++ text
  | tooManyBranches => "conditional backref with more than two branches".toList
  | flagsNotAtStart => "global flags not at the start of the expression".toList
  | unknownFlag => "unknown flag".toList
  | localeFlag => "bad inline flags: cannot use 'L' flag with a str pattern".toList
  | incompatibleFlags => "bad inline flags: flags 'a', 'u' and 'L' are incompatible".toList
  | globalFlagOn => "bad inline flags: cannot turn on global flag".toList
  | globalFlagOff => "bad inline flags: cannot turn off global flag".toList
  | alphabetFlagOff => "bad inline flags: cannot turn off flags 'a', 'u' and 'L'".toList
  | flagBothWays => "bad inline flags: flag turned on and off".toList
  | variableLookbehind => "look-behind requires fixed-width pattern".toList
  | templateRepeat greed =>
    "internal: unsupported template operator ".toList
      ++ (match greed with
        | .greedy => "MAX_REPEAT"
        | .lazy => "MIN_REPEAT"
        | .possessive => "POSSESSIVE_REPEAT").toList

inductive Fault where
  -- The expression is malformed; faults of the whole have no position.
  | malformed (cause : Cause) (position : Option Nat)
  -- Flags that exclude each other, each accepted where it stands.
  | contradictoryFlags
  -- A number of repetitions past 32 bits.
  | hugeRepeat
  -- A character number past the largest machine integer.
  | hugeCode
  -- A number with more digits than are read.
  | hugeNumber (digits : Nat)
  deriving DecidableEq, Repr

-- The place is given by line and column too where the expression has several lines.
def Fault.message (source : Text) : Fault → Text
  | malformed cause none => cause.message
  | malformed cause (some position) =>
    let placed := cause.message ++ " at position ".toList ++ Json.natText position
    if '\n' ∈ source then
      let passed := source.take position
      placed ++ " (line ".toList ++ Json.natText (Text.newlines passed + 1) ++ ", column ".toList
        ++ Json.natText ((passed.reverse.takeWhile (· != '\n')).length + 1) ++ ")".toList
    else placed
  | contradictoryFlags => "ASCII and UNICODE flags are incompatible".toList
  | hugeRepeat => "the repetition number is too large".toList
  | hugeCode => "Python int too large to convert to C int".toList
  | hugeNumber digits =>
    "Exceeds the limit (4300 digits) for integer string conversion: value has ".toList
      ++ Json.natText digits
      ++ " digits; use sys.set_int_max_str_digits() to increase the limit".toList

end ModuleBundler.Regex
