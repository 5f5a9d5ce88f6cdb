import ModuleBundler.Regex.Basic
import ModuleBundler.Text.Blank
import ModuleBundler.Text.Case
import ModuleBundler.Text.Word

/-!
Matching by backtracking. What is still to be matched is a list of goals; where there is a choice,
the first way that leads to the end wins. A repetition does not begin again at the place where its
last round began, so that empty rounds end.
-/
namespace ModuleBundler.Regex

structure Place where
  -- What lies before, last character first.
  before : Text
  rest : Text
  offset : Nat
  deriving DecidableEq, Repr

-- The texts of the groups that have matched, latest first.
abbrev Captures := List (Nat × Text)

inductive Goal where
  | node (flags : Flags) (node : Node)
  | close (group : Nat) (start : Place)
  -- `last` is the offset at which the latest optional round began.
  | again (flags : Flags) (greed : Greed) (least : Nat) (most : Option Nat) (body : Node)
      (count : Nat) (last : Option Nat)
  deriving Repr

def isSpace (ascii : Bool) (c : Char) : Bool :=
  if ascii then [' ', '\t', '\n', '\r', '\x0b', '\x0c'].contains c else Text.isBlank c

def isWordChar (ascii : Bool) (c : Char) : Bool :=
  if ascii then c.isAlphanum || c == '_' else Text.isWord c

def Category.holds (ascii : Bool) (c : Char) : Category → Bool
  | digit => if ascii then c.isDigit else Text.isDecimal c
  | space => isSpace ascii c
  | word => isWordChar ascii c

def variants (flags : Flags) (code : Nat) : List Nat :=
  if flags.ignoreCase then
    if flags.ascii then Text.asciiCaseVariants code else Text.caseVariants code
  else [code]

def SetItem.holds (flags : Flags) (c : Char) : SetItem → Bool
  | code k => (variants flags k).contains c.toNat
  | range low high => (variants flags c.toNat).any fun v => low ≤ v && v ≤ high
  | category kind negated => (kind.holds flags.ascii c) != negated

def boundaryAt (flags : Flags) (place : Place) : Bool :=
  (place.before.head?.any (isWordChar flags.ascii))
    != (place.rest.head?.any (isWordChar flags.ascii))

-- An empty text has no boundaries and no other places between characters either.
def Anchor.holds (flags : Flags) (place : Place) : Anchor → Bool
  | lineStart =>
    place.before.isEmpty || (flags.multiline && place.before.head? == some '\n')
  | lineEnd =>
    place.rest.isEmpty || place.rest == ['\n']
      || (flags.multiline && place.rest.head? == some '\n')
  | textStart => place.before.isEmpty
  | textEnd => place.rest.isEmpty
  | boundary => !(place.before.isEmpty && place.rest.isEmpty) && boundaryAt flags place
  | noBoundary => !(place.before.isEmpty && place.rest.isEmpty) && !boundaryAt flags place

-- Whether one character matches a node that stands for single characters.
def Node.matchesChar (flags : Flags) (c : Char) : Node → Bool
  | code k => (variants flags k).contains c.toNat
  | any => flags.dotAll || c != '\n'
  | set negated items => (items.any (SetItem.holds flags c)) != negated
  | _ => false

def Place.next? (place : Place) : Option (Char × Place) :=
  match place.rest with
  | [] => none
  | c :: rest => some (c, ⟨c :: place.before, rest, place.offset + 1⟩)

def Place.advance (place : Place) : Nat → Place
  | 0 => place
  | count + 1 =>
    match place.next? with
    | some (_, next) => next.advance count
    | none => place

def Place.back? (place : Place) : Nat → Option Place
  | 0 => some place
  | count + 1 =>
    match place.before with
    | [] => none
    | c :: before => Place.back? ⟨before, c :: place.rest, place.offset - 1⟩ count

def sameLetter (flags : Flags) (a b : Char) : Bool :=
  a == b || (flags.ignoreCase &&
    if flags.ascii then (Text.asciiCaseVariants a.toNat).contains b.toNat
    else Text.lowerCode a.toNat == Text.lowerCode b.toNat)

-- The place behind a repetition of captured text.
def Place.skip? (flags : Flags) (place : Place) (captured : Text) : Option Place :=
  let found := place.rest.take captured.length
  if found.length = captured.length && (found.zip captured).all (fun (a, b) => sameLetter flags a b)
  then some (place.advance captured.length) else none

-- The first way to meet all goals: where it ends and what its groups matched. Fuel bounds the
-- length of one way.
def run : Nat → List Goal → Place → Captures → Option (Place × Captures)
  | _, [], place, captures => some (place, captures)
  | 0, _ :: _, _, _ => none
  | fuel + 1, goal :: goals, place, captures =>
    match goal with
    | .close group start =>
      let captured := start.rest.take (place.offset - start.offset)
      run fuel goals place ((group, captured) :: captures)
    | .again flags greed least most body count last =>
      let round (last : Option Nat) : List Goal :=
        .node flags body :: .again flags greed least most body (count + 1) last :: goals
      let more := most.all (count < ·) && last != some place.offset
      if greed = .possessive then
        if count < least || more then
          match run fuel [.node flags body] place captures with
          | some (next, captures') =>
            let last := if count < least then last else some place.offset
            run fuel (.again flags greed least most body (count + 1) last :: goals) next captures'
          | none => if count < least then none else run fuel goals place captures
        else run fuel goals place captures
      else if count < least then run fuel (round last) place captures
      else if greed = .lazy then
        match run fuel goals place captures with
        | some found => some found
        | none => if more then run fuel (round (some place.offset)) place captures else none
      else if more then
        match run fuel (round (some place.offset)) place captures with
        | some found => some found
        | none => run fuel goals place captures
      else run fuel goals place captures
    | .node flags node =>
      match node with
      | .code _ | .any | .set _ _ =>
        match place.next? with
        | some (c, next) => if node.matchesChar flags c then run fuel goals next captures else none
        | none => none
      | .anchor anchor => if anchor.holds flags place then run fuel goals place captures else none
      | .backreference group =>
        match (captures.lookup group).bind (place.skip? flags) with
        | some next => run fuel goals next captures
        | none => none
      | .group none added removed body =>
        run fuel (.node (flags.combine added removed) body :: goals) place captures
      | .group (some group) added removed body =>
        run fuel (.node (flags.combine added removed) body :: .close group place :: goals) place
          captures
      | .atomic body =>
        match run fuel [.node flags body] place captures with
        | some (next, captures') => run fuel goals next captures'
        | none => none
      | .look back negated body =>
        let found :=
          match place.back? (back.getD 0) with
          | some start => run fuel [.node flags body] start captures
          | none => none
        match found, negated with
        | some (_, captures'), false => run fuel goals place captures'
        | none, true => run fuel goals place captures
        | _, _ => none
      | .conditional group yes no =>
        if (captures.lookup group).isSome then run fuel (.node flags yes :: goals) place captures
        else
          match no with
          | some no => run fuel (.node flags no :: goals) place captures
          | none => run fuel goals place captures
      | .repeat greed least most body =>
        run fuel (.again flags greed least most body 0 none :: goals) place captures
      | .sequence nodes => run fuel (nodes.map (.node flags) ++ goals) place captures
      | .choice [] => none
      | .choice (first :: others) =>
        match run fuel (.node flags first :: goals) place captures with
        | some found => some found
        | none => run fuel (.node flags (.choice others) :: goals) place captures

-- More than the number of steps that one way through the node can take in a text of this length.
def Node.steps (length : Nat) : Node → Nat
  | code _ | any | set _ _ | anchor _ | backreference _ => 1
  | group _ _ _ body | atomic body | look _ _ body => body.steps length + 2
  | conditional _ yes none => yes.steps length + 1
  | conditional _ yes (some no) => yes.steps length + no.steps length + 1
  | .repeat _ least _ body => (least + length + 3) * (body.steps length + 2) + 2
  | sequence nodes => (nodes.map (Node.steps length)).foldr (· + ·) 1
  | choice alternatives =>
    (alternatives.map (Node.steps length)).foldr (fun steps sum => steps + sum + 1) 1

def matchesFrom (pattern : Pattern) (fuel : Nat) (place : Place) : Bool :=
  (run fuel [.node pattern.flags pattern.root] place []).isSome

def searchFrom (pattern : Pattern) (fuel : Nat) (before : Text) (offset : Nat) : Text → Bool
  | [] => matchesFrom pattern fuel ⟨before, [], offset⟩
  | c :: rest =>
    matchesFrom pattern fuel ⟨before, c :: rest, offset⟩
      || searchFrom pattern fuel (c :: before) (offset + 1) rest

-- Whether the pattern matches anywhere in the text.
def Pattern.found (pattern : Pattern) (text : Text) : Bool :=
  searchFrom pattern (pattern.root.steps text.length + 1) [] 0 text

end ModuleBundler.Regex
