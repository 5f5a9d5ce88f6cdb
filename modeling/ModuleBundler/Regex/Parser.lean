import ModuleBundler.Json.Reader
import ModuleBundler.Regex.Basic
import ModuleBundler.Text.Integer

/-!
Reading a regular expression. The text is taken one sign at a time, where a backslash and the
character behind it are one sign; a backslash at the very end is a fault as soon as the sign before
it has been taken. Faults are placed relative to the next sign.
-/
namespace ModuleBundler.Regex

structure Reading where
  total : Nat
  rest : Text
  -- Flags that hold for the whole expression.
  flags : Flags := {}
  -- The number that the next group gets.
  nextGroup : Nat := 1
  names : List (Text × Nat) := []
  -- Widths of the closed groups.
  widths : List (Nat × Width) := []
  -- The first group number inside the outermost lookbehind being read.
  lookbehind : Option Nat := none
  -- Groups that conditions name by number, with the places of the numbers.
  conditions : List (Nat × Nat) := []
  deriving Repr

abbrev Parse := StateT Reading (Except Fault)

-- A fault placed the given number of characters before the next sign.
def failBefore (cause : Cause) (distance : Nat) : Parse α := do
  let reading ← get
  throw (.malformed cause (some (reading.total - reading.rest.length - distance)))

def signOf : Text → Option Text
  | [] => none
  | '\\' :: c :: _ => some ['\\', c]
  | c :: _ => some [c]

def peek : Parse (Option Text) := do
  pure (signOf (← get).rest)

def moveTo (rest : Text) : Parse Unit := do
  if rest = ['\\'] then throw (.malformed .trailingBackslash (some ((← get).total - 1)))
  else modify ({ · with rest })

-- Takes the next sign, if there is one.
def take? : Parse (Option Text) := do
  let reading ← get
  match signOf reading.rest with
  | none => pure none
  | some sign => do
    moveTo (reading.rest.drop sign.length)
    pure (some sign)

def accept (c : Char) : Parse Bool := do
  match ← peek with
  | some [next] =>
    if next = c then do
      let _ ← take?
      pure true
    else pure false
  | _ => pure false

-- At most `count` signs that are single characters of a class.
def takeWhile (within : Char → Bool) : Nat → Parse Text
  | 0 => pure []
  | count + 1 => do
    match ← peek with
    | some [c] =>
      if within c then do
        let _ ← take?
        let more ← takeWhile within count
        pure (c :: more)
      else pure []
    | _ => pure []

-- A name up to its terminator, which is taken too.
def takeName (terminator : Char) (what : String) (name : Text) : Nat → Parse Text
  | 0 => failBefore .unexpectedEnd 0
  | fuel + 1 => do
    match ← take? with
    | none =>
      if name.isEmpty then failBefore (.missing what) 0
      else failBefore (.unterminatedName terminator) name.length
    | some sign =>
      if sign = [terminator] then
        if name.isEmpty then failBefore (.missing what) 1 else pure name
      else takeName terminator what (name ++ sign) fuel

def isHexadecimal (c : Char) : Bool := (Json.hexValue? c).isSome
def isOctal (c : Char) : Bool := '0' ≤ c && c ≤ '7'

def numberOf (base : Nat) (digits : Text) : Nat :=
  digits.foldl (fun number c => number * base + (Json.hexValue? c).getD 0) 0

-- Letters and digits of a name; a digit cannot begin it.
def isGroupName (name : Text) : Bool :=
  match name with
  | [] => false
  | c :: rest => Text.isWord c && !Text.isDecimal c && rest.all Text.isWord

def checkName (name : Text) : Parse Unit :=
  if isGroupName name then pure () else failBefore (.badGroupName name) (name.length + 1)

-- What an escape stands for in both places where escapes occur.
inductive Escape where
  | code (code : Nat)
  | category (category : Category) (negated : Bool)
  | anchor (anchor : Anchor)
  | reference (group : Nat)
  deriving DecidableEq, Repr

def categoryEscape? (letter : Char) : Option Escape :=
  match letter with
  | 'd' => some (.category .digit false)
  | 'D' => some (.category .digit true)
  | 's' => some (.category .space false)
  | 'S' => some (.category .space true)
  | 'w' => some (.category .word false)
  | 'W' => some (.category .word true)
  | _ => none

def anchorEscape? (letter : Char) : Option Escape :=
  match letter with
  | 'A' => some (.anchor .textStart)
  | 'Z' => some (.anchor .textEnd)
  | 'b' => some (.anchor .boundary)
  | 'B' => some (.anchor .noBoundary)
  | _ => none

def controlEscape? (letter : Char) : Option Escape :=
  match letter with
  | 'a' => some (.code 7)
  | 'b' => some (.code 8)
  | 'f' => some (.code 12)
  | 'n' => some (.code 10)
  | 'r' => some (.code 13)
  | 't' => some (.code 9)
  | 'v' => some (.code 11)
  | '\\' => some (.code 92)
  | _ => none

def fixedHex (letter : Char) (count : Nat) : Parse Escape := do
  let digits ← takeWhile isHexadecimal count
  let escape := '\\' :: letter :: digits
  if digits.length ≠ count then failBefore (.incompleteEscape escape) escape.length
  else
    let code := numberOf 16 digits
    if 2147483647 < code then throw .hugeCode
    else if 1114111 < code then failBefore (.badEscape escape) escape.length
    else pure (.code code)

-- Characters cannot be given by name: no name is known.
def namedCharacter : Parse Escape := do
  if ← accept '{' then
    let name ← takeName '}' "character name" [] ((← get).rest.length + 1)
    failBefore (.unknownCharacterName name) (name.length + 4)
  else failBefore (.missing "\x7b") 0

def octal (escape : Text) : Parse Escape :=
  let code := numberOf 8 (escape.drop 1)
  if 255 < code then failBefore (.octalTooLarge escape) escape.length else pure (.code code)

-- Escapes that mean the same inside and outside of sets, after the special ones of each.
def commonEscape (letter : Char) : Parse Escape :=
  match letter with
  | 'x' => fixedHex 'x' 2
  | 'u' => fixedHex 'u' 4
  | 'U' => fixedHex 'U' 8
  | 'N' => namedCharacter
  | c =>
    if c.isAlphanum then failBefore (.badEscape ['\\', c]) 2 else pure (.code c.toNat)

def setEscape (letter : Char) : Parse Escape := do
  match controlEscape? letter <|> categoryEscape? letter with
  | some escape => pure escape
  | none =>
    if isOctal letter then
      let more ← takeWhile isOctal 2
      octal ('\\' :: letter :: more)
    else commonEscape letter

-- A reference must name a group that is closed, and not one inside the same lookbehind.
def checkReference (group distance : Nat) : Parse Unit := do
  let reading ← get
  if (reading.widths.lookup group).isNone then failBefore .openGroup distance
  else pure ()

def checkLookbehind (group : Nat) : Parse Unit := do
  let reading ← get
  match reading.lookbehind with
  | none => pure ()
  | some first =>
    if (reading.widths.lookup group).isNone then failBefore .openGroup 0
    else if first ≤ group then failBefore .groupInLookbehind 0
    else pure ()

def referenceTo (digits : Text) : Parse Escape := do
  let group := numberOf 10 digits
  if group < (← get).nextGroup then
    checkReference group (digits.length + 1)
    checkLookbehind group
    pure (.reference group)
  else failBefore (.invalidReference group) digits.length

-- One or two digits are a reference, three octal ones a character.
def numericEscape (first : Char) : Parse Escape := do
  match ← takeWhile Json.isDigit 1 with
  | [second] =>
    if isOctal first && isOctal second then
      match ← takeWhile isOctal 1 with
      | [third] => octal ['\\', first, second, third]
      | _ => referenceTo [first, second]
    else referenceTo [first, second]
  | _ => referenceTo [first]

def codeEscape (letter : Char) : Parse Escape := do
  match categoryEscape? letter <|> anchorEscape? letter <|> controlEscape? letter with
  | some escape => pure escape
  | none =>
    if letter = '0' then
      let more ← takeWhile isOctal 2
      pure (.code (numberOf 8 more))
    else if Json.isDigit letter then numericEscape letter
    else commonEscape letter

def Escape.setItem : Escape → SetItem
  | code n => .code n
  | category c negated => .category c negated
  | anchor _ | reference _ => .code 0

def setSign (sign : Text) : Parse Escape :=
  match sign with
  | ['\\', letter] => setEscape letter
  | c :: _ => pure (.code c.toNat)
  | [] => failBefore .unexpectedEnd 0

-- Where in the text the bracket of a set or group stands, as the number of characters behind it.
def distanceFrom (left : Nat) : Parse Nat := do
  pure (left - (← get).rest.length)

-- The items of a set through its closing bracket; `left` counts the characters from its opening
-- bracket on. A bracket right at the start is an item.
def parseSet (left : Nat) (items : List SetItem) : Nat → Parse (List SetItem)
  | 0 => failBefore .unexpectedEnd 0
  | fuel + 1 => do
    match ← take? with
    | none => failBefore .unterminatedSet (← distanceFrom left)
    | some sign =>
      if sign = [']'] && !items.isEmpty then pure items.reverse
      else
        let low ← setSign sign
        if ← accept '-' then
          match ← take? with
          | none => failBefore .unterminatedSet (← distanceFrom left)
          | some [']'] => pure (.code '-'.toNat :: low.setItem :: items).reverse
          | some last =>
            let high ← setSign last
            match low, high with
            | .code first, .code final =>
              if final < first then failBefore (.badRange sign last) (sign.length + 1 + last.length)
              else parseSet left (.range first final :: items) fuel
            | _, _ => failBefore (.badRange sign last) (sign.length + 1 + last.length)
        else parseSet left (low.setItem :: items) fuel

-- Bounds in braces; nothing where the brace is an ordinary character.
def parseBounds : Parse (Option (Text × Text)) := do
  let start := (← get).rest
  let low ← takeWhile Json.isDigit start.length
  let high ← if ← accept ',' then takeWhile Json.isDigit start.length else pure low
  if ← accept '}' then pure (some (low, high))
  else
    moveTo start
    pure none

def boundOf (digits : Text) : Parse (Option Nat) :=
  if digits.isEmpty then pure none
  else if Json.digitLimit < digits.length then throw (.hugeNumber digits.length)
  else
    let bound := numberOf 10 digits
    if 4294967295 ≤ bound then throw .hugeRepeat else pure (some bound)

def flagOf? (c : Char) : Option Flags :=
  match c with
  | 'i' => some { ignoreCase := true }
  | 'm' => some { multiline := true }
  | 's' => some { dotAll := true }
  | 'x' => some { verbose := true }
  | 'a' => some { ascii := true }
  | 'u' => some { unicode := true }
  | 't' => some { template := true }
  | _ => none

def isFlag (c : Char) : Bool := (flagOf? c).isSome || c = 'L'

def isLetterSign (sign : Text) : Bool :=
  match sign with
  | [c] => Text.isWord c && !Text.isDecimal c && c ≠ '_'
  | _ => false

-- What ends the flags that are turned on.
inductive FlagsEnd where
  | global | scoped | removal
  deriving DecidableEq, Repr

def parseAddedFlags (flags : Flags) (letter : Char) : Nat → Parse (Flags × FlagsEnd)
  | 0 => failBefore .unexpectedEnd 0
  | fuel + 1 => do
    match flagOf? letter with
    | none => failBefore .localeFlag 0
    | some flag =>
      let flags := flags.union flag
      if (flag.ascii || flag.unicode) && flags.ascii && flags.unicode then
        failBefore .incompatibleFlags 0
      else
        match ← take? with
        | none => failBefore (.missing "-, : or )") 0
        | some [')'] => pure (flags, .global)
        | some ['-'] => pure (flags, .removal)
        | some [':'] => pure (flags, .scoped)
        | some sign =>
          match sign with
          | [c] =>
            if isFlag c then parseAddedFlags flags c fuel
            else if isLetterSign sign then failBefore .unknownFlag 1
            else failBefore (.missing "-, : or )") 1
          | _ => failBefore (.missing "-, : or )") sign.length

-- Flags that are turned off, the first one read already; a colon ends them.
def parseRemovedFlags (flags : Flags) (letter : Char) : Nat → Parse Flags
  | 0 => failBefore .unexpectedEnd 0
  | fuel + 1 => do
    match flagOf? letter with
    | none => failBefore .alphabetFlagOff 0
    | some flag =>
      if flag.ascii || flag.unicode then failBefore .alphabetFlagOff 0
      else
        let flags := flags.union flag
        match ← take? with
        | none => failBefore (.missing ":") 0
        | some [':'] => pure flags
        | some sign =>
          match sign with
          | [c] =>
            if isFlag c then parseRemovedFlags flags c fuel
            else if isLetterSign sign then failBefore .unknownFlag 1
            else failBefore (.missing ":") 1
          | _ => failBefore (.missing ":") sign.length

-- The flags of a group: those turned on and off for it, or none where they hold everywhere.
def parseFlags (letter : Char) : Parse (Option (Flags × Flags)) := do
  let fuel := (← get).rest.length + 2
  let (added, ending) ←
    if letter = '-' then pure (({} : Flags), FlagsEnd.removal) else parseAddedFlags {} letter fuel
  if ending = .global then
    modify fun reading => { reading with flags := reading.flags.union added }
    pure none
  else if added.template then failBefore .globalFlagOn 1
  else if ending = .scoped then pure (some (added, {}))
  else
    match ← take? with
    | none => failBefore (.missing "flag") 0
    | some sign =>
      match sign with
      | [c] =>
        if isFlag c then
          let removed ← parseRemovedFlags {} c fuel
          if removed.template then failBefore .globalFlagOff 1
          else if added.meets removed then failBefore .flagBothWays 1
          else pure (some (added, removed))
        else if isLetterSign sign then failBefore .unknownFlag 1
        else failBefore (.missing "flag") 1
      | _ => failBefore (.missing "flag") sign.length

def openGroup (name : Option Text) : Parse Nat := do
  let reading ← get
  let group := reading.nextGroup
  modify ({ · with nextGroup := group + 1 })
  match name with
  | none => pure group
  | some name =>
    match reading.names.lookup name with
    | some earlier => failBefore (.redefinedGroup name group earlier) (name.length + 1)
    | none =>
      modify fun reading => { reading with names := (name, group) :: reading.names }
      pure group

def closeGroup (group : Nat) (body : Node) : Parse Unit :=
  modify fun reading =>
    { reading with widths := (group, body.width reading.widths) :: reading.widths }

def expectClosing (left : Nat) : Parse Unit := do
  if ← accept ')' then pure () else failBefore .unterminatedGroup (← distanceFrom left)

-- A comment through its closing parenthesis.
def skipComment (left : Nat) : Nat → Parse Unit
  | 0 => failBefore .unexpectedEnd 0
  | fuel + 1 => do
    match ← take? with
    | none => failBefore .unterminatedComment (← distanceFrom left)
    | some sign => if sign = [')'] then pure () else skipComment left fuel

def skipLine : Nat → Parse Unit
  | 0 => pure ()
  | fuel + 1 => do
    match ← take? with
    | none => pure ()
    | some sign => if sign = ['\n'] then pure () else skipLine fuel

-- The group that a condition asks about, by name or by number.
def conditionGroup (name : Text) : Parse Nat := do
  let distance := name.length + 1
  if isGroupName name then
    match (← get).names.lookup name with
    | some group => pure group
    | none => failBefore (.unknownGroupName name) distance
  else
    match Text.integer? name with
    | some (.ofNat group) =>
      if group = 0 then failBefore .badGroupNumber distance
      else if 1073741823 ≤ group then failBefore (.invalidReference group) distance
      else
        let reading ← get
        let place := reading.total - reading.rest.length - distance
        if (reading.conditions.lookup group).isNone then
          modify ({ · with conditions := reading.conditions ++ [(group, place)] })
        pure group
    | _ => failBefore (.badGroupName name) distance

def verboseBlank (c : Char) : Bool := [' ', '\t', '\n', '\r', '\x0b', '\x0c'].contains c

-- The item before a repetition mark; `distance` reaches back to the mark.
def repeatable (nodes : List Node) (distance : Nat) : Parse (Node × List Node) :=
  match nodes with
  | [] => failBefore .nothingToRepeat distance
  | .anchor _ :: _ => failBefore .nothingToRepeat distance
  | .repeat _ _ _ _ :: _ => failBefore .multipleRepeat distance
  | node :: earlier => pure (node, earlier)

def parseGreed : Parse Greed := do
  if ← accept '?' then pure .lazy
  else if ← accept '+' then pure .possessive
  else pure .greedy

-- The nodes with the last one repeated; `left` counts the characters behind the mark.
def repeated (nodes : List Node) (left least : Nat) (most : Option Nat) : Parse (List Node) := do
  let (node, earlier) ← repeatable nodes ((← distanceFrom left) + 1)
  let greed ← parseGreed
  pure (.repeat greed least most node :: earlier)

def parseRepeat (nodes : List Node) (mark : Char) : Parse (List Node) := do
  let left := (← get).rest.length
  match mark with
  | '?' => repeated nodes left 0 (some 1)
  | '*' => repeated nodes left 0 none
  | '+' => repeated nodes left 1 none
  | _ =>
    if (← peek) = some ['}'] then pure (.code mark.toNat :: nodes)
    else
      match ← parseBounds with
      | none => pure (.code mark.toNat :: nodes)
      | some (low, high) =>
        let least ← boundOf low
        let most ← boundOf high
        if most.any (· < least.getD 0) then failBefore .repeatsReversed (← distanceFrom left)
        else repeated nodes left (least.getD 0) most

def Escape.node : Escape → Node
  | code n => .code n
  | category c negated => .set false [.category c negated]
  | anchor a => .anchor a
  | reference group => .backreference group

def sequenceOf (nodes : List Node) : Node :=
  match nodes with
  | [node] => node
  | nodes => .sequence nodes.reverse

-- What a parenthesis begins: a part of the expression, a comment, or flags for everything.
inductive GroupResult where
  | node (node : Node)
  | nothing
  | globalFlags
  deriving Repr

-- Fuel counts steps; every second one takes a sign at least.
mutual
def parseChoice (nested verbose : Bool) (alternatives : List Node) : Nat → Parse Node
  | 0 => failBefore .unexpectedEnd 0
  | fuel + 1 => do
    let node ← parseSequence nested (!nested && alternatives.isEmpty) verbose [] fuel
    let alternatives := node :: alternatives
    if ← accept '|' then
      let reading ← get
      let verbose := if nested then verbose else reading.flags.verbose
      parseChoice nested verbose alternatives fuel
    else
      match alternatives with
      | [only] => pure only
      | several => pure (.choice several.reverse)

-- `nodes` holds what has been read, last one first; `first` holds at the start of the expression.
def parseSequence (nested first verbose : Bool) (nodes : List Node) : Nat → Parse Node
  | 0 => failBefore .unexpectedEnd 0
  | fuel + 1 => do
    match ← peek with
    | none | some ['|'] | some [')'] => pure (sequenceOf nodes)
    | some sign =>
      let left := (← get).rest.length
      let _ ← take?
      match sign with
      | ['\\', letter] =>
        let escape ← codeEscape letter
        parseSequence nested first verbose (escape.node :: nodes) fuel
      | [c] =>
        if verbose && verboseBlank c then parseSequence nested first verbose nodes fuel
        else if verbose && c = '#' then
          skipLine left
          parseSequence nested first verbose nodes fuel
        else if c = '[' then
          let negated ← accept '^'
          let items ← parseSet left [] left
          parseSequence nested first verbose (.set negated items :: nodes) fuel
        else if c = '*' || c = '+' || c = '?' || c = '{' then
          let nodes ← parseRepeat nodes c
          parseSequence nested first verbose nodes fuel
        else if c = '.' then parseSequence nested first verbose (.any :: nodes) fuel
        else if c = '^' then
          parseSequence nested first verbose (.anchor .lineStart :: nodes) fuel
        else if c = '$' then
          parseSequence nested first verbose (.anchor .lineEnd :: nodes) fuel
        else if c = '(' then
          match ← parseGroup verbose left fuel with
          | .node node => parseSequence nested first verbose (node :: nodes) fuel
          | .nothing => parseSequence nested first verbose nodes fuel
          | .globalFlags =>
            if first && nodes.isEmpty then
              parseSequence nested first (← get).flags.verbose nodes fuel
            else failBefore .flagsNotAtStart (← distanceFrom left)
        else parseSequence nested first verbose (.code c.toNat :: nodes) fuel
      | _ => failBefore .unexpectedEnd 0

-- A group whose opening parenthesis has been taken; `left` counts the characters from it on.
def parseGroup (verbose : Bool) (left : Nat) : Nat → Parse GroupResult
  | 0 => failBefore .unexpectedEnd 0
  | fuel + 1 => do
    if ← accept '?' then
      match ← take? with
      | none => failBefore .unexpectedEnd 0
      | some ['P'] =>
        if ← accept '<' then
          let name ← takeName '>' "group name" [] left
          checkName name
          let group ← openGroup (some name)
          parseBody verbose left (some group) {} {} fuel
        else if ← accept '=' then
          let name ← takeName ')' "group name" [] left
          checkName name
          match (← get).names.lookup name with
          | none => failBefore (.unknownGroupName name) (name.length + 1)
          | some group =>
            checkReference group (name.length + 1)
            checkLookbehind group
            pure (.node (.backreference group))
        else
          match ← take? with
          | none => failBefore .unexpectedEnd 0
          | some sign => failBefore (.unknownExtension ('P' :: sign)) (sign.length + 2)
      | some [':'] => parseBody verbose left none {} {} fuel
      | some ['#'] =>
        skipComment left left
        pure .nothing
      | some ['='] => parseLook verbose left true false fuel
      | some ['!'] => parseLook verbose left true true fuel
      | some ['<'] =>
        match ← take? with
        | none => failBefore .unexpectedEnd 0
        | some ['='] => parseLook verbose left false false fuel
        | some ['!'] => parseLook verbose left false true fuel
        | some sign => failBefore (.unknownExtension ('<' :: sign)) (sign.length + 2)
      | some ['('] =>
        let name ← takeName ')' "group name" [] left
        let group ← conditionGroup name
        checkLookbehind group
        let yes ← parseSequence true false verbose [] fuel
        let no ←
          if ← accept '|' then
            let no ← parseSequence true false verbose [] fuel
            if (← peek) = some ['|'] then failBefore .tooManyBranches 0
            else pure (some no)
          else pure none
        expectClosing left
        pure (.node (.conditional group yes no))
      | some ['>'] =>
        let body ← parseChoice true verbose [] fuel
        expectClosing left
        pure (.node (.atomic body))
      | some sign =>
        match sign with
        | [c] =>
          if isFlag c || c = '-' then
            match ← parseFlags c with
            | none => pure .globalFlags
            | some (added, removed) => parseBody verbose left none added removed fuel
          else failBefore (.unknownExtension [c]) 2
        | _ => failBefore (.unknownExtension sign) (sign.length + 1)
    else
      let group ← openGroup none
      parseBody verbose left (some group) {} {} fuel

def parseBody (verbose : Bool) (left : Nat) (group : Option Nat) (added removed : Flags) :
    Nat → Parse GroupResult
  | 0 => failBefore .unexpectedEnd 0
  | fuel + 1 => do
    let body ← parseChoice true ((verbose || added.verbose) && !removed.verbose) [] fuel
    expectClosing left
    match group with
    | some index => closeGroup index body
    | none => pure ()
    pure (.node (.group group added removed body))

-- References inside a lookbehind must not name groups of the outermost one around them.
def parseLook (verbose : Bool) (left : Nat) (ahead negated : Bool) : Nat → Parse GroupResult
  | 0 => failBefore .unexpectedEnd 0
  | fuel + 1 => do
    let outer := (← get).lookbehind
    if !ahead && outer.isNone then
      modify fun reading => { reading with lookbehind := some reading.nextGroup }
    let body ← parseChoice true verbose [] fuel
    if !ahead && outer.isNone then
      modify fun reading => { reading with lookbehind := none }
    expectClosing left
    let width := body.width (← get).widths
    pure (.node (.look (if ahead then none else some width.least) negated body))
end

-- The first part, in order, that cannot be carried out: a repetition where none is allowed, or a
-- lookbehind without a fixed width.
def Node.firstFault (widths : List (Nat × Width)) (template : Bool) : Node → Option Cause
  | code _ | any | set _ _ | anchor _ | backreference _ => none
  | group _ added removed body =>
    body.firstFault widths ((template || added.template) && !removed.template)
  | atomic body => body.firstFault widths template
  | look back _ body =>
    if back.isSome && !(body.width widths).isFixed then some .variableLookbehind
    else body.firstFault widths template
  | conditional _ yes none => yes.firstFault widths template
  | conditional _ yes (some no) =>
    yes.firstFault widths template <|> no.firstFault widths template
  | .repeat greed _ _ body =>
    if template then some (.templateRepeat greed) else body.firstFault widths template
  | sequence nodes => (nodes.map (Node.firstFault widths template)).findSome? id
  | choice alternatives => (alternatives.map (Node.firstFault widths template)).findSome? id

def parsePattern (fuel : Nat) : Parse Pattern := do
  if (← get).rest = ['\\'] then throw (.malformed .trailingBackslash (some 0))
  let root ← parseChoice false false [] fuel
  let reading ← get
  if reading.flags.ascii && reading.flags.unicode then throw .contradictoryFlags
  if !reading.rest.isEmpty then failBefore .unbalanced 0
  match reading.conditions.find? fun entry => reading.nextGroup ≤ entry.1 with
  | some (group, place) => throw (.malformed (.invalidReference group) (some place))
  | none =>
    match root.firstFault reading.widths reading.flags.template with
    | some cause => throw (.malformed cause none)
    | none => pure ⟨reading.flags, reading.nextGroup, root⟩

def compile (source : Text) : Except Fault Pattern :=
  ((parsePattern (3 * source.length + 8)).run { total := source.length, rest := source }).map
    Prod.fst

end ModuleBundler.Regex
