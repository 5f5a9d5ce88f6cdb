import ModuleBundler.Bundle.Basic
import ModuleBundler.Text.Quoted
import ModuleBundler.Text.Word

/-!
The arguments of the command line. All arguments are classified first, then they are taken from left
to right. A long option may be shortened as long as one option alone can be meant; two dashes end
the options.
-/
namespace ModuleBundler.CommandLine

inductive Flag where
  | help | output | format | noBanner | config | graph | run | verbose
  deriving DecidableEq, Repr

def Flag.takesValue : Flag → Bool
  | output | format | config => true
  | _ => false

-- Every spelling, in the order in which they are told to the user.
def spellings : List (Text × Flag) :=
  [("-h", Flag.help), ("--help", .help), ("-o", .output), ("--output", .output),
    ("--format", .format), ("--no-banner", .noBanner), ("--config", .config),
    ("--graph", .graph), ("--run", .run), ("--verbose", .verbose)].map
    fun (spelling, flag) => (spelling.toList, flag)

def Flag.name (flag : Flag) : Text :=
  Text.joinWith ['/'] ((spellings.filter fun entry => entry.2 = flag).map Prod.fst)

inductive UsageFault where
  | ambiguous (argument : Text) (meanings : List Text)
  | missingValue (flag : Flag)
  | ignoredValue (flag : Flag) (value : Text)
  | invalidFormat (value : Text)
  | unrecognized (arguments : List Text)
  deriving DecidableEq, Repr

def about (flag : Flag) (text : Text) : Text := "argument ".toList ++ flag.name ++ ": ".toList ++ text

def UsageFault.message : UsageFault → Text
  | ambiguous argument meanings =>
    "ambiguous option: ".toList ++ argument ++ " could match ".toList
      ++ Text.joinWith ", ".toList meanings
  | missingValue flag => about flag "expected one argument".toList
  | ignoredValue flag value =>
    about flag ("ignored explicit argument ".toList ++ Text.quoted value)
  | invalidFormat value =>
    about .format ("invalid choice: ".toList ++ Text.quoted value ++ " (choose from ".toList
      ++ Text.joinWith ", ".toList (BundleFormat.byName.map fun entry => Text.quoted entry.1.toList)
      ++ [')'])
  | unrecognized arguments =>
    "unrecognized arguments: ".toList ++ Text.joinWith [' '] arguments

-- A value in the same argument as its option: behind `=`, or directly behind a short option.
inductive Attached where
  | none
  | equals (value : Text)
  | direct (value : Text)
  deriving DecidableEq, Repr

inductive Word where
  | option (flag : Flag) (attached : Attached)
  | unknown (text : Text)
  | plain (text : Text)
  -- Two dashes, behind which everything is plain.
  | dashes
  deriving DecidableEq, Repr

-- What is before the first `=`, and what is behind it.
def cutEquals (argument : Text) : Text × Attached :=
  match argument.dropWhile (· != '=') with
  | _ :: value => (argument.takeWhile (· != '='), .equals value)
  | [] => (argument, .none)

-- The options that can be meant by an argument that is none of the spellings.
def meanings (argument : Text) : List (Text × Word) :=
  if Text.startsWith argument ['-', '-'] then
    let (beginning, attached) := cutEquals argument
    (spellings.filter fun entry => Text.startsWith entry.1 beginning).map
      fun (spelling, flag) => (spelling, .option flag attached)
  else
    (spellings.filter fun entry => entry.1 == argument.take 2).map
      fun (spelling, flag) => (spelling, .option flag (.direct (argument.drop 2)))

def knownOption? (argument : Text) : Option Word :=
  let (name, attached) := cutEquals argument
  match spellings.lookup argument, spellings.lookup name with
  | some flag, _ => some (.option flag .none)
  | Option.none, some flag => some (.option flag attached)
  | Option.none, Option.none => Option.none

-- A minus sign and a number, perhaps with a newline at the end.
def isNegativeNumber (argument : Text) : Bool :=
  match argument with
  | '-' :: number =>
    let number := if number.getLast? == some '\n' then number.dropLast else number
    let isDigits (text : Text) : Bool := !text.isEmpty && text.all Text.isDecimal
    isDigits number
      || (match number.dropWhile Text.isDecimal with
        | '.' :: decimals => isDigits decimals
        | _ => false)
  | _ => false

def classify (argument : Text) : Except UsageFault Word :=
  if argument.head? ≠ some '-' then .ok (.plain argument)
  else
    match knownOption? argument with
    | some word => .ok word
    | none =>
      if argument.length = 1 then .ok (.plain argument)
      else
        match meanings argument with
        | [(_, word)] => .ok word
        | [] =>
          if isNegativeNumber argument || ' ' ∈ argument then .ok (.plain argument)
          else .ok (.unknown argument)
        | several => .error (.ambiguous argument (several.map Prod.fst))

def classifyAll : List Text → Except UsageFault (List Word)
  | [] => .ok []
  | argument :: rest =>
    if argument = ['-', '-'] then .ok (.dashes :: rest.map .plain)
    else do
      let word ← classify argument
      let words ← classifyAll rest
      pure (word :: words)

-- What the arguments ask for.
structure Arguments where
  entry : Option Text := none
  output : Option Text := none
  format : Option BundleFormat := none
  config : Option Text := none
  noBanner : Bool := false
  graph : Bool := false
  run : Bool := false
  verbose : Bool := false
  deriving DecidableEq, Repr

inductive Request where
  | help
  | build (arguments : Arguments)
  deriving DecidableEq, Repr

namespace Arguments

def switch (arguments : Arguments) : Flag → Arguments
  | .noBanner => { arguments with noBanner := true }
  | .graph => { arguments with graph := true }
  | .run => { arguments with run := true }
  | .verbose => { arguments with verbose := true }
  | _ => arguments

def give (arguments : Arguments) (flag : Flag) (value : Text) : Except UsageFault Arguments :=
  match flag with
  | .output => .ok { arguments with output := some value }
  | .config => .ok { arguments with config := some value }
  | .format =>
    match BundleFormat.ofName value with
    | .ok format => .ok { arguments with format := some format }
    | .error _ => .error (.invalidFormat value)
  | _ => .ok arguments

end Arguments

def Word.text : Word → Text
  | option flag _ => flag.name
  | unknown text | plain text => text
  | dashes => ['-', '-']

-- Letters behind the short option for help are short options themselves, and have to make sense
-- before help is given.
def checkLetters (rest : List Word) : Text → Except UsageFault Unit
  | [] => .ok ()
  | 'h' :: '=' :: value => .error (.ignoredValue .help value)
  | 'h' :: more => checkLetters rest more
  | ['o'] =>
    match rest with
    | .plain _ :: _ => .ok ()
    | _ => .error (.missingValue .output)
  | '-' :: more => .error (.ignoredValue .help ('-' :: more))
  | _ => .ok ()

-- Words behind the last place where an entry can stand.
def finish (arguments : Arguments) (extras : List Text) : Except UsageFault Request :=
  if extras.isEmpty then .ok (.build arguments) else .error (.unrecognized extras)

-- `taken` tells whether the entry was given already.
def take (arguments : Arguments) (taken : Bool) (extras : List Text) :
    List Word → Except UsageFault Request
  | [] => finish arguments extras
  | .plain text :: .dashes :: rest =>
    if taken then finish arguments (extras ++ text :: Word.dashes.text :: rest.map Word.text)
    else finish { arguments with entry := some text } (extras ++ rest.map Word.text)
  | .plain text :: rest =>
    if taken then take arguments taken (extras ++ [text]) rest
    else take { arguments with entry := some text } true extras rest
  | .dashes :: rest =>
    if taken then finish arguments (extras ++ Word.dashes.text :: rest.map Word.text)
    else
      match rest with
      | .plain text :: rest =>
        finish { arguments with entry := some text } (extras ++ rest.map Word.text)
      | rest => finish arguments (extras ++ rest.map Word.text)
  | .unknown text :: rest => take arguments taken (extras ++ [text]) rest
  | .option flag attached :: rest =>
    if flag.takesValue then
      match attached, rest with
      | .equals value, rest | .direct value, rest | .none, .plain value :: rest => do
        let arguments ← arguments.give flag value
        take arguments taken extras rest
      | .none, _ => .error (.missingValue flag)
    else
      match flag, attached with
      | .help, .none => .ok .help
      | .help, .direct letters => (checkLetters rest letters).map fun _ => .help
      | flag, .none => take (arguments.switch flag) taken extras rest
      | flag, .equals value | flag, .direct value => .error (.ignoredValue flag value)

def parse (arguments : List Text) : Except UsageFault Request := do
  let words ← classifyAll arguments
  take {} false [] words

end ModuleBundler.CommandLine
