import ModuleBundler.CommandLine.Basic
import ModuleBundler.Proofs.Syntax.Formed

/-!
The runs that the model speaks of. An interpreter of the program takes no more levels of nesting than its stack
has, and a system can have names that are bytes and no text. Neither is part of the model, so that a situation
keeps within both limits: nothing in it is nested deeper than `stackDepth`, and no surrogate in the path of the
output stands for a byte. Memory is taken for granted, and that the standard output takes every character.
-/
namespace ModuleBundler

-- Much less than the stack of an interpreter with its usual settings holds.
def stackDepth : Nat := 100

-- How deep the brackets of a document are nested behind `depth` open ones. A bracket in a string is none.
def Json.nestingFrom (quoted : Bool) (depth : Nat) : Text → Nat
  | [] => depth
  | c :: rest =>
    if quoted then
      match c, rest with
      | '\\', _ :: later => nestingFrom true depth later
      | c, rest => nestingFrom (c != '"') depth rest
    else if c == '"' then nestingFrom true depth rest
    else if c == '[' || c == '{' then nestingFrom false (depth + 1) rest
    else if c == ']' || c == '}' then max depth (nestingFrom false (depth - 1) rest)
    else nestingFrom false depth rest

def Json.nesting (text : Text) : Nat := nestingFrom false 0 text

mutual
def Node.depth : Node → Nat
  | leaf _ => 0
  | group _ children => depths children + 1

def Node.depths : List Node → Nat
  | [] => 0
  | node :: nodes => max node.depth (depths nodes)
end

namespace Config
open Schema

-- The expressions of the rules in a configuration.
def expressions : Json → List Text
  | .object members =>
    match members.lookup "loaders".toList with
    | some (.array elements) => elements.filterMap fun element =>
      match element with
      | .object rule => (rule.lookup "test".toList).bind fun expression => (readText expression).toOption
      | _ => none
    | _ => []
  | _ => []

-- The output path of a configuration where it is no text.
def outputUnits : Json → CodePoints
  | .object members =>
    match members.lookup "output".toList with
    | some (.units codes) => codes
    | _ => []
  | _ => []

-- Each opening parenthesis of an expression can nest what follows it. The surrogates from U+DC80 to U+DCFF stand
-- for bytes.
def isShallow (text : Text) : Bool :=
  Json.nesting text ≤ stackDepth &&
    (Json.read text).toOption.all fun value =>
      (expressions value).all (·.count '(' ≤ stackDepth) &&
        (outputUnits value).all fun code => !(56448 ≤ code && code ≤ 56575)

end Config

def Module.isShallow (source : Text) : Bool :=
  (Syntax.parse (Masking.mask source)).toOption.all fun parsed =>
    Node.depths (parsed.items.flatMap Syntax.Item.nodes) ≤ stackDepth

-- What the loader of documents is given, and every module as it is loaded.
structure Workshop.Shallow (workshop : Workshop) : Prop where
  document : ∀ path source before rule later loaded, workshop.read path = .ok source →
    workshop.rules = before ++ rule :: later → workshop.loaders.apply before path source = .ok loaded →
    rule.applies path = true → rule.loader = "json".toList → Json.nesting loaded ≤ stackDepth
  module : ∀ path source loaded, workshop.read path = .ok source →
    workshop.loaders.apply workshop.rules path source = .ok loaded → Module.isShallow loaded = true

namespace CommandLine

-- The directories of the output path are made one within the other.
structure Within (surroundings : Surroundings) (arguments : Arguments) : Prop where
  configuration : ∀ text, surroundings.disk.readText (Config.file arguments.config) = .ok text →
    Config.isShallow text = true
  workshop : ∀ config, configure surroundings arguments surroundings.disk = .ok config →
    (workshop surroundings.loaders config surroundings.disk).Shallow
  output : ∀ config path, configure surroundings arguments surroundings.disk = .ok config →
    config.output = some path → path.count '/' ≤ stackDepth

-- A file tree, the program that runs bundles and the arguments of a run.
structure Situation where
  disk : Disk
  interpreter : Option Interpreter
  details : List Schema.Issue → Text
  words : List Text
  within : ∀ arguments, parse words = .ok (.build arguments) →
    Within ⟨disk, .standard, interpreter, details⟩ arguments

def Situation.surroundings (situation : Situation) : Surroundings :=
  ⟨situation.disk, .standard, situation.interpreter, situation.details⟩

def Situation.run (situation : Situation) : Run := CommandLine.run situation.surroundings situation.words

end CommandLine
end ModuleBundler
