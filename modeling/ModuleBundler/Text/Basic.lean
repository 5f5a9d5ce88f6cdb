/-!
Text as a list of code points. Every offset, length, line and column of this library counts code
points, so lists of characters are the type that all rules are stated on.
-/
namespace ModuleBundler

abbrev Text := List Char

-- Of all characters only those of the text are tried.
instance (priority := 2000) Text.decidableForallMem (p : Char → Prop) [DecidablePred p] (text : Text) :
    Decidable (∀ c ∈ text, p c) :=
  List.decidableBAll p text

instance (priority := 2000) Text.decidableExistsMem (p : Char → Prop) [DecidablePred p] (text : Text) :
    Decidable (∃ c ∈ text, p c) :=
  List.decidableBEx p text

namespace Text

-- Membership of a code point in a table of closed ranges.
def within (ranges : List (Nat × Nat)) (n : Nat) : Bool :=
  ranges.any fun range => range.1 ≤ n && n ≤ range.2

-- Parts divided by one separator character; there is always at least one part.
def splitOn (separator : Char) : Text → List Text
  | [] => [[]]
  | c :: rest =>
    if c == separator then [] :: splitOn separator rest
    else
      match splitOn separator rest with
      | [] => [[c]]
      | part :: parts => (c :: part) :: parts

def joinWith (separator : Text) : List Text → Text
  | [] => []
  | [part] => part
  | part :: parts => part ++ separator ++ joinWith separator parts

-- Lines end at the newline alone.
def lines (text : Text) : List Text := splitOn '\n' text

def newlines (text : Text) : Nat := text.count '\n'

def startsWith (text head : Text) : Bool := head.isPrefixOf text

def endsWith (text tail : Text) : Bool := tail.isSuffixOf text

-- The text after the given head, when it starts with it.
def after? (head text : Text) : Option Text :=
  match head, text with
  | [], rest => some rest
  | _ :: _, [] => none
  | h :: head, c :: rest => if h == c then after? head rest else none

def includes (part : Text) : Text → Bool
  | [] => part.isEmpty
  | c :: rest => startsWith (c :: rest) part || includes part rest

-- `skip` counts the characters of a replaced occurrence that are still to be passed over.
def replaceFrom (part replacement : Text) (skip : Nat) : Text → Text
  | [] => []
  | c :: rest =>
    match skip with
    | skip + 1 => replaceFrom part replacement skip rest
    | 0 =>
      if startsWith (c :: rest) part then
        replacement ++ replaceFrom part replacement (part.length - 1) rest
      else c :: replaceFrom part replacement 0 rest

-- Every occurrence of a nonempty part is replaced, from the left and without overlaps.
def replace (part replacement text : Text) : Text := replaceFrom part replacement 0 text

-- The order of texts by their code points.
def le : Text → Text → Bool
  | [], _ => true
  | _ :: _, [] => false
  | a :: s, b :: t => a.toNat < b.toNat || (a == b && le s t)

-- A list in order and without repetitions.
def sortedSet (texts : List Text) : List Text :=
  (texts.mergeSort le).foldr
    (fun text rest => if rest.head? == some text then rest else text :: rest) []

theorem after?_eq_some_iff {head text rest : Text} :
    after? head text = some rest ↔ text = head ++ rest := by
  induction head generalizing text with
  | nil => simp [after?, eq_comm]
  | cons h head ih =>
    cases text with
    | nil => simp [after?]
    | cons c text =>
      by_cases same : h = c
      · simp [after?, same, ih]
      · simp [after?, same, Ne.symm same]

theorem splitOn_ne_nil (separator : Char) (text : Text) : splitOn separator text ≠ [] := by
  cases text with
  | nil => simp [splitOn]
  | cons c rest =>
    simp only [splitOn]
    split
    · simp
    · split <;> simp

theorem joinWith_splitOn (separator : Char) (text : Text) :
    joinWith [separator] (splitOn separator text) = text := by
  induction text with
  | nil => rfl
  | cons c rest ih =>
    simp only [splitOn]
    split
    · rename_i same
      have separated : c = separator := by simpa using same
      cases parts : splitOn separator rest with
      | nil => exact absurd parts (splitOn_ne_nil separator rest)
      | cons part more => rw [parts] at ih; simp [joinWith, ih, separated]
    · cases parts : splitOn separator rest with
      | nil => exact absurd parts (splitOn_ne_nil separator rest)
      | cons part more =>
        rw [parts] at ih
        cases more with
        | nil => simpa [joinWith] using ih
        | cons next others => simpa [joinWith] using ih

end Text
end ModuleBundler
