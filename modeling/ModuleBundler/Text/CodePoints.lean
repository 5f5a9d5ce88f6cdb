import ModuleBundler.Text.Basic

/-!
Strings as code points. An escape can put a surrogate into a string, which is no character, and the two
halves of a pair stay two code points there.
-/
namespace ModuleBundler

abbrev CodePoints := List Nat

namespace CodePoints

def ofText (text : Text) : CodePoints := text.map Char.toNat

def isHighSurrogate (n : Nat) : Bool := 55296 ≤ n && n ≤ 56319
def isLowSurrogate (n : Nat) : Bool := 56320 ≤ n && n ≤ 57343

-- The character that two surrogates are the halves of.
def pair (high low : Nat) : Nat := 65536 + (high - 55296) * 1024 + (low - 56320)

-- Each high surrogate with a low one behind it becomes one code point.
def joined : CodePoints → CodePoints
  | [] => []
  | high :: low :: rest =>
    if isHighSurrogate high && isLowSurrogate low then pair high low :: joined rest
    else high :: joined (low :: rest)
  | [code] => [code]

-- A surrogate without its other half is no character.
def scalar (code : Nat) : Char := if code.isValidChar then Char.ofNat code else '\ufffd'

-- How a string is shown.
def shown (codes : CodePoints) : Text := (joined codes).map scalar

-- How a string names a file. A surrogate, like NUL, is in the name of no file.
def named (codes : CodePoints) : Text :=
  codes.map fun code => if code.isValidChar then Char.ofNat code else '\x00'

@[simp] theorem named_ofText (text : Text) : named (ofText text) = text := by
  have each : ∀ c : Char, (if c.toNat.isValidChar then Char.ofNat c.toNat else '\x00') = c := fun c => by
    rw [if_pos (show c.toNat.isValidChar from c.valid), Char.ofNat_toNat]
  rw [named, ofText, List.map_map]
  exact List.map_id'' each text

-- A text is the string of its characters, and strings are shown as texts.
instance : Coe Text CodePoints := ⟨ofText⟩
instance : Coe (List CodePoints) (List Text) := ⟨List.map shown⟩

end CodePoints
end ModuleBundler
