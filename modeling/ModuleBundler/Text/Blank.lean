import ModuleBundler.Text.Basic

/-!
Blank characters: the whitespace of Unicode together with the four information separators, which
count as blanks wherever this program skips or strips them.
-/
namespace ModuleBundler.Text

def blankRanges : List (Nat × Nat) := [
  (9, 13), (28, 32), (133, 133), (160, 160), (5760, 5760), (8192, 8202), (8232, 8233),
  (8239, 8239), (8287, 8287), (12288, 12288)]

def isBlank (c : Char) : Bool := within blankRanges c.toNat

def stripLeft (text : Text) : Text := text.dropWhile isBlank

def stripRight (text : Text) : Text := (text.reverse.dropWhile isBlank).reverse

def strip (text : Text) : Text := stripRight (stripLeft text)

end ModuleBundler.Text
