import ModuleBundler.Text.Blank
import ModuleBundler.Text.Word

/-!
Integers written in text: digits of any script, single underscores between digits, a sign in front
and blanks around.
-/
namespace ModuleBundler.Text

-- Every run of decimal digits in the table consists of whole rows from zero to nine.
def digitValue? (c : Char) : Option Nat :=
  if c.toNat < 128 then
    if '0' ≤ c && c ≤ '9' then some (c.toNat - 48) else none
  else
    (decimalRanges.find? fun range => range.1 ≤ c.toNat && c.toNat ≤ range.2).map fun range =>
      (c.toNat - range.1) % 10

-- `afterDigit` tells whether an underscore may come next.
def digits? (value : Nat) (afterDigit : Bool) : Text → Option Nat
  | [] => if afterDigit then some value else none
  | '_' :: rest => if afterDigit then digits? value false rest else none
  | c :: rest => (digitValue? c).bind fun digit => digits? (value * 10 + digit) true rest

def integer? (text : Text) : Option Int :=
  match strip text with
  | '-' :: digits => (digits? 0 false digits).map fun n => -(n : Int)
  | '+' :: digits => (digits? 0 false digits).map fun n => (n : Int)
  | digits => (digits? 0 false digits).map fun n => (n : Int)

end ModuleBundler.Text
