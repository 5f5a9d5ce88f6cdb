import ModuleBundler.Dictionary
import ModuleBundler.Text.CodePoints

/-!
JSON values. Members of an object keep the order of their first appearance. Numbers are exact: an
integer, or a decimal fraction as digits and a power of ten.
-/
namespace ModuleBundler

inductive Json where
  | null
  | bool (value : Bool)
  | int (value : Int)
  -- The number `digits * 10 ^ exponent`, negated where asked.
  | decimal (negative : Bool) (digits : Nat) (exponent : Int)
  | nan
  | infinity (negative : Bool)
  | string (text : Text)
  -- A string that is no text, for it has surrogates of its own.
  | units (codes : CodePoints)
  | array (elements : List Json)
  | object (members : List (Text × Json))
  deriving Repr

namespace Json

def text (s : String) : Json := string s.toList

def ofNat (n : Nat) : Json := int n

def ofCodePoints (codes : CodePoints) : Json :=
  if codes.all fun code => code.isValidChar then string (codes.map Char.ofNat) else units codes

def optional (encode : α → Json) : Option α → Json
  | some value => encode value
  | none => null

def member? (key : String) : Json → Option Json
  | object members => members.lookup key.toList
  | _ => none

end Json
end ModuleBundler
