import ModuleBundler.Json.Writer

/-!
Which integer a decimal stands for. A decimal is read as the nearest binary number of 53 digits, a
half going to the even neighbour; that number is infinite, has a fractional part, or is whole.
-/
namespace ModuleBundler.Json

def roundHalfEven (numerator denominator : Nat) : Nat :=
  let quotient := numerator / denominator
  let twice := 2 * (numerator % denominator)
  if twice < denominator then quotient
  else if denominator < twice then quotient + 1
  else quotient + quotient % 2

-- The quotient divided by a power of two and rounded.
def scaled (numerator denominator : Nat) (exponent : Int) : Nat :=
  if 0 ≤ exponent then roundHalfEven numerator (denominator * Nat.pow 2 exponent.toNat)
  else roundHalfEven (numerator * Nat.pow 2 (-exponent).toNat) denominator

-- The exponent that leaves 53 digits before the point, or fewer for the smallest numbers.
def binaryExponent (numerator denominator : Nat) : Int :=
  let guess : Int := (numerator.log2 : Int) - denominator.log2 - 52
  let fits (exponent : Int) : Bool :=
    if 0 ≤ exponent then Nat.pow 2 52 * (denominator * Nat.pow 2 exponent.toNat) ≤ numerator
    else Nat.pow 2 52 * denominator ≤ numerator * Nat.pow 2 (-exponent).toNat
  max (-1074) (if fits guess then guess else guess - 1)

inductive Whole where
  | infinite
  | fractional
  | whole (value : Int)
  deriving DecidableEq, Repr

def wholeOfQuotient (numerator denominator : Nat) : Whole :=
  if numerator = 0 then .whole 0
  else
    let exponent := binaryExponent numerator denominator
    let mantissa := scaled numerator denominator exponent
    if 0 ≤ exponent then
      let value := mantissa * Nat.pow 2 exponent.toNat
      if Nat.pow 2 1024 ≤ value then .infinite else .whole value
    else
      let unit := Nat.pow 2 (-exponent).toNat
      if mantissa % unit = 0 then .whole (mantissa / unit) else .fractional

-- Numbers far out of range are settled by their exponent alone.
def wholeOfDecimal (negative : Bool) (digits : Nat) (exponent : Int) : Whole :=
  let magnitude : Int := (natText digits).length + exponent
  let value :=
    if digits = 0 || magnitude < -400 then .whole 0
    else if 400 < magnitude then .infinite
    else if 0 ≤ exponent then wholeOfQuotient (digits * Nat.pow 10 exponent.toNat) 1
    else wholeOfQuotient digits (Nat.pow 10 (-exponent).toNat)
  match value, negative with
  | .whole n, true => .whole (-n)
  | value, _ => value

end ModuleBundler.Json
