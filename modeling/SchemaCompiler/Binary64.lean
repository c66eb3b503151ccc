/-!
Binary floating-point numbers of 64 bits, as sign, integer significand and exponent. A finite
number is `significand * 2 ^ exponent` in its one canonical form: the significand has 53 bits, or
the exponent is the least one. A decimal literal is read by rounding its exact value once.
-/

namespace SchemaCompiler

inductive Binary64 where
  | nan
  | infinity (negative : Bool)
  | finite (negative : Bool) (significand : Nat) (exponent : Int)
deriving DecidableEq, Repr, Inhabited

def twoTo (n : Nat) : Nat := Nat.pow 2 n

def tenTo (n : Nat) : Nat := Nat.pow 10 n

namespace Binary64

def minExponent : Int := -1074

def maxExponent : Int := 971

def roundedQuotient (num den : Nat) : Nat :=
  let q := num / den
  let twice := 2 * (num % den)
  if den < twice ∨ (twice = den ∧ q % 2 = 1) then q + 1 else q

def scaledQuotient (num den : Nat) (exponent : Int) : Nat :=
  if exponent < 0 then roundedQuotient (num * twoTo (-exponent).toNat) den
  else roundedQuotient num (den * twoTo exponent.toNat)

def pack (negative : Bool) (significand : Nat) (exponent : Int) : Binary64 :=
  if significand = twoTo 53 then
    if maxExponent < exponent + 1 then .infinity negative
    else .finite negative (twoTo 52) (exponent + 1)
  else if maxExponent < exponent then .infinity negative
  else .finite negative significand exponent

def ofQuotient (negative : Bool) (num den : Nat) : Binary64 :=
  let estimate : Int := (num.log2 : Int) - den.log2 - 53
  let exponent := max estimate minExponent
  let significand := scaledQuotient num den exponent
  if significand ≤ twoTo 53 then pack negative significand exponent
  else pack negative (scaledQuotient num den (exponent + 1)) (exponent + 1)

def digitCount (n : Nat) : Nat := (Nat.toDigits 10 n).length

/-- The number nearest to `digits * 10 ^ exponent`. Literals far outside the range are answered
from their length, without the power. -/
def ofDecimal (negative : Bool) (digits : Nat) (exponent : Int) : Binary64 :=
  if digits = 0 then .finite negative 0 minExponent
  else
    let magnitude := digitCount digits + exponent
    if 400 < magnitude then .infinity negative
    else if magnitude < -400 then .finite negative 0 minExponent
    else if 0 ≤ exponent then ofQuotient negative (digits * tenTo exponent.toNat) 1
    else ofQuotient negative digits (tenTo (-exponent).toNat)

def isZero : Binary64 → Bool
  | .finite _ 0 _ => true
  | _ => false

def toInt? : Binary64 → Option Int
  | .finite negative m e =>
    let signed (n : Nat) : Int := if negative then -(n : Int) else n
    if 0 ≤ e then some (signed (m * twoTo e.toNat))
    else
      let d := twoTo (-e).toNat
      if m % d = 0 then some (signed (m / d)) else none
  | _ => none

def ofRatio (num : Int) (den : Nat) : Binary64 :=
  if num = 0 then .finite false 0 minExponent else ofQuotient (num < 0) num.natAbs den

def next : Binary64 → Binary64
  | .finite negative m e =>
    let signed : Int := if negative then -(m : Int) else m
    if 0 ≤ e then ofRatio (signed * twoTo e.toNat + 1) 1
    else ofRatio (signed + twoTo (-e).toNat) (twoTo (-e).toNat)
  | x => x

/-- Equality of numbers. The two zeros are equal; so is the one NaN to itself. -/
def same (x y : Binary64) : Bool := x == y || (x.isZero && y.isZero)

end Binary64

end SchemaCompiler
