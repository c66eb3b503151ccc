import SchemaCompiler.Decimal.Shortest

namespace SchemaCompiler.Decimal

structure Style where
  leastPositional : Int
  firstScientific : Int
  exponentDigits : Nat
  nan : String
  infinity : String

/-- Numbers within values: `1.0`, `1e+16`, `1e-05`, `nan`, `inf`. -/
def Style.plain : Style := ⟨-4, 16, 2, "nan", "inf"⟩

def Style.document : Style := { Style.plain with nan := "NaN", infinity := "Infinity" }

def positional (digits : List Char) (point : Int) : List Char :=
  if point ≤ 0 then '0' :: '.' :: (List.replicate (-point).toNat '0' ++ digits)
  else
    let n := point.toNat
    if digits.length ≤ n then digits ++ List.replicate (n - digits.length) '0' ++ ['.', '0']
    else digits.take n ++ '.' :: digits.drop n

def scientific (style : Style) (digits : List Char) (exponent : Int) : List Char :=
  let size := Nat.toDigits 10 exponent.natAbs
  let padded := List.replicate (style.exponentDigits - size.length) '0' ++ size
  let mantissa := match digits with
    | d :: e :: rest => d :: '.' :: e :: rest
    | short => short
  mantissa ++ 'e' :: (if exponent < 0 then '-' else '+') :: padded

def magnitudeText (style : Style) (m : Nat) (e : Int) : List Char :=
  let s := shortest m e
  let (digits, zeros) := trimZeros s.digits
  let point : Int := digits.length + zeros + s.exponent
  if style.leastPositional ≤ point - 1 ∧ point - 1 < style.firstScientific then
    positional digits point
  else scientific style digits (point - 1)

def text (style : Style) : Binary64 → String
  | .nan => style.nan
  | .infinity negative => if negative then "-" ++ style.infinity else style.infinity
  | .finite negative m e =>
    let size := if m = 0 then ['0', '.', '0'] else magnitudeText style m e
    String.ofList (if negative then '-' :: size else size)

end SchemaCompiler.Decimal
