import SchemaCompiler.Binary64

/-!
The shortest decimal digits that read back as a given binary number. For 1, 2, … 17 digits the two
decimal neighbours of the number on that grid are compared with the interval of reals that round
to it, in exact arithmetic; the first grid with a hit wins, and of two hits the nearer one.
-/

namespace SchemaCompiler.Decimal

structure Scaled where
  digits : Nat
  exponent : Int
deriving DecidableEq, Repr

def binaryQuotient (m : Nat) (e : Int) : Nat × Nat :=
  if 0 ≤ e then (m * twoTo e.toNat, 1) else (m, twoTo (-e).toNat)

def decimalQuotient (d : Nat) (p : Int) : Nat × Nat :=
  if 0 ≤ p then (d * tenTo p.toNat, 1) else (d, tenTo (-p).toNat)

def below (a b : Nat × Nat) : Bool := a.1 * b.2 < b.1 * a.2

structure Interval where
  lower : Nat × Nat
  upper : Nat × Nat
  closed : Bool

def Interval.contains (i : Interval) (x : Nat × Nat) : Bool :=
  if i.closed then !below x i.lower && !below i.upper x else below i.lower x && below x i.upper

/-- The reals that round to `m * 2 ^ e`. The gap below a power of two is half the gap above. -/
def rounding (m : Nat) (e : Int) : Interval where
  lower :=
    if m = twoTo 52 ∧ e ≠ Binary64.minExponent then binaryQuotient (4 * m - 1) (e - 2)
    else binaryQuotient (4 * m - 2) (e - 2)
  upper := binaryQuotient (4 * m + 2) (e - 2)
  closed := m % 2 = 0

def distance (a b : Nat × Nat) : Nat :=
  let x := a.1 * b.2
  let y := b.1 * a.2
  if x < y then y - x else x - y

def gridFloor (v : Nat × Nat) (p : Int) : Nat :=
  if 0 ≤ p then v.1 / (v.2 * tenTo p.toNat) else v.1 * tenTo (-p).toNat / v.2

def onGrid (i : Interval) (v : Nat × Nat) (p : Int) : Option Nat :=
  let d := gridFloor v p
  let low := decimalQuotient d p
  let high := decimalQuotient (d + 1) p
  match i.contains low, i.contains high with
  | false, false => none
  | true, false => some d
  | false, true => some (d + 1)
  | true, true =>
    let down := distance low v
    let up := distance high v
    if down < up then some d
    else if up < down then some (d + 1)
    else if d % 2 = 0 then some d else some (d + 1)

def search (i : Interval) (v : Nat × Nat) (top : Int) : (fuel n : Nat) → Option Scaled
  | 0, _ => none
  | fuel + 1, n =>
    match onGrid i v (top - n) with
    | some d => some ⟨d, top - n⟩
    | none => search i v top fuel (n + 1)

def magnitude (v : Nat × Nat) : Int :=
  let whole := v.1 / v.2
  if whole ≠ 0 then (Nat.toDigits 10 whole).length
  else
    let shift := (Nat.toDigits 10 (v.2 / v.1)).length
    if v.2 ≤ v.1 * tenTo (shift - 1) then 2 - (shift : Int) else 1 - shift

def trimZeros (n : Nat) : List Char × Nat :=
  let ds := (Nat.toDigits 10 n).reverse
  ((ds.dropWhile (· == '0')).reverse, (ds.takeWhile (· == '0')).length)

def shortest (m : Nat) (e : Int) : Scaled :=
  let v := binaryQuotient m e
  (search (rounding m e) v (magnitude v) 17 1).getD ⟨v.1 / v.2, 0⟩

end SchemaCompiler.Decimal
