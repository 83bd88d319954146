import KernelDispatch.Decimal.Binary64

/-! The shortest decimal text from which a binary number is read back. -/
namespace KernelDispatch.Decimal

/-- The number `digits * 10 ^ exponent`. -/
structure Numeral where
  digits : Nat
  exponent : Int
  deriving DecidableEq, Repr

namespace Binary64

/-- Four times the mantissa and the ends of the interval that is rounded to a number, in units of a
quarter of its last place. Below a power of two the interval is narrower. -/
def interval (x : Binary64) : Nat × Nat × Nat :=
  let m := 4 * x.mantissa
  (m, if x.mantissa = .pow 2 52 && minExponent < x.exponent then m - 1 else m - 2, m + 2)

/-- The number of decimal digits before the point, negative for zeros after it. -/
def magnitude (x : Binary64) : Int :=
  let guess := ((x.exponent + x.mantissa.log2) * 30103) / 100000
  let (n, d) := scale 2 x.mantissa 1 x.exponent
  let below := fun k => let (p, q) := scale 10 1 1 k; n * q < p * d
  if below guess then guess else if below (guess + 1) then guess + 1 else guess + 2

/-- The point of the grid `10 ^ e` nearest to a number, if it lies in the interval of the number.
At a tie the even point is taken. -/
def onGrid? (x : Binary64) (e : Int) : Option Numeral :=
  let (m, low, high) := x.interval
  let (un, ud) := scale 2 1 4 x.exponent
  let (gn, gd) := scale 10 1 1 e
  let inside := fun k =>
    let point := k * gn * ud
    let unit := gd * un
    if x.mantissa % 2 = 0 then low * unit ≤ point ∧ point ≤ high * unit
    else low * unit < point ∧ point < high * unit
  let nearest := roundDiv (m * un * gd) (ud * gn)
  let floor := m * un * gd / (ud * gn)
  if inside nearest then some ⟨nearest, e⟩
  else if inside floor then some ⟨floor, e⟩
  else if inside (floor + 1) then some ⟨floor + 1, e⟩
  else none

/-- Tries the grids from the coarsest to the finest. -/
def shortestFrom (x : Binary64) (e : Int) : Nat → Numeral
  | 0 => ⟨0, 0⟩
  | tries + 1 => (x.onGrid? e).getD (shortestFrom x (e - 1) tries)

/-- The decimal number with the fewest digits that is rounded to a number; of those the nearest. -/
def shortest (x : Binary64) : Numeral := x.shortestFrom (x.magnitude - 1) 17

end Binary64

/-- Moves zeros at the end of the digits into the exponent. -/
def Numeral.strip (x : Numeral) : Numeral :=
  go x.digits x.exponent 20
where
  go (digits : Nat) (e : Int) : Nat → Numeral
    | 0 => ⟨digits, e⟩
    | fuel + 1 => if digits ≠ 0 ∧ digits % 10 = 0 then go (digits / 10) (e + 1) fuel else ⟨digits, e⟩

def zeros (n : Nat) : String := String.ofList (List.replicate n '0')

/-- Positional notation is used for numbers below `10 ^ 16` and not below `10 ^ (-5)`. There is
always a digit after the point, except in scientific notation, whose exponent has a sign. -/
def Numeral.text (x : Numeral) : String :=
  let digits := x.digits.repr
  let point := digits.length + x.exponent
  if x.digits = 0 then "0.0"
  else if 0 ≤ x.exponent ∧ point ≤ 16 then digits ++ zeros x.exponent.toNat ++ ".0"
  else if 0 < point ∧ point ≤ 16 then
    String.ofList (digits.toList.take point.toNat) ++ "."
      ++ String.ofList (digits.toList.drop point.toNat)
  else if -5 < point ∧ point ≤ 0 then "0." ++ zeros (-point).toNat ++ digits
  else
    let fraction := digits.toList.drop 1
    String.ofList (digits.toList.take 1)
      ++ (if fraction = [] then "" else "." ++ String.ofList fraction)
      ++ (if point > 0 then "e+" else "e") ++ toString (point - 1)

def Binary64.text (x : Binary64) : String :=
  if x.mantissa = 0 then "0.0" else x.shortest.strip.text

example : ((Binary64.nearest? 1 10).map Binary64.text) = some "0.1" := by decide +kernel
example : ((Binary64.nearest? (10 ^ 23) 1).map Binary64.text) = some "1e+23" := by decide +kernel
example : ((Binary64.nearest? 1 (2 ^ 1074)).map Binary64.text) = some "5e-324" := by decide +kernel
example : ((Binary64.nearest? 1 100000).map Binary64.text) = some "0.00001" := by decide +kernel
example : ((Binary64.nearest? (10 ^ 16) 1).map Binary64.text) = some "1e+16" := by decide +kernel

end KernelDispatch.Decimal
