/-! Nonnegative binary floating-point numbers with 53 digits, by exact arithmetic. -/
namespace KernelDispatch.Decimal

/-- The number `mantissa * 2 ^ exponent`. -/
structure Binary64 where
  mantissa : Nat
  exponent : Int
  deriving DecidableEq, Repr

/-- The quotient of two numbers, rounded to the nearest integer and to the even one at a tie. -/
def roundDiv (num den : Nat) : Nat :=
  let q := num / den
  let r := num % den
  if 2 * r < den then q else if den < 2 * r then q + 1 else q + q % 2

/-- The fraction `num / den * base ^ e`. -/
def scale (base : Nat) (num den : Nat) (e : Int) : Nat × Nat :=
  if 0 ≤ e then (num * base.pow e.toNat, den) else (num, den * base.pow (-e).toNat)

namespace Binary64

def minExponent : Int := -1074

def maxExponent : Int := 971

def zero : Binary64 := ⟨0, minExponent⟩

/-- The exponent at which the mantissa of a positive fraction has 53 binary digits, unless that
is below the least exponent. -/
def exponentOf (num den : Nat) : Int :=
  let guess : Int := (num.log2 : Int) - den.log2 - 52
  let (n, d) := scale 2 num den (-guess)
  max minExponent (if n < d * .pow 2 52 then guess - 1 else guess)

/-- The number nearest to a fraction, unless that is too large. -/
def nearest? (num den : Nat) : Option Binary64 :=
  if num = 0 then some zero
  else
    let e := exponentOf num den
    let (n, d) := scale 2 num den (-e)
    let m := roundDiv n d
    let (m, e) := if m = .pow 2 53 then (.pow 2 52, e + 1) else (m, e)
    if e > maxExponent then none else some ⟨m, e⟩

def ofNat? (n : Nat) : Option Binary64 := nearest? n 1

def mul? (a b : Binary64) : Option Binary64 :=
  let (n, d) := scale 2 (a.mantissa * b.mantissa) 1 (a.exponent + b.exponent)
  nearest? n d

def div? (a b : Binary64) : Option Binary64 :=
  let (n, d) := scale 2 a.mantissa b.mantissa (a.exponent - b.exponent)
  nearest? n d

example : nearest? 1 10 = some ⟨7205759403792794, -56⟩ := by decide +kernel
example : ofNat? (2 ^ 53 + 1) = some ⟨2 ^ 52, 1⟩ := by decide +kernel
example : nearest? 1 (2 ^ 1074) = some ⟨1, -1074⟩ := by decide +kernel
example : ofNat? (2 ^ 1024) = none := by decide +kernel

end Binary64
end KernelDispatch.Decimal
