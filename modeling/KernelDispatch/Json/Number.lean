import KernelDispatch.Json.Basic

/-! Numbers: integers of one machine word, and decimals for everything else. -/
namespace KernelDispatch.Json
open Decimal (Binary64)

/-- A number as it is written. The exponent is a sign and digits. -/
structure Literal where
  negative : Bool
  whole : List Char
  fraction : Option (List Char)
  exponent : Option (Bool × List Char)
  deriving DecidableEq, Repr

namespace Literal

/-- The digits at the start of a text, of which there must be one. -/
def digits? (cs : List Char) : Option (List Char × List Char) :=
  match cs.takeWhile Char.isDigit with
  | [] => none
  | ds => some (ds, cs.dropWhile Char.isDigit)

/-- The digits before the point. A zero stands alone. -/
def whole? (cs : List Char) : Option (List Char × List Char) := do
  let (ds, rest) ← digits? cs
  if ds.head? = some '0' ∧ ds ≠ ['0'] then none else some (ds, rest)

def fraction? : List Char → Option (Option (List Char) × List Char)
  | '.' :: rest => (digits? rest).map fun (ds, rest) => (some ds, rest)
  | rest => some (none, rest)

def signedDigits? : List Char → Option ((Bool × List Char) × List Char)
  | '-' :: rest => (digits? rest).map fun (ds, rest) => ((true, ds), rest)
  | '+' :: rest => (digits? rest).map fun (ds, rest) => ((false, ds), rest)
  | rest => (digits? rest).map fun (ds, rest) => ((false, ds), rest)

def exponent? : List Char → Option (Option (Bool × List Char) × List Char)
  | 'e' :: rest | 'E' :: rest => (signedDigits? rest).map fun (x, rest) => (some x, rest)
  | rest => some (none, rest)

/-- The number at the start of a text and what follows it. -/
def read? (cs : List Char) : Option (Literal × List Char) := do
  let (negative, cs) := match cs with
    | '-' :: rest => (true, rest)
    | cs => (false, cs)
  let (whole, cs) ← whole? cs
  let (fraction, cs) ← fraction? cs
  let (exponent, cs) ← exponent? cs
  return (⟨negative, whole, fraction, exponent⟩, cs)

def maxWord : Nat := UInt64.size - 1

/-- Appends digits to a number as long as it fits into a machine word. The digits that are left
come second. -/
def gather (n : Nat) : List Char → Nat × List Char
  | [] => (n, [])
  | d :: ds =>
    let next := n * 10 + (d.toNat - '0'.toNat)
    if next > maxWord then (n, d :: ds) else gather next ds

def natural (ds : List Char) : Nat := ds.foldl (fun n d => n * 10 + (d.toNat - '0'.toNat)) 0

def maxPower : Int := 308

/-- A number divided by a power of ten, in steps of the largest power that has a binary number. -/
def shrink (x : Binary64) (e : Nat) : Option Binary64 :=
  if x.mantissa = 0 then some x
  else if e ≤ 308 then do x.div? (← Binary64.ofNat? (.pow 10 e))
  else do shrink (← x.div? (← Binary64.ofNat? (.pow 10 308))) (e - 308)
termination_by e
decreasing_by omega

/-- The number `significand * 10 ^ e`, unless it is too large. -/
def scaled? (significand : Nat) (e : Int) : Option Binary64 := do
  let x ← Binary64.ofNat? significand
  if x.mantissa = 0 then some x
  else if e < 0 then shrink x (-e).toNat
  else if e ≤ maxPower then x.mul? (← Binary64.ofNat? (.pow 10 e.toNat))
  else none

/-- The largest exponent whose digits are used. -/
def maxWrittenExponent : Nat := .pow 2 31 - 1

/-- The magnitude of a decimal. Digits that do not fit into a machine word only count for the
exponent. -/
def magnitude? (l : Literal) : Option Binary64 :=
  let (n, dropped) := gather 0 l.whole
  let (n, e) := match l.fraction with
    | none => (n, (dropped.length : Int))
    | some ds =>
      let (m, left) := gather n ds
      (m, (dropped.length : Int) - (ds.length - left.length : Nat))
  match l.exponent with
  | none => scaled? n e
  | some (negative, ds) =>
    let written := natural ds
    if written > maxWrittenExponent then
      if n ≠ 0 ∧ !negative then none else some .zero
    else scaled? n (if negative then e - written else e + written)

/-- The value of a number. Without fraction and exponent it is an integer if it fits into a machine
word, with the one exception of a negative zero. -/
def value? (l : Literal) : Option Json :=
  let n := natural l.whole
  if l.fraction = none ∧ l.exponent = none ∧ n ≤ maxWord ∧
      (l.negative = true → n ≠ 0 ∧ n ≤ Nat.pow 2 63) then
    some (.integer (if l.negative then -(n : Int) else n))
  else (magnitude? l).map (.decimal l.negative)

end Literal
end KernelDispatch.Json
