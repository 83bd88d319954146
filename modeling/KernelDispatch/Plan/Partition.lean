import KernelDispatch.Condition.Guard
import KernelDispatch.Variant.Match

/-! Variants grouped by what they present to one level of a hierarchy. -/
namespace KernelDispatch

/-- What a variant presents to one level: the value it is fixed to, or its padding test. -/
inductive BranchKey where
  | value (n : UInt32)
  | padding (t : PaddingTest)
  deriving DecidableEq, Repr

/-- The rank of a padding test: no padding at all, then exact limits, then upper bounds. -/
structure PaddingRank where
  padded : Bool
  loose : Bool
  limits : List UInt32
  deriving DecidableEq, Repr

namespace Margins

def limits (m : Margins) : List UInt32 := Side.all.map m.get

end Margins

namespace PaddingTest

def rank : PaddingTest → PaddingRank
  | .any => ⟨false, false, []⟩
  | .exact m => ⟨m ≠ .zero, false, m.limits⟩
  | .atMost m => ⟨true, true, m.limits⟩

end PaddingTest

/-- Ranks come in the order of their flags, those with the same flags by descending limits. -/
def PaddingRank.before (a b : PaddingRank) : Bool :=
  if a.padded ≠ b.padded then b.padded
  else if a.loose ≠ b.loose then b.loose
  else decide (b.limits < a.limits)

namespace BranchKey

def of (p : Param) (v : Variant) : BranchKey :=
  match p with
  | .field f => .value (v.value f)
  | .padding => .padding v.paddingTest

/-- A wildcard matches every call. -/
def isWildcard : BranchKey → Bool
  | .value n => n == 0
  | .padding t => t == .any

/-- More specific keys come first: larger values before smaller ones, padding tests by their rank,
and a wildcard after all others. -/
def before (a b : BranchKey) : Bool :=
  if a.isWildcard then false
  else if b.isWildcard then true
  else match a, b with
    | .value m, .value n => n < m
    | .padding s, .padding t => s.rank.before t.rank
    | .value _, .padding _ => true
    | .padding _, .value _ => false

/-- The condition of the arm for a key at the level of a parameter. -/
def condition (p : Param) : BranchKey → Condition
  | .value n =>
    match p with
    | .field f => .eq (.field f) n
    | .padding => .always
  | .padding t => t.condition

/-- How a key is written in the path to a part of a tree. -/
def label (p : Param) (k : BranchKey) : String :=
  if k.isWildcard then p.word ++ "=*"
  else match k with
    | .value n => p.word ++ "=" ++ Text.decimal n
    | .padding t => p.word ++ ":" ++ t.condition.text

end BranchKey

structure Group where
  key : BranchKey
  members : List Variant
  deriving Repr

/-- The variants with their keys at one level, most specific key first. Members keep their order. -/
def partition (p : Param) (vs : List Variant) : List Group :=
  let keys := (vs.map (BranchKey.of p)).eraseDups.mergeSort fun a b => !b.before a
  keys.map fun k => ⟨k, vs.filter fun v => BranchKey.of p v = k⟩

end KernelDispatch
