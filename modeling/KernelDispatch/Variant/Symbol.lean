import KernelDispatch.Error
import KernelDispatch.Repeated
import KernelDispatch.Text.Number
import KernelDispatch.Variant.Basic

/-! The symbol of a variant: the name of the function that implements it. -/
namespace KernelDispatch.Variant
open Text (decimal)

/-- Says which sides of the kernel are fixed: `n` stands for an open side. -/
def kernelPart (w h : UInt32) : String :=
  if w = 0 ∧ h = 0 then ""
  else if h = 0 then "_k" ++ decimal w ++ "xn"
  else if w = 0 then "_knx" ++ decimal h
  else "_k" ++ decimal w ++ "x" ++ decimal h

def channelsPart (n : UInt32) : String := if n = 0 then "" else "_ch" ++ decimal n

/-- One number for a stride that is fixed to the same value in both directions. -/
def stridePart (w h : UInt32) : String :=
  if w = 0 then (if h = 0 then "" else "_strh" ++ decimal h)
  else if w = h then "_str" ++ decimal w
  else "_strw" ++ decimal w ++ (if h = 0 then "" else "_strh" ++ decimal h)

def paddingPart (p : Padding) : String := if p = .any then "" else "_" ++ p.word

/-- The symbol of a variant. A parameter left open adds nothing. -/
def symbol (v : Variant) : String :=
  "mli" ++ (if v.debug then "_debug" else "") ++ "_" ++ v.identity.group
    ++ "_" ++ v.identity.op.word ++ "_" ++ v.identity.layout.word ++ "_" ++ v.identity.dataType.word
    ++ kernelPart v.kernelW v.kernelH ++ channelsPart v.channels ++ stridePart v.strideW v.strideH
    ++ paddingPart v.padding ++ (if v.generic then "_generic" else "")

/-- The symbol of a variant depends on nothing but what it fixes and on its identity and kind. -/
theorem symbol_congr {u v : Variant} (hidentity : u.identity = v.identity)
    (hvalue : ∀ f, u.value f = v.value f) (hpadding : u.padding = v.padding)
    (hgeneric : u.generic = v.generic) (hdebug : u.debug = v.debug) : u.symbol = v.symbol := by
  have hkw : u.kernelW = v.kernelW := hvalue .kernelW
  have hkh : u.kernelH = v.kernelH := hvalue .kernelH
  have hsw : u.strideW = v.strideW := hvalue .strideW
  have hsh : u.strideH = v.strideH := hvalue .strideH
  have hch : u.channels = v.channels := hvalue .channels
  unfold symbol
  rw [hidentity, hkw, hkh, hsw, hsh, hch, hpadding, hgeneric, hdebug]

/-- Symbols must not be declared twice. -/
def requireDistinct (vs : List Variant) : Except ConfigError Unit :=
  match firstRepeated [] (vs.map symbol) with
  | some s => .error (.nameCollision s)
  | none => .ok ()

theorem requireDistinct_eq_ok_iff {vs : List Variant} :
    requireDistinct vs = .ok () ↔ (vs.map symbol).Nodup := by
  have hnone : firstRepeated [] (vs.map symbol) = none ↔ (vs.map symbol).Nodup := by
    simp [firstRepeated_eq_none_iff]
  rw [← hnone]
  unfold requireDistinct
  cases firstRepeated [] (vs.map symbol) with
  | none => exact iff_of_true rfl rfl
  | some s => exact iff_of_false nofun nofun

/-- A collision names the symbol at the first place that repeats an earlier one. -/
theorem requireDistinct_eq_error_iff {vs : List Variant} {e : ConfigError} :
    requireDistinct vs = .error e ↔ ∃ before s after, vs.map symbol = before ++ s :: after ∧
      before.Nodup ∧ s ∈ before ∧ e = .nameCollision s := by
  have hsome : ∀ s, firstRepeated [] (vs.map symbol) = some s ↔ ∃ before after,
      vs.map symbol = before ++ s :: after ∧ before.Nodup ∧ s ∈ before := by
    simp [firstRepeated_eq_some_iff, firstRepeated_eq_none_iff]
  have hresult : requireDistinct vs = .error e ↔
      ∃ s, firstRepeated [] (vs.map symbol) = some s ∧ e = .nameCollision s := by
    unfold requireDistinct
    cases firstRepeated [] (vs.map symbol) with
    | none => exact iff_of_false nofun nofun
    | some s => simp [eq_comm]
  rw [hresult]
  constructor
  · rintro ⟨s, hs, he⟩
    obtain ⟨before, after, hsplit, hnodup, hmem⟩ := (hsome s).mp hs
    exact ⟨before, s, after, hsplit, hnodup, hmem, he⟩
  · rintro ⟨before, s, after, hsplit, hnodup, hmem, he⟩
    exact ⟨s, (hsome s).mpr ⟨before, after, hsplit, hnodup, hmem⟩, he⟩

/-- The number of core routines that the body of a variant can refer to. -/
def maxCoreRoutines : Nat := 10

/-- A variant has room for its core routines, and a generic one fixes nothing. -/
def requireValid (v : Variant) : Except ConfigError Unit :=
  if v.core.length > maxCoreRoutines then .error (.tooManyCoreRoutines v.symbol v.core.length)
  else if v.generic && !v.isUnconstrained then .error (.constrainedGeneric v.symbol)
  else .ok ()

theorem requireValid_eq_ok_iff (v : Variant) :
    v.requireValid = .ok () ↔
      v.core.length ≤ maxCoreRoutines ∧ (v.generic = true → v.isUnconstrained = true) := by
  unfold requireValid
  split
  · next h => exact iff_of_false nofun fun hv => Nat.not_le.mpr h hv.1
  · next h =>
    rw [and_iff_right (Nat.not_lt.mp h)]
    split
    · next hg => simp_all
    · next hg => simp_all

end KernelDispatch.Variant
