import KernelDispatch.Tag

/-! Variants: the specialized implementations that a family dispatches to. -/
namespace KernelDispatch

/-- One entry of the public call signature. -/
structure Arg where
  type : String
  name : String
  deriving DecidableEq, Repr

/-- What all variants of a family have in common. -/
structure Identity where
  group : String
  op : OpKind
  layout : Layout
  dataType : DataType
  args : List Arg
  deriving DecidableEq, Repr

/-- A specialization fixed to some parameter values. A zero leaves its parameter open. -/
structure Variant where
  identity : Identity
  kernelW : UInt32 := 0
  kernelH : UInt32 := 0
  channels : UInt32 := 0
  strideW : UInt32 := 0
  strideH : UInt32 := 0
  padding : Padding := .any
  generic : Bool := false
  core : List String := []
  debug : Bool := false
  deriving DecidableEq, Repr

namespace Variant

/-- The fallback of a family: it fixes nothing. -/
def fallback (identity : Identity) (core : List String) : Variant :=
  { identity, core, generic := true }

def withIdentity (v : Variant) (identity : Identity) : Variant := { v with identity }

/-- The descriptor that names the function dispatching to the variants of a family. -/
def wrapper (v : Variant) (debug : Bool) : Variant := { identity := v.identity, debug }

/-- The value that a variant is fixed to, zero for none. -/
def value (v : Variant) : Field → UInt32
  | .strideW => v.strideW
  | .strideH => v.strideH
  | .kernelW => v.kernelW
  | .kernelH => v.kernelH
  | .channels => v.channels

def isUnconstrained (v : Variant) : Bool :=
  Field.all.all (fun f => v.value f == 0) && v.padding == .any

end Variant
end KernelDispatch
