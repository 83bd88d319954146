import KernelDispatch.Text.Bindings
import KernelDispatch.Variant.Basic

/-! What a manifest declares about the kernels of one operation. -/
namespace KernelDispatch

/-- The values of one parameter: one value, a list, or every `step`-th value from `first` up to but
not including `limit`. -/
inductive ValueSet where
  | one (n : UInt32)
  | list (ns : List UInt32)
  | range (first limit step : UInt32)
  deriving DecidableEq, Repr

/-- The core routines of a variant: a single name or a list of names. -/
inductive CoreRoutines where
  | one (name : String)
  | many (names : List String)
  deriving DecidableEq, Repr

def CoreRoutines.names : CoreRoutines → List String
  | .one name => [name]
  | .many names => names

/-- A declaration of the variants for all combinations of some values. A parameter that is not
declared stays open. -/
structure VariantDecl where
  core : CoreRoutines
  kernel : Option ValueSet := none
  kernelW : Option ValueSet := none
  kernelH : Option ValueSet := none
  channels : Option ValueSet := none
  stride : Option ValueSet := none
  strideW : Option ValueSet := none
  strideH : Option ValueSet := none
  padding : Padding := .any
  deriving DecidableEq, Repr

structure GenericDecl where
  core : CoreRoutines
  deriving DecidableEq, Repr

/-- The declaration of how a family is dispatched. The bindings are put over those that the
operation offers. -/
structure DispatchDecl where
  style : Style := .tree
  hierarchy : List Param
  bindings : Bindings := {}
  deriving DecidableEq, Repr

structure HeaderDecl where
  template : String
  guardName : String
  output : String
  deriving DecidableEq, Repr

structure TargetDecl where
  tag : String
  output : String
  layout : Option Layout := none
  dataType : Option DataType := none
  bodyTemplate : Option String := none
  includes : Option (List String) := none
  defines : Option (List String) := none
  variants : List VariantDecl := []
  generic : Option GenericDecl := none
  deriveFrom : Option String := none
  dispatch : Option DispatchDecl := none
  deriving DecidableEq, Repr

structure ManifestDecl where
  group : String
  op : OpKind
  functionGroup : String
  args : List Arg
  fileTemplate : String
  header : Option HeaderDecl := none
  dispatch : DispatchDecl
  targets : List TargetDecl
  deriving DecidableEq, Repr

end KernelDispatch
