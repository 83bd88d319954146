import KernelDispatch.Json.Decode
import KernelDispatch.Manifest.Basic

/-! How the declarations of a manifest are decoded. -/
namespace KernelDispatch

namespace Json

def word? : Json → Option UInt32
  | .integer n => if 0 ≤ n ∧ n < UInt32.size then some (UInt32.ofNat n.toNat) else none
  | _ => none

def string? : Json → Option String
  | .string s => some s
  | _ => none

/-- The value of a key that a list of members has once. -/
def uniqueMember? (members : List (String × Json)) (name : String) : Option Json :=
  match members.filter fun m => m.1 = name with
  | [(_, j)] => some j
  | _ => none

/-- A range as an object. Keys other than its own are ignored, and its own must not be repeated. -/
def range? (members : List (String × Json)) : Option ValueSet := do
  let first ← (← uniqueMember? members "from").word?
  let limit ← (← uniqueMember? members "to").word?
  let step ← if members.any fun m => m.1 = "step" then (← uniqueMember? members "step").word?
    else some 1
  return .range first limit step

end Json

namespace ValueSet

def decode : Decoder ValueSet :=
  Decoder.untagged "Values" fun j =>
    match j with
    | .array items _ => (items.mapM Json.word?).map .list
    | .object members _ => Json.range? members
    | j => j.word?.map .one

end ValueSet

namespace CoreRoutines

def decode : Decoder CoreRoutines :=
  Decoder.untagged "CoreRoutines" fun j =>
    match j with
    | .array items _ => (items.mapM Json.string?).map .many
    | j => j.string?.map .one

end CoreRoutines

def Arg.decode : Decoder Arg := fun j => do
  let (type, name) ← Decoder.stringPair j
  return ⟨type, name⟩

namespace VariantDecl

def shape : Shape VariantDecl where
  name := "VariantSpec"
  blank := { core := .many [] }
  slots :=
    [⟨"core", true, fun j d => return { d with core := ← CoreRoutines.decode j }⟩,
      ⟨"kernel", false, fun j d => return { d with kernel := ← Decoder.option ValueSet.decode j }⟩,
      ⟨"kernel_w", false, fun j d => return { d with kernelW := ← Decoder.option ValueSet.decode j }⟩,
      ⟨"kernel_h", false, fun j d => return { d with kernelH := ← Decoder.option ValueSet.decode j }⟩,
      ⟨"channels", false, fun j d => return { d with channels := ← Decoder.option ValueSet.decode j }⟩,
      ⟨"stride", false, fun j d => return { d with stride := ← Decoder.option ValueSet.decode j }⟩,
      ⟨"stride_w", false, fun j d => return { d with strideW := ← Decoder.option ValueSet.decode j }⟩,
      ⟨"stride_h", false, fun j d => return { d with strideH := ← Decoder.option ValueSet.decode j }⟩,
      ⟨"padding", false, fun j d => return { d with padding := ← Decoder.tag j }⟩]

def decode : Decoder VariantDecl := shape.decode

end VariantDecl

namespace GenericDecl

def shape : Shape GenericDecl where
  name := "GenericSpec"
  blank := { core := .many [] }
  slots := [⟨"core", true, fun j _ => return { core := ← CoreRoutines.decode j }⟩]

def decode : Decoder GenericDecl := shape.decode

end GenericDecl

namespace DispatchDecl

def shape : Shape DispatchDecl where
  name := "DispatchSpec"
  blank := { hierarchy := [] }
  slots :=
    [⟨"style", false, fun j d => return { d with style := ← Decoder.tag j }⟩,
      ⟨"hierarchy", true, fun j d => return { d with hierarchy := ← Decoder.list Decoder.tag j }⟩,
      ⟨"bindings", false, fun j d => return { d with bindings := ← Decoder.bindings j }⟩]

def decode : Decoder DispatchDecl := shape.decode

end DispatchDecl

namespace HeaderDecl

def shape : Shape HeaderDecl where
  name := "HeaderSpec"
  blank := ⟨"", "", ""⟩
  slots :=
    [⟨"template", true, fun j d => return { d with template := ← Decoder.string j }⟩,
      ⟨"guard", true, fun j d => return { d with guardName := ← Decoder.string j }⟩,
      ⟨"output", true, fun j d => return { d with output := ← Decoder.string j }⟩]

def decode : Decoder HeaderDecl := shape.decode

end HeaderDecl

namespace TargetDecl

def shape : Shape TargetDecl where
  name := "TargetSpec"
  blank := { tag := "", output := "" }
  slots :=
    [⟨"tag", true, fun j d => return { d with tag := ← Decoder.string j }⟩,
      ⟨"output", true, fun j d => return { d with output := ← Decoder.string j }⟩,
      ⟨"layout", false, fun j d => return { d with layout := ← Decoder.option Decoder.tag j }⟩,
      ⟨"data_type", false, fun j d => return { d with dataType := ← Decoder.option Decoder.tag j }⟩,
      ⟨"body_template", false, fun j d =>
        return { d with bodyTemplate := ← Decoder.option Decoder.string j }⟩,
      ⟨"includes", false, fun j d =>
        return { d with includes := ← Decoder.option (Decoder.list Decoder.string) j }⟩,
      ⟨"defines", false, fun j d =>
        return { d with defines := ← Decoder.option (Decoder.list Decoder.string) j }⟩,
      ⟨"variants", false, fun j d =>
        return { d with variants := ← Decoder.list VariantDecl.decode j }⟩,
      ⟨"generic", false, fun j d => return { d with generic := ← Decoder.option GenericDecl.decode j }⟩,
      ⟨"derive_from", false, fun j d =>
        return { d with deriveFrom := ← Decoder.option Decoder.string j }⟩,
      ⟨"dispatch", false, fun j d =>
        return { d with dispatch := ← Decoder.option DispatchDecl.decode j }⟩]

def decode : Decoder TargetDecl := shape.decode

end TargetDecl

namespace ManifestDecl

def shape : Shape ManifestDecl where
  name := "ManifestFile"
  blank :=
    { group := "", op := .conv2d, functionGroup := "", args := [], fileTemplate := "",
      dispatch := { hierarchy := [] }, targets := [] }
  slots :=
    [⟨"group", true, fun j d => return { d with group := ← Decoder.string j }⟩,
      ⟨"op", true, fun j d => return { d with op := ← Decoder.tag j }⟩,
      ⟨"function_group", true, fun j d => return { d with functionGroup := ← Decoder.string j }⟩,
      ⟨"args", true, fun j d => return { d with args := ← Decoder.list Arg.decode j }⟩,
      ⟨"file_template", true, fun j d => return { d with fileTemplate := ← Decoder.string j }⟩,
      ⟨"header", false, fun j d => return { d with header := ← Decoder.option HeaderDecl.decode j }⟩,
      ⟨"dispatch", true, fun j d => return { d with dispatch := ← DispatchDecl.decode j }⟩,
      ⟨"targets", true, fun j d => return { d with targets := ← Decoder.list TargetDecl.decode j }⟩]

def decode : Decoder ManifestDecl := shape.decode

end ManifestDecl
end KernelDispatch
