import KernelDispatch.Json.Basic
import KernelDispatch.Manifest.Basic
import KernelDispatch.Tag.Reading

/-! The declarations of a manifest as Json, with every field present. -/
namespace KernelDispatch

namespace Json

def ofWord (n : UInt32) : Json := .integer n.toNat

def ofList {α : Type} (item : α → Json) (as : List α) : Json := .array (as.map item) true

def ofOption {α : Type} (value : α → Json) : Option α → Json
  | none => .null
  | some a => value a

def ofTag {α : Type} [Tag α] (a : α) : Json := .string (Tag.word a)

def record (members : List (String × Json)) : Json := .object members true

def ofBindings (b : Bindings) : Json := record (b.pairs.map fun p => (p.1, .string p.2))

end Json

open Json

def ValueSet.encode : ValueSet → Json
  | .one n => ofWord n
  | .list ns => ofList ofWord ns
  | .range first limit step =>
    record [("from", ofWord first), ("to", ofWord limit), ("step", ofWord step)]

def CoreRoutines.encode : CoreRoutines → Json
  | .one name => .string name
  | .many names => ofList .string names

def Arg.encode (a : Arg) : Json := ofList .string [a.type, a.name]

def VariantDecl.encode (d : VariantDecl) : Json :=
  record [("core", d.core.encode), ("kernel", ofOption ValueSet.encode d.kernel),
    ("kernel_w", ofOption ValueSet.encode d.kernelW),
    ("kernel_h", ofOption ValueSet.encode d.kernelH),
    ("channels", ofOption ValueSet.encode d.channels),
    ("stride", ofOption ValueSet.encode d.stride),
    ("stride_w", ofOption ValueSet.encode d.strideW),
    ("stride_h", ofOption ValueSet.encode d.strideH), ("padding", ofTag d.padding)]

def GenericDecl.encode (d : GenericDecl) : Json := record [("core", d.core.encode)]

def DispatchDecl.encode (d : DispatchDecl) : Json :=
  record [("style", ofTag d.style), ("hierarchy", ofList ofTag d.hierarchy),
    ("bindings", ofBindings d.bindings)]

def HeaderDecl.encode (d : HeaderDecl) : Json :=
  record [("template", .string d.template), ("guard", .string d.guardName),
    ("output", .string d.output)]

def TargetDecl.encode (d : TargetDecl) : Json :=
  record [("tag", .string d.tag), ("output", .string d.output), ("layout", ofOption ofTag d.layout),
    ("data_type", ofOption ofTag d.dataType), ("body_template", ofOption .string d.bodyTemplate),
    ("includes", ofOption (ofList .string) d.includes),
    ("defines", ofOption (ofList .string) d.defines),
    ("variants", ofList VariantDecl.encode d.variants),
    ("generic", ofOption GenericDecl.encode d.generic),
    ("derive_from", ofOption .string d.deriveFrom),
    ("dispatch", ofOption DispatchDecl.encode d.dispatch)]

def ManifestDecl.encode (d : ManifestDecl) : Json :=
  record [("group", .string d.group), ("op", ofTag d.op),
    ("function_group", .string d.functionGroup), ("args", ofList Arg.encode d.args),
    ("file_template", .string d.fileTemplate), ("header", ofOption HeaderDecl.encode d.header),
    ("dispatch", d.dispatch.encode), ("targets", ofList TargetDecl.encode d.targets)]

end KernelDispatch
