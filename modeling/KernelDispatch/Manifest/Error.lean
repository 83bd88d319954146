import KernelDispatch.Error
import KernelDispatch.Files.FileSystem
import KernelDispatch.Json.Decode

/-! What can go wrong with a manifest, and where. -/
namespace KernelDispatch
open Text (decimal)

/-- A manifest that cannot be used although its text is well formed. -/
inductive ManifestError where
  | zeroStep (first limit : UInt32)
  /-- Kernel sizes are declared both at once and by direction. -/
  | mixedKernel
  /-- Strides are declared both at once and by direction. -/
  | mixedStride
  | reservedTag (tag : String)
  | repeatedTag (tag : String)
  | unknownTarget (tag : String)
  | noHeader
  /-- Targets derive from each other: `path` are the tags before the one that comes again. -/
  | derivationCycle (path : List String) (tag : String)
  /-- A derived target has variants of its own. -/
  | derivedVariants (tag parent : String)
  | noLayout (tag : String)
  | noDataType (tag : String)
  | noBodyTemplate (tag : String)
  | noGeneric (tag : String)
  deriving DecidableEq, Repr

def ManifestError.message : ManifestError → String
  | .zeroStep first limit => "range " ++ decimal first ++ ".." ++ decimal limit ++ " has a zero step"
  | .mixedKernel => "kernel cannot be combined with kernel_w / kernel_h"
  | .mixedStride => "stride cannot be combined with stride_w / stride_h"
  | .reservedTag tag => "target tag " ++ tag ++ " is reserved"
  | .repeatedTag tag => "target tag " ++ tag ++ " is declared twice"
  | .unknownTarget tag => "unknown target " ++ tag
  | .noHeader => "manifest declares no header"
  | .derivationCycle path tag => "derive_from cycle: " ++ " -> ".intercalate path ++ " -> " ++ tag
  | .derivedVariants tag parent =>
    "target " ++ tag ++ " derives from " ++ parent ++ " and cannot declare variants"
  | .noLayout tag => "target " ++ tag ++ " has no layout"
  | .noDataType tag => "target " ++ tag ++ " has no data_type"
  | .noBodyTemplate tag => "target " ++ tag ++ " has no body_template"
  | .noGeneric tag => "target " ++ tag ++ " has no generic variant"

/-- Arguments of the command line that do not say what to do. -/
inductive UsageError where
  | noManifest
  | noManifestValue
  | unknownArgument (argument : String)
  deriving DecidableEq, Repr

def UsageError.message : UsageError → String
  | .noManifest =>
    "usage: krngen --manifest <file> [--keep-going] [--dry-run] [token...]"
  | .noManifestValue => "--manifest requires a value"
  | .unknownArgument argument => "unknown argument: " ++ argument

inductive Cause where
  | config (e : ConfigError)
  | manifest (e : ManifestError)
  | decode (e : DecodeError)
  | file (e : FileError)
  | usage (e : UsageError)
  deriving Repr

def Cause.message : Cause → String
  | .config e => e.message
  | .manifest e => e.message
  | .decode e => e.message
  | .file e => e.message
  | .usage e => e.message

/-- What was being done when something went wrong. -/
inductive Activity where
  | readingManifest (path : String)
  | decodingManifest (path : String)
  | expandingVariant (tag : String) (index : Nat)
  | readingTemplate (path : String)
  | renderingTarget (tag : String)
  | renderingHeader
  | creating (path : String)
  | writing (path : String)
  deriving DecidableEq, Repr

def Activity.complaint : Activity → String
  | .readingManifest path => "failed to read manifest " ++ path
  | .decodingManifest path => "invalid manifest " ++ path
  | .expandingVariant tag index => "target " ++ tag ++ ", variant #" ++ toString index
  | .readingTemplate path => "failed to read template " ++ path
  | .renderingTarget tag => "failed to render target " ++ tag
  | .renderingHeader => "failed to render header"
  | .creating path => "failed to create " ++ path
  | .writing path => "failed to write " ++ path

/-- A cause and the activities that it stopped, outermost first. -/
structure Fault where
  during : List Activity
  cause : Cause
  deriving Repr

namespace Fault

def message (f : Fault) : String :=
  ": ".intercalate (f.during.map Activity.complaint ++ [f.cause.message])

def within (a : Activity) (f : Fault) : Fault := { f with during := a :: f.during }

def config (e : ConfigError) : Fault := ⟨[], .config e⟩
def manifest (e : ManifestError) : Fault := ⟨[], .manifest e⟩
def decode (e : DecodeError) : Fault := ⟨[], .decode e⟩
def file (e : FileError) : Fault := ⟨[], .file e⟩
def usage (e : UsageError) : Fault := ⟨[], .usage e⟩

end Fault
end KernelDispatch
