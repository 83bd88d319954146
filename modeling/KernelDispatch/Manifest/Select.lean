import KernelDispatch.Manifest.Resolve

/-! What the words of a command line select from a manifest. -/
namespace KernelDispatch

inductive Selection where
  | target (tag : String)
  | header
  deriving DecidableEq, Repr

def Selection.label : Selection → String
  | .target tag => tag
  | .header => headerWord

namespace Manifest

/-- The first of some words that names neither a target nor the header nor everything. -/
def unknownWord? (m : Manifest) (words : List String) : Option String :=
  words.find? fun w => w ≠ allWord && w ≠ headerWord && (m.target? w).isNone

/-- The targets and the header that some words name, in the order of the manifest. No word selects
everything. -/
def select (m : Manifest) (words : List String) : Except ManifestError (List Selection) := do
  if let some w := m.unknownWord? words then throw (.unknownTarget w)
  let everything := words.isEmpty || allWord ∈ words
  if headerWord ∈ words && !everything && m.decl.header.isNone then throw .noHeader
  let chosen := m.tags.filter fun tag => everything || tag ∈ words
  let withHeader := m.decl.header.isSome && (everything || headerWord ∈ words)
  return chosen.map .target ++ if withHeader then [.header] else []

end Manifest
end KernelDispatch
