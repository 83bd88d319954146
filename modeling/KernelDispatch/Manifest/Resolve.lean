import KernelDispatch.Artifact.Family
import KernelDispatch.Journal
import KernelDispatch.Manifest.Decode
import KernelDispatch.Manifest.Expand
import KernelDispatch.Plan.Dispatch

/-! Manifests whose targets can be told apart, and their targets with inheritance applied. -/
namespace KernelDispatch

/-- The declarations of a manifest and the directory that its paths are relative to. -/
structure Manifest where
  root : String
  decl : ManifestDecl
  deriving DecidableEq, Repr

def headerWord : String := "header"

def allWord : String := "all"

/-- A target with inheritance applied: everything that its source file is made from. -/
structure Target where
  tag : String
  output : String
  identity : Identity
  bodyTemplate : String
  includes : List String
  defines : List String
  variants : List Variant
  default : Variant
  dispatch : DispatchDecl
  deriving DecidableEq, Repr

namespace Target

def family (t : Target) : Family := ⟨t.variants, t.default⟩

/-- The dispatch of a target: its bindings go over those that its operation offers. -/
def dispatchConfig (t : Target) : Except ConfigError Dispatch := do
  let d ← Dispatch.ofHierarchy t.dispatch.style t.dispatch.hierarchy
  return d.bindAll ((Bindings.standard t.identity).override t.dispatch.bindings)

end Target

namespace TargetDecl

def declaresVariants (d : TargetDecl) : Bool := !d.variants.isEmpty || d.generic.isSome

end TargetDecl

namespace Manifest

def targets (m : Manifest) : List TargetDecl := m.decl.targets

def tags (m : Manifest) : List String := m.targets.map TargetDecl.tag

def path (m : Manifest) (relative : String) : String := Path.join m.root relative

/-- Tags must be told apart from each other and from the words that select something else. -/
def requireTags (seen : List String) : List String → Except ManifestError Unit
  | [] => .ok ()
  | tag :: rest =>
    if tag = headerWord ∨ tag = allWord then .error (.reservedTag tag)
    else if tag ∈ seen then .error (.repeatedTag tag)
    else requireTags (tag :: seen) rest

def ofText (text root : String) : Except Fault Manifest := do
  let decl ← (Decoder.ofText ManifestDecl.decode text).mapError .decode
  (requireTags [] (decl.targets.map TargetDecl.tag)).mapError .manifest
  return ⟨root, decl⟩

def target? (m : Manifest) (tag : String) : Option TargetDecl :=
  m.targets.find? fun t => t.tag = tag

/-- The targets that are not among some visited ones. -/
def unvisited (m : Manifest) (visited : List String) : List TargetDecl :=
  m.targets.filter fun t => t.tag ∉ visited

theorem length_unvisited_lt {m : Manifest} {visited : List String} {tag : String} {t : TargetDecl}
    (hv : tag ∉ visited) (ht : m.target? tag = some t) :
    (m.unvisited (visited ++ [tag])).length < (m.unvisited visited).length := by
  have htag : t.tag = tag := by simpa using List.find?_some ht
  have hmem : t ∈ m.targets := List.mem_of_find?_eq_some ht
  have hsub : m.unvisited (visited ++ [tag])
      = (m.unvisited visited).filter fun t => t.tag ∉ [tag] := by
    simp only [unvisited, List.filter_filter]
    congr 1
    funext t
    simp [and_comm, not_or]
  rw [hsub]
  refine Nat.lt_of_le_of_ne (List.length_filter_le ..) fun h => ?_
  have hall := List.length_filter_eq_length_iff.1 h t
    (List.mem_filter.2 ⟨hmem, by simpa [htag] using hv⟩)
  simp [htag] at hall

/-- The targets that a target derives from, nearest first, down to the one with variants of its own,
which comes second. The target itself is the first of them if it derives from another. -/
def lineage (m : Manifest) (visited : List String) (tag : String) :
    Except ManifestError (List TargetDecl × TargetDecl) :=
  if hv : tag ∈ visited then .error (.derivationCycle visited tag)
  else
    match ht : m.target? tag with
    | none => .error (.unknownTarget tag)
    | some t =>
      match t.deriveFrom with
      | none => .ok ([], t)
      | some parent =>
        if t.declaresVariants then .error (.derivedVariants tag parent)
        else do
          have := length_unvisited_lt hv ht
          let (derived, base) ← m.lineage (visited ++ [tag]) parent
          return (t :: derived, base)
termination_by (m.unvisited visited).length

def expandAll (identity : Identity) (tag : String) (decls : List VariantDecl) :
    Except Fault (List Variant) := do
  let expanded ← decls.zipIdx.mapM fun (d, i) =>
    (d.expand identity).mapError fun e => (Fault.manifest e).within (.expandingVariant tag i)
  return expanded.flatten

/-- A part that a target without a parent must declare. -/
def require {α : Type} (part : Option α) (e : ManifestError) : Except Fault α :=
  match part with
  | some a => .ok a
  | none => .error (.manifest e)

def resolveBase (m : Manifest) (t : TargetDecl) : Except Fault Target := do
  let layout ← require t.layout (.noLayout t.tag)
  let dataType ← require t.dataType (.noDataType t.tag)
  let bodyTemplate ← require t.bodyTemplate (.noBodyTemplate t.tag)
  let generic ← require t.generic (.noGeneric t.tag)
  let identity : Identity := ⟨m.decl.group, m.decl.op, layout, dataType, m.decl.args⟩
  let declared ← expandAll identity t.tag t.variants
  let default := Variant.fallback identity generic.core.names
  return {
    tag := t.tag, output := m.path t.output, identity, bodyTemplate,
    includes := t.includes.getD [], defines := t.defines.getD [],
    variants := declared ++ [default], default,
    dispatch := t.dispatch.getD m.decl.dispatch }

/-- A target that derives from another one. What it does not declare is that of its parent. -/
def derive (m : Manifest) (parent : Target) (t : TargetDecl) : Target :=
  let identity := { parent.identity with
    layout := t.layout.getD parent.identity.layout
    dataType := t.dataType.getD parent.identity.dataType }
  { tag := t.tag, output := m.path t.output, identity,
    bodyTemplate := t.bodyTemplate.getD parent.bodyTemplate,
    includes := t.includes.getD parent.includes, defines := t.defines.getD parent.defines,
    variants := parent.variants.map fun v => v.withIdentity identity,
    default := parent.default.withIdentity identity,
    dispatch := t.dispatch.getD parent.dispatch }

def reportResolved (t : Target) : Reported Fault Unit :=
  .report .detail
    ("resolved target " ++ t.tag ++ " with " ++ toString t.variants.length ++ " variants")

/-- Applies derived declarations to a target, the nearest to it last in the list. -/
def deriveAll (m : Manifest) (base : Target) : List TargetDecl → Reported Fault Target
  | [] => pure base
  | t :: farther => do
    let resolved := m.derive (← m.deriveAll base farther) t
    reportResolved resolved
    return resolved

def resolve (m : Manifest) (tag : String) : Reported Fault Target := do
  let (derived, base) ← Reported.ofExcept ((m.lineage [] tag).mapError .manifest)
  let resolved ← Reported.ofExcept (m.resolveBase base)
  reportResolved resolved
  m.deriveAll resolved derived

end Manifest
end KernelDispatch
