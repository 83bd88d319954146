import KernelDispatch.Artifact.Rendered
import KernelDispatch.Manifest.Select
import KernelDispatch.Session

/-! Manifests read from files, and artifacts rendered from them and written. -/
namespace KernelDispatch

/-- A rendered output with the path that it is written to. -/
structure Artifact where
  label : String
  output : String
  rendered : Rendered
  deriving DecidableEq, Repr

namespace Manifest

/-- Reads the manifest at a path. Its paths are relative to the directory that it is in. -/
def load (path : String) : Script Manifest :=
  .readText path fun r => do
    let text ← Script.settled (.readingManifest path) r
    let root := (Path.parent? path).getD ""
    Script.ofExcept ((ofText text root).mapError (Fault.within (.decodingManifest path)))

/-- Reads a template. It keeps the name by which the manifest refers to it. -/
def loadTemplate (m : Manifest) (name : String) : Script Template :=
  .readText (m.path name) fun r => do
    return ⟨name, ← Script.settled (.readingTemplate (m.path name)) r⟩

def renderTarget (m : Manifest) (tag : String) : Script Artifact := do
  let t ← Script.ofReported id (m.resolve tag)
  let d ← Script.ofExcept (t.dispatchConfig.mapError .config)
  let body ← m.loadTemplate t.bodyTemplate
  let file ← m.loadTemplate m.decl.fileTemplate
  let rendered ← Script.ofReported (fun e => (Fault.config e).within (.renderingTarget tag))
    (renderSource d t.family ⟨body, file, t.includes, t.defines⟩)
  return ⟨t.tag, t.output, rendered⟩

def resolveAll (m : Manifest) : List String → Reported Fault (List Target)
  | [] => pure []
  | tag :: rest => do return (← m.resolve tag) :: (← m.resolveAll rest)

def renderHeader (m : Manifest) : Script Artifact := do
  let header ← Script.ofExcept (require m.decl.header .noHeader)
  let targets ← Script.ofReported id (m.resolveAll m.tags)
  let template ← m.loadTemplate header.template
  let rendered ← Script.ofExcept
    ((KernelDispatch.renderHeader (targets.map Target.family) template m.decl.functionGroup
      header.guardName).mapError fun e => (Fault.config e).within .renderingHeader)
  return ⟨headerWord, m.path header.output, rendered⟩

def render (m : Manifest) : Selection → Script Artifact
  | .target tag => m.renderTarget tag
  | .header => m.renderHeader

end Manifest

namespace Artifact

def makeParent (path : String) : Script Unit :=
  match Path.parent? path with
  | none | some "" => .done ()
  | some dir => .makeDirectories dir (Script.settled (.creating dir))

/-- Writes an artifact in the directory of its path, which is made if needed. -/
def write (a : Artifact) : Script Unit := do
  makeParent a.output
  .writeText a.output a.rendered.text (Script.settled (.writing a.output))

end Artifact
end KernelDispatch
