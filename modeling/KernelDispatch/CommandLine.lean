import KernelDispatch.Manifest.Render

/-! The command line: artifacts selected by words are rendered and written one after another. -/
namespace KernelDispatch

structure Options where
  manifest : String
  keepGoing : Bool
  dryRun : Bool
  words : List String
  deriving DecidableEq, Repr

namespace Options

structure Draft where
  manifest : Option String := none
  keepGoing : Bool := false
  dryRun : Bool := false
  words : List String := []
  deriving DecidableEq, Repr

def manifestFlag : String := "--manifest"

/-- The value of an argument that holds the manifest after an equals sign. -/
def attached? (argument : String) : Option String :=
  let opening := (manifestFlag ++ "=").toList
  if opening.isPrefixOf argument.toList then
    some (String.ofList (argument.toList.drop opening.length))
  else none

def isFlag (argument : String) : Bool := ['-', '-'].isPrefixOf argument.toList

/-- Reads arguments from left to right. The last manifest counts. -/
def readFrom (p : Draft) : List String → Except UsageError Draft
  | [] => .ok p
  | a :: rest =>
    if a = manifestFlag then
      match rest with
      | [] => .error .noManifestValue
      | path :: rest => readFrom { p with manifest := some path } rest
    else match attached? a with
      | some path => readFrom { p with manifest := some path } rest
      | none =>
        if a = "--keep-going" then readFrom { p with keepGoing := true } rest
        else if a = "--dry-run" then readFrom { p with dryRun := true } rest
        else if isFlag a then .error (.unknownArgument a)
        else readFrom { p with words := p.words ++ [a] } rest

def read (arguments : List String) : Except UsageError Options := do
  let p ← readFrom {} arguments
  match p.manifest with
  | none => throw .noManifest
  | some manifest => return ⟨manifest, p.keepGoing, p.dryRun, p.words⟩

end Options

namespace CommandLine

/-- Renders and writes one artifact, which is the `index`-th of `total`. -/
def generate (o : Options) (m : Manifest) (total index : Nat) (s : Selection) : Script Unit := do
  let a ← m.render s
  Script.report .progress
    ("[" ++ toString index ++ "/" ++ toString total ++ "] -- generating " ++ a.label ++ " -> "
      ++ a.output)
  Script.reportAll
    (a.rendered.findings.map fun f => ⟨.diagnostic, a.label ++ ": " ++ f.message⟩)
  if o.dryRun then Script.report .trace ("dry run, " ++ a.output ++ " not written")
  else a.write

/-- Generates artifacts in order and counts those that failed. The first failure ends the run
unless it is to keep going. -/
def generateAll (o : Options) (m : Manifest) (total : Nat) :
    (index failed : Nat) → List Selection → Script Nat
  | _, failed, [] => pure failed
  | index, failed, s :: rest => do
    match ← (generate o m total index s).attempt with
    | .ok () => generateAll o m total (index + 1) failed rest
    | .error e =>
      Script.report .critical (s.label ++ ": " ++ e.message)
      if o.keepGoing then generateAll o m total (index + 1) (failed + 1) rest
      else return failed + 1

/-- Generates what options select and counts the artifacts that failed. -/
def runOptions (o : Options) : Script Nat := do
  let m ← Manifest.load o.manifest
  Script.report .trace
    (m.decl.functionGroup ++ " (" ++ m.decl.op.word ++ ") from " ++ m.root)
  let selected ← Script.ofExcept ((m.select o.words).mapError .manifest)
  generateAll o m selected.length 1 0 selected

/-- Does what arguments ask for and counts the artifacts that failed. -/
def perform (arguments : List String) : Script Nat := do
  runOptions (← Script.ofExcept ((Options.read arguments).mapError .usage))

/-- Runs the command line. The exit status is zero if nothing failed. -/
def run (arguments : List String) : Script Nat := do
  match ← (perform arguments).attempt with
  | .ok 0 => return 0
  | .ok failed =>
    Script.report .critical (toString failed ++ " artifact(s) failed")
    return 1
  | .error e =>
    Script.report .critical e.message
    return 1

end CommandLine
end KernelDispatch
