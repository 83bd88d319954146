import KernelDispatch.Journal
import KernelDispatch.Manifest.Error

/-! Scripts that work with files and report what they do, and their effect on a file system. -/
namespace KernelDispatch

/-- What to do next, depending on what was done. -/
inductive Script (α : Type) where
  | done (a : α)
  | fail (f : Fault)
  | note (e : Entry) (next : Script α)
  | readText (path : String) (next : Except FileError String → Script α)
  | makeDirectories (path : String) (next : Except FileError Unit → Script α)
  | writeText (path text : String) (next : Except FileError Unit → Script α)

/-- How a script ended, what it reported and the files it left. -/
structure Outcome (α : Type) where
  result : Except Fault α
  entries : List Entry
  files : FileSystem

namespace Script
variable {α β : Type}

protected def bind (f : α → Script β) : Script α → Script β
  | .done a => f a
  | .fail e => .fail e
  | .note e next => .note e (next.bind f)
  | .readText path next => .readText path fun r => (next r).bind f
  | .makeDirectories path next => .makeDirectories path fun r => (next r).bind f
  | .writeText path text next => .writeText path text fun r => (next r).bind f

instance : Monad Script where
  pure := .done
  bind s f := s.bind f

/-- Goes on after a failure. -/
def attempt : Script α → Script (Except Fault α)
  | .done a => .done (.ok a)
  | .fail e => .done (.error e)
  | .note e next => .note e next.attempt
  | .readText path next => .readText path fun r => (next r).attempt
  | .makeDirectories path next => .makeDirectories path fun r => (next r).attempt
  | .writeText path text next => .writeText path text fun r => (next r).attempt

def ofExcept : Except Fault α → Script α
  | .ok a => .done a
  | .error e => .fail e

def report (kind : EntryKind) (text : String) : Script Unit := .note ⟨kind, text⟩ (.done ())

def reportAll (entries : List Entry) : Script Unit :=
  entries.foldr Script.note (.done ())

/-- A computation that reports, as a script that does not touch files. -/
def ofReported {ε : Type} (fault : ε → Fault) (x : Reported ε α) : Script α := do
  reportAll x.entries
  ofExcept (x.result.mapError fault)

/-- The result of an access to files, or a fault during some activity. -/
def settled (a : Activity) (r : Except FileError α) : Script α :=
  ofExcept (r.mapError fun e => (Fault.file e).within a)

/-- The effect of a script on a file system. -/
def run (fs : FileSystem) : Script α → Outcome α
  | .done a => ⟨.ok a, [], fs⟩
  | .fail e => ⟨.error e, [], fs⟩
  | .note e next =>
    let o := next.run fs
    { o with entries := e :: o.entries }
  | .readText path next => (next (fs.readText path)).run fs
  | .makeDirectories path next =>
    let (fs, r) := fs.makeDirectories path
    (next r).run fs
  | .writeText path text next =>
    match fs.writeText path text with
    | .ok fs => (next (.ok ())).run fs
    | .error e => (next (.error e)).run fs

/-- A script after another one works with the files that the first one left. -/
theorem run_bind (f : α → Script β) (s : Script α) (fs : FileSystem) :
    (s >>= f).run fs =
      match (s.run fs).result with
      | .error e => ⟨.error e, (s.run fs).entries, (s.run fs).files⟩
      | .ok a =>
        let o := (f a).run (s.run fs).files
        { o with entries := (s.run fs).entries ++ o.entries } := by
  change (Script.bind f s).run fs = _
  induction s generalizing fs with
  | done a => rfl
  | fail e => rfl
  | note e next ih =>
    simp only [Script.bind, run, ih]
    cases (next.run fs).result <;> rfl
  | readText path next ih => simp only [Script.bind, run, ih]
  | makeDirectories path next ih => simp only [Script.bind, run, ih]
  | writeText path text next ih =>
    simp only [Script.bind, run]
    split <;> simp only [ih]

theorem run_attempt (s : Script α) (fs : FileSystem) :
    s.attempt.run fs = ⟨.ok (s.run fs).result, (s.run fs).entries, (s.run fs).files⟩ := by
  induction s generalizing fs with
  | done a => rfl
  | fail e => rfl
  | note e next ih => simp only [attempt, run, ih]
  | readText path next ih => simp only [attempt, run, ih]
  | makeDirectories path next ih => simp only [attempt, run, ih]
  | writeText path text next ih =>
    simp only [attempt, run]
    split <;> simp only [ih]

end Script
end KernelDispatch
