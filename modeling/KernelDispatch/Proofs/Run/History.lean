import KernelDispatch.Session
import Mathlib

/-! What a script reports, together with the files at the time of the report. -/
namespace KernelDispatch.Script
variable {α β γ : Type}

protected theorem bind_assoc (s : Script α) (f : α → Script β) (g : β → Script γ) :
    Script.bind g (Script.bind f s) = Script.bind (fun a => Script.bind g (f a)) s := by
  induction s with
  | done a => rfl
  | fail e => rfl
  | note e next ih => exact congrArg (Script.note e) ih
  | readText path next ih => exact congrArg (Script.readText path) (funext ih)
  | makeDirectories path next ih => exact congrArg (Script.makeDirectories path) (funext ih)
  | writeText path text next ih => exact congrArg (Script.writeText path text) (funext ih)

protected theorem bind_pure (s : Script α) : Script.bind pure s = s := by
  induction s with
  | done a => rfl
  | fail e => rfl
  | note e next ih => exact congrArg (Script.note e) ih
  | readText path next ih => exact congrArg (Script.readText path) (funext ih)
  | makeDirectories path next ih => exact congrArg (Script.makeDirectories path) (funext ih)
  | writeText path text next ih => exact congrArg (Script.writeText path text) (funext ih)

instance : LawfulMonad Script :=
  LawfulMonad.mk' _ Script.bind_pure (fun _ _ => rfl) Script.bind_assoc

/-- What a script reports, each entry with the files that the script has left so far. -/
def history (fs : FileSystem) : Script α → List (Entry × FileSystem)
  | .done _ => []
  | .fail _ => []
  | .note e next => (e, fs) :: next.history fs
  | .readText path next => (next (fs.readText path)).history fs
  | .makeDirectories path next =>
    let (fs, r) := fs.makeDirectories path
    (next r).history fs
  | .writeText path text next =>
    match fs.writeText path text with
    | .ok fs => (next (.ok ())).history fs
    | .error e => (next (.error e)).history fs

theorem map_fst_history (s : Script α) (fs : FileSystem) :
    (s.history fs).map Prod.fst = (s.run fs).entries := by
  induction s generalizing fs with
  | done a => rfl
  | fail e => rfl
  | note e next ih => exact congrArg (e :: ·) (ih fs)
  | readText path next ih => exact ih _ _
  | makeDirectories path next ih => exact ih _ _
  | writeText path text next ih =>
    simp only [history, run]
    cases fs.writeText path text with
    | ok fs => exact ih _ _
    | error e => exact ih _ _

theorem history_bind (f : α → Script β) (s : Script α) (fs : FileSystem) :
    (s >>= f).history fs = s.history fs ++
      match (s.run fs).result with
      | .error _ => []
      | .ok a => (f a).history (s.run fs).files := by
  change (Script.bind f s).history fs = _
  induction s generalizing fs with
  | done a => rfl
  | fail e => rfl
  | note e next ih => exact congrArg ((e, fs) :: ·) (ih fs)
  | readText path next ih => exact ih _ _
  | makeDirectories path next ih => exact ih _ _
  | writeText path text next ih =>
    simp only [Script.bind, history, run]
    cases fs.writeText path text with
    | ok fs => exact ih _ _
    | error e => exact ih _ _

theorem history_attempt (s : Script α) (fs : FileSystem) :
    s.attempt.history fs = s.history fs := by
  induction s generalizing fs with
  | done a => rfl
  | fail e => rfl
  | note e next ih => exact congrArg ((e, fs) :: ·) (ih fs)
  | readText path next ih => exact ih _ _
  | makeDirectories path next ih => exact ih _ _
  | writeText path text next ih =>
    simp only [attempt, history]
    cases fs.writeText path text with
    | ok fs => exact ih _ _
    | error e => exact ih _ _

end KernelDispatch.Script
