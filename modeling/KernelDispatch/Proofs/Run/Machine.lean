import KernelDispatch.Host
import Mathlib

/-! A host made of a file system, a clock and a console, and the lines on its console. -/
namespace KernelDispatch

/-- The files of a host, what its clock shows at each reading and what was printed. -/
structure Machine where
  files : FileSystem
  times : Nat → Nat
  readings : Nat
  printed : List String

namespace Machine

def start (fs : FileSystem) (times : Nat → Nat) : Machine := ⟨fs, times, 0, []⟩

def host : Host (StateM Machine) where
  seconds w := (w.times w.readings, { w with readings := w.readings + 1 })
  printLine text w := ((), { w with printed := w.printed ++ [text] })
  readText path w := (w.files.readText path, w)
  makeDirectories path w :=
    let (files, r) := w.files.makeDirectories path
    (r, { w with files })
  writeText path text w :=
    match w.files.writeText path text with
    | .ok files => (.ok (), { w with files })
    | .error e => (.error e, w)

/-- The texts of some entries that are printed one after another, from the `n`-th reading on. -/
def texts (times : Nat → Nat) : (n : Nat) → List Entry → List String
  | _, [] => []
  | n, e :: rest => e.line (clock (times n)) :: texts times (n + 1) rest

/-- What is left when some files were changed and some entries printed. -/
def after (w : Machine) (files : FileSystem) (shown : List Entry) : Machine :=
  { w with
    files
    readings := w.readings + shown.length
    printed := w.printed ++ texts w.times w.readings shown }

theorem after_nil (w : Machine) : w.after w.files [] = w := by
  rw [after, texts, List.append_nil]
  rfl

theorem after_cons (w : Machine) (files : FileSystem) (e : Entry) (rest : List Entry) :
    w.after files (e :: rest) =
      after { w with
        readings := w.readings + 1
        printed := w.printed ++ [e.line (clock (w.times w.readings))] } files rest := by
  rw [after, after, texts, List.length_cons, List.append_assoc, List.singleton_append,
    Nat.add_assoc, Nat.add_comm 1]

/-- Performing a script on a machine does to its files what the script does, and prints what is
shown of its report. -/
theorem perform_host {α : Type} (v : Verbosity) (s : Script α) (w : Machine) :
    (host.perform v s) w = ((s.run w.files).result,
      w.after (s.run w.files).files ((s.run w.files).entries.filter v.shows)) := by
  induction s generalizing w with
  | done a => exact congrArg (Prod.mk _) w.after_nil.symm
  | fail e => exact congrArg (Prod.mk _) w.after_nil.symm
  | note e next ih =>
    have hstep : (host.perform v (.note e next)) w =
        (host.perform v next) ((host.display v e) w).2 := rfl
    rw [hstep, Script.run, List.filter_cons]
    unfold Host.display
    cases v.shows e with
    | false => exact ih w
    | true =>
      rw [if_pos rfl, if_pos rfl, after_cons]
      exact ih _
  | readText path next ih => exact ih _ w
  | makeDirectories path next ih =>
    exact ih _ { w with files := (w.files.makeDirectories path).1 }
  | writeText path text next ih =>
    have hstep : (host.perform v (.writeText path text next)) w =
        (host.perform v (next ((host.writeText path text) w).1))
          ((host.writeText path text) w).2 := rfl
    rw [hstep, Script.run]
    unfold host
    dsimp only
    cases w.files.writeText path text with
    | ok files => exact ih _ { w with files }
    | error e => exact ih _ w

end Machine
end KernelDispatch
