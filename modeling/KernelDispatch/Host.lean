import KernelDispatch.CommandLine
import KernelDispatch.Console

/-! Scripts performed on a host, which has a clock, a console and files. -/
namespace KernelDispatch

/-- What a script is performed on. Only an access to files can fail. -/
structure Host (m : Type → Type) where
  /-- The time in seconds, as the clock shows it at this moment. -/
  seconds : m Nat
  printLine : String → m Unit
  readText : String → m (Except FileError String)
  makeDirectories : String → m (Except FileError Unit)
  writeText : String → String → m (Except FileError Unit)

namespace Host
variable {m : Type → Type} [Monad m]

/-- Prints an entry with the time of the day, unless the verbosity leaves it out. -/
def display (h : Host m) (v : Verbosity) (e : Entry) : m Unit := do
  if v.shows e then
    h.printLine (e.line (clock (← h.seconds)))

def perform {α : Type} (h : Host m) (v : Verbosity) : Script α → m (Except Fault α)
  | .done a => return .ok a
  | .fail e => return .error e
  | .note e next => do
    h.display v e
    h.perform v next
  | .readText path next => do h.perform v (next (← h.readText path))
  | .makeDirectories path next => do h.perform v (next (← h.makeDirectories path))
  | .writeText path text next => do h.perform v (next (← h.writeText path text))

/-- Runs the command line under a setting of the verbosity and returns the exit status. -/
def exec (h : Host m) (setting : Option String) (arguments : List String) : m UInt32 := do
  match ← h.perform (.ofSetting setting) (CommandLine.run arguments) with
  | .ok status => return UInt32.ofNat status
  | .error _ => return 1

end Host
end KernelDispatch
