import KernelDispatch.Host
import Std.Time.DateTime.Timestamp

/-! The program: the command line on the files of the working directory. -/
namespace KernelDispatch.Main

def fileError : IO.Error → FileError
  | .noFileOrDirectory .. | .noSuchThing .. => .missing
  | .alreadyExists .. => .alreadyExists
  | .inappropriateType _ 21 _ => .isDirectory
  | .inappropriateType .. => .notDirectory
  | e => .other (toString e)

def access {α : Type} (x : IO α) : IO (Except FileError α) := do
  match ← x.toBaseIO with
  | .ok a => return .ok a
  | .error e => return .error (fileError e)

def readText (path : String) : IO (Except FileError String) := do
  match ← access (IO.FS.readBinFile path) with
  | .error e => return .error e
  | .ok bytes =>
    match String.fromUTF8? bytes with
    | some s => return .ok s
    | none => return .error .notText

def host : Host IO where
  seconds := do
    let now ← Std.Time.Timestamp.now
    return now.toSecondsSinceUnixEpoch.val.toNat
  printLine text := IO.println text
  readText := readText
  makeDirectories path := access (IO.FS.createDirAll path)
  writeText path text := access (IO.FS.writeFile path text)

end KernelDispatch.Main

def main (arguments : List String) : IO UInt32 := do
  KernelDispatch.Main.host.exec (← IO.getEnv "KRNSPEC_TRACE") arguments
