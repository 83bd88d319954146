import KernelDispatch.Journal
import KernelDispatch.Text.Blank

/-! The journal as lines on a console. -/
namespace KernelDispatch

/-- The verbosity that a setting asks for. Case and blanks around the word do not count. -/
def Verbosity.ofSetting (setting : Option String) : Verbosity :=
  match setting.map fun s => (Text.trim s).toLower with
  | some "1" | some "basic" => .basic
  | some "full" => .full
  | _ => .off

namespace EntryKind

/-- The word and the colour by which a kind is marked. Progress is not marked. -/
def mark? : EntryKind → Option (String × String)
  | .progress => none
  | .trace => some ("TRACE", "34")
  | .warning | .diagnostic => some ("WARNING", "33")
  | .detail => some ("DETAIL", "32")
  | .critical => some ("CRITICAL", "31")

end EntryKind

/-- The text of an entry that is shown at some time of the day. -/
def Entry.line (time : String) (e : Entry) : String :=
  match e.kind.mark? with
  | none => e.text
  | some (word, colour) =>
    time ++ " [\x1b[" ++ colour ++ "m" ++ word ++ "\x1b[0m] -- " ++ e.text

def consoleTexts (v : Verbosity) (time : String) (entries : List Entry) : List String :=
  (entries.filter v.shows).map (Entry.line time)

def twoDigits (n : Nat) : String := (if n < 10 then "0" else "") ++ toString n

def clock (seconds : Nat) : String :=
  let s := seconds % 86400
  twoDigits (s / 3600) ++ ":" ++ twoDigits (s % 3600 / 60) ++ ":" ++ twoDigits (s % 60)

end KernelDispatch
