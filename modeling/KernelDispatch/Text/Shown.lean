import KernelDispatch.Text.Visible

/-! Texts as messages show them. -/
namespace KernelDispatch.Text

/-- A character of a quoted text. Hidden characters are shown by their code points. -/
def showChar (c : Char) : List Char :=
  match c with
  | '\x00' => ['\\', '0']
  | '\t' => ['\\', 't']
  | '\n' => ['\\', 'n']
  | '\r' => ['\\', 'r']
  | '"' => ['\\', '"']
  | '\\' => ['\\', '\\']
  | c =>
    if isVisible c then [c]
    else ['\\', 'u', '\x7b'] ++ Nat.toDigits 16 c.toNat ++ ['\x7d']

/-- A text between quotes, on one line and without hidden characters. -/
def shown (s : String) : String := String.ofList ('"' :: s.toList.flatMap showChar ++ ['"'])

example : shown "a\tb\u200d" = "\"a\\tb\\u\x7b200d\x7d\"" := by decide +kernel

end KernelDispatch.Text
