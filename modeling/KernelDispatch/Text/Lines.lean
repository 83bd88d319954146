/-! Texts of several lines. -/
namespace KernelDispatch.Text

def step : String := "    "

/-- Puts `indent` behind every line break. -/
def hang (indent : String) (s : String) : String :=
  String.ofList (s.toList.flatMap fun c => if c = '\n' then c :: indent.toList else [c])

end KernelDispatch.Text
