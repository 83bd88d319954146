import KernelDispatch.Variant.Symbol

/-! Function heads and calls, broken over several lines when they are long. -/
namespace KernelDispatch

/-- Generated lines with more bytes than this are broken where a list allows it. -/
def maxLineBytes : Nat := 127

namespace Arg

/-- The items of an argument list on one line, or each on a line of its own. -/
def list (items : List String) (broken : Bool) : String :=
  if broken then "(" ++ ",".intercalate (items.map fun item => "\n        " ++ item) ++ ")"
  else "(" ++ ", ".intercalate items ++ ")"

def declared (a : Arg) : String := a.type ++ " " ++ a.name

end Arg

/-- A line with an argument list in it, which is broken if the line would be too long. -/
def fitList (before : String) (items : List String) (after : String) : String :=
  let line := before ++ Arg.list items false ++ after
  if line.utf8ByteSize > maxLineBytes then before ++ Arg.list items true ++ after else line

namespace Variant

/-- The head of the function of a variant, without body or semicolon. -/
def prototype (v : Variant) (returnType : String) : String :=
  fitList (returnType ++ " " ++ v.symbol) (v.identity.args.map Arg.declared) ""

/-- The call of the function of a variant. -/
def call (v : Variant) : String := fitList v.symbol (v.identity.args.map Arg.name) ";"

/-- The expression that names a variant instead of calling it. -/
def quotedSymbol (v : Variant) : String := "(char*)\"" ++ v.symbol ++ "\";"

/-- What the wrapper returns for a variant: the result of its call or, in the diagnostic wrapper,
its name. -/
def answer (v : Variant) (diagnostic : Bool) : String :=
  if diagnostic then v.quotedSymbol else v.call

end Variant
end KernelDispatch
