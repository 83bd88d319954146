import KernelDispatch.Decimal.Shortest
import KernelDispatch.Json.Quoted
import KernelDispatch.Json.Basic

/-! The text of a Json value, without white space. -/
namespace KernelDispatch.Json

mutual
def chars : Json → List Char
  | .null => "null".toList
  | .bool b => (if b then "true" else "false").toList
  | .integer n => (if n < 0 then ['-'] else []) ++ n.natAbs.repr.toList
  | .decimal negative x => (if negative then ['-'] else []) ++ x.text.toList
  | .string s => Quoted.write s
  | .array items closed => '[' :: itemChars items ++ (if closed then [']'] else [])
  | .object members closed => '\x7b' :: memberChars members ++ (if closed then ['\x7d'] else [])
  | .broken => []

def itemChars : List Json → List Char
  | [] => []
  | [j] => j.chars
  | j :: rest => j.chars ++ ',' :: itemChars rest

def memberChars : List (String × Json) → List Char
  | [] => []
  | [(key, j)] => Quoted.write key ++ ':' :: j.chars
  | (key, j) :: rest => Quoted.write key ++ ':' :: j.chars ++ ',' :: memberChars rest
end

def text (j : Json) : String := String.ofList j.chars

end KernelDispatch.Json
