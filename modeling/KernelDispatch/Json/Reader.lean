import KernelDispatch.Json.Number
import KernelDispatch.Json.Quoted

/-! Reading a text as far as it is Json. -/
namespace KernelDispatch.Json

def isSpace (c : Char) : Bool := c == ' ' || c == '\n' || c == '\t' || c == '\r'

def skip (cs : List Char) : List Char := cs.dropWhile isSpace

/-- What could be read, and the text after it unless the reading broke off. -/
abbrev Reading (α : Type) := α × Option (List Char)

def readNumber (cs : List Char) : Reading Json :=
  match Literal.read? cs with
  | none => (.broken, none)
  | some (l, rest) =>
    match l.value? with
    | none => (.broken, none)
    | some j => (j, some rest)

mutual
/-- The value at the start of a text. At most `depth` arrays and objects are entered at a time. -/
def readValue : (fuel depth : Nat) → List Char → Reading Json
  | 0, _, _ => (.broken, none)
  | fuel + 1, depth, cs =>
    match skip cs with
    | 'n' :: 'u' :: 'l' :: 'l' :: rest => (.null, some rest)
    | 't' :: 'r' :: 'u' :: 'e' :: rest => (.bool true, some rest)
    | 'f' :: 'a' :: 'l' :: 's' :: 'e' :: rest => (.bool false, some rest)
    | '"' :: rest =>
      match Quoted.read? rest with
      | none => (.broken, none)
      | some (s, rest) => (.string (String.ofList s), some rest)
    | '[' :: rest =>
      match depth with
      | 0 => (.array [] false, none)
      | depth + 1 =>
        match skip rest with
        | ']' :: rest => (.array [] true, some rest)
        | rest =>
          let (items, rest) := readItems fuel depth rest
          (.array items rest.isSome, rest)
    | '\x7b' :: rest =>
      match depth with
      | 0 => (.object [] false, none)
      | depth + 1 =>
        match skip rest with
        | '\x7d' :: rest => (.object [] true, some rest)
        | rest =>
          let (members, rest) := readMembers fuel depth rest
          (.object members rest.isSome, rest)
    | cs => readNumber cs

/-- The items of an array, of which there is at least one, and the bracket after them. -/
def readItems : (fuel depth : Nat) → List Char → Reading (List Json)
  | 0, _, _ => ([], none)
  | fuel + 1, depth, cs =>
    match readValue fuel depth cs with
    | (j, none) => ([j], none)
    | (j, some rest) =>
      match skip rest with
      | ']' :: rest => ([j], some rest)
      | ',' :: rest =>
        match skip rest with
        | ']' :: _ => ([j], none)
        | rest =>
          let (items, rest) := readItems fuel depth rest
          (j :: items, rest)
      | _ => ([j], none)

/-- The members of an object, of which there is at least one, and the brace after them. -/
def readMembers : (fuel depth : Nat) → List Char → Reading (List (String × Json))
  | 0, _, _ => ([], none)
  | fuel + 1, depth, cs =>
    match skip cs with
    | '"' :: rest =>
      match Quoted.read? rest with
      | none => ([], none)
      | some (key, rest) =>
        let key := String.ofList key
        match skip rest with
        | ':' :: rest =>
          match readValue fuel depth rest with
          | (j, none) => ([(key, j)], none)
          | (j, some rest) =>
            match skip rest with
            | '\x7d' :: rest => ([(key, j)], some rest)
            | ',' :: rest =>
              let (members, rest) := readMembers fuel depth rest
              ((key, j) :: members, rest)
            | _ => ([(key, j)], none)
        | _ => ([(key, .broken)], none)
    | _ => ([], none)
end

/-- The number of arrays and objects that may be nested. -/
def maxDepth : Nat := 127

/-- The value at the start of a text, and whether nothing but white space follows it. -/
def read (s : String) : Json × Bool :=
  let cs := s.toList
  let (j, rest) := readValue (2 * cs.length + 2) maxDepth cs
  (j, rest.any fun rest => skip rest = [])

end KernelDispatch.Json
