import KernelDispatch.Decimal.Shortest
import KernelDispatch.Json.Reader
import KernelDispatch.Tag.Reading
import KernelDispatch.Text.Bindings
import KernelDispatch.Text.Number
import KernelDispatch.Text.Shown

/-! Decoding: from Json to the values of a type. The first problem in reading order decides. -/
namespace KernelDispatch

/-- What is expected of a value. -/
inductive Expected where
  | string
  | sequence
  | map
  | pair
  | record (name : String) (fields : Nat)
  deriving DecidableEq, Repr

inductive DecodeError where
  | malformed
  | wrongKind (found : Json) (expected : Expected)
  | tooShort (length : Nat) (expected : Expected)
  | unknownField (name : String) (known : List String)
  | repeatedField (name : String)
  | missingField (name : String)
  | noAlternative (type : String)
  | tag (e : ConfigError)
  deriving Repr

namespace Json

def description : Json → String
  | .null => "null"
  | .bool b => "boolean `" ++ (if b then "true" else "false") ++ "`"
  | .integer n => "integer `" ++ toString n ++ "`"
  | .decimal negative x => "floating point `" ++ (if negative then "-" else "") ++ x.text ++ "`"
  | .string s => "string " ++ Text.shown s
  | .array _ _ => "sequence"
  | .object _ _ => "map"
  | .broken => "nothing"

end Json

namespace Expected

def text : Expected → String
  | .string => "a string"
  | .sequence => "a sequence"
  | .map => "a map"
  | .pair => "a tuple of size 2"
  | .record name _ => "struct " ++ name

def lengthText : Expected → String
  | .record name fields =>
    "struct " ++ name ++ " with " ++ toString fields ++ (if fields = 1 then " element" else " elements")
  | e => e.text

end Expected

def choiceText (names : List String) : String :=
  match names.map fun n => "`" ++ n ++ "`" with
  | [] => "there are no fields"
  | [a] => "expected " ++ a
  | [a, b] => "expected " ++ a ++ " or " ++ b
  | all => "expected one of " ++ ", ".intercalate all

structure Position where
  line : Nat
  column : Nat
  deriving DecidableEq, Repr

/-- The position that a message ends with, and what comes before it. -/
def splitPosition? (message : String) : Option (String × Position) := do
  let number? (reversed : List Char) : Option (Nat × List Char) :=
    let ds := (reversed.takeWhile Char.isDigit).reverse
    let n := Json.Literal.natural ds
    if ds = [] ∨ n > Json.Literal.maxWord then none else some (n, reversed.dropWhile Char.isDigit)
  let word? (word : String) (reversed : List Char) : Option (List Char) :=
    if word.toList.reverse.isPrefixOf reversed then some (reversed.drop word.length) else none
  let (column, cs) ← number? message.toList.reverse
  let cs ← word? " column " cs
  let (line, cs) ← number? cs
  let cs ← word? " at line " cs
  return (String.ofList cs.reverse, ⟨line, column⟩)

example : splitPosition? "x at line 2 column 30" = some ("x", ⟨2, 30⟩) := by decide +kernel
example : splitPosition? "x at line 2 column" = none := by decide +kernel

namespace DecodeError

/-- A position that is part of a tag counts as the position of its error, which is not shown. -/
def message : DecodeError → String
  | .malformed => "malformed text"
  | .wrongKind found expected =>
    "invalid type: " ++ found.description ++ ", expected " ++ expected.text
  | .tooShort length expected =>
    "invalid length " ++ toString length ++ ", expected " ++ expected.lengthText
  | .unknownField name known => "unknown field `" ++ name ++ "`, " ++ choiceText known
  | .repeatedField name => "duplicate field `" ++ name ++ "`"
  | .missingField name => "missing field `" ++ name ++ "`"
  | .noAlternative type => "data did not match any variant of untagged enum " ++ type
  | .tag e => ((splitPosition? e.message).map Prod.fst).getD e.message

end DecodeError

abbrev Decoder (α : Type) := Json → Except DecodeError α

namespace Decoder
variable {α : Type}

/-- A value of another kind than the expected one, or one of which nothing could be read. -/
def refuse (j : Json) (expected : Expected) : Except DecodeError α :=
  match j with
  | .broken => .error .malformed
  | j => .error (.wrongKind j expected)

/-- What was decoded from the items of a container that has to be closed. -/
def closing (closed : Bool) (a : α) : Except DecodeError α :=
  if closed then .ok a else .error .malformed

def string : Decoder String
  | .string s => .ok s
  | j => refuse j .string

def tag [Tag α] : Decoder α := fun j => do
  let s ← string j
  (Tag.read s).mapError .tag

def list (item : Decoder α) : Decoder (List α)
  | .array items closed => do closing closed (← items.mapM item)
  | j => refuse j .sequence

def option (value : Decoder α) : Decoder (Option α)
  | .null => .ok none
  | j => some <$> value j

/-- Texts bound to names; of several bindings of a name the last one holds. -/
def bindings : Decoder Bindings
  | .object members closed => do
    let pairs ← members.mapM fun (name, j) => return (name, ← string j)
    closing closed (.ofList pairs)
  | j => refuse j .map

def stringPair : Decoder (String × String)
  | .array items closed => do
    let item (i : Nat) : Except DecodeError String :=
      match items[i]? with
      | some j => string j
      | none => .error (if closed then .tooShort i .pair else .malformed)
    let first ← item 0
    let second ← item 1
    closing (closed && items.length ≤ 2) (first, second)
  | j => refuse j .pair

/-- A value that was read completely and that one of some alternatives fits. -/
def untagged (type : String) (alternatives : Json → Option α) : Decoder α := fun j =>
  if j.isComplete then
    match alternatives j with
    | some a => .ok a
    | none => .error (.noAlternative type)
  else .error .malformed

end Decoder

/-- A field of a record: how it is decoded and put into the record. -/
structure Slot (α : Type) where
  name : String
  required : Bool
  put : Json → α → Except DecodeError α

/-- The shape of a record: the record before any field is put into it, and its fields in order. -/
structure Shape (α : Type) where
  name : String
  blank : α
  slots : List (Slot α)

namespace Shape
variable {α : Type}

def expected (s : Shape α) : Expected := .record s.name s.slots.length

/-- Puts the members of an object into a record, and tells which fields were given. -/
def fill (s : Shape α) (given : List String) (a : α) :
    List (String × Json) → Except DecodeError (List String × α)
  | [] => .ok (given, a)
  | (name, j) :: rest =>
    match s.slots.find? fun slot => slot.name = name with
    | none => .error (.unknownField name (s.slots.map Slot.name))
    | some slot =>
      if name ∈ given then .error (.repeatedField name)
      else do s.fill (name :: given) (← slot.put j a) rest

/-- Puts items into the fields of a record in order. Fields at the end may be absent unless they
are required. -/
def fillInOrder (s : Shape α) (closed : Bool) (index : Nat) (a : α) :
    List (Slot α) → List Json → Except DecodeError α
  | [], items => Decoder.closing (closed && items.isEmpty) a
  | slot :: slots, [] =>
    if !closed then .error .malformed
    else if slot.required then .error (.tooShort index s.expected)
    else s.fillInOrder closed (index + 1) a slots []
  | slot :: slots, j :: items => do s.fillInOrder closed (index + 1) (← slot.put j a) slots items

/-- A record is written as an object or as the array of its fields. -/
def decode (s : Shape α) : Decoder α
  | .object members closed => do
    let (given, a) ← s.fill [] s.blank members
    let a ← Decoder.closing closed a
    match s.slots.find? fun slot => slot.required && slot.name ∉ given with
    | some slot => .error (.missingField slot.name)
    | none => .ok a
  | .array items closed => s.fillInOrder closed 0 s.blank s.slots items
  | j => Decoder.refuse j s.expected

end Shape

/-- Decodes a text that holds one value. -/
def Decoder.ofText {α : Type} (d : Decoder α) (s : String) : Except DecodeError α := do
  let (j, ended) := Json.read s
  let a ← d j
  if ended then .ok a else .error .malformed

end KernelDispatch
