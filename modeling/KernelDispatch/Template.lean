import KernelDispatch.Error
import KernelDispatch.Text.Bindings

/-! Text templates: `$name` and `${name}` stand for a value and `$$` for a dollar sign. Any other
dollar sign stands for itself. -/
namespace KernelDispatch

inductive Piece where
  | literal (c : Char)
  /-- A placeholder and the text by which it is written. -/
  | placeholder (key written : List Char)
  deriving DecidableEq, Repr

namespace Piece

def isNameStart (c : Char) : Bool := c.isAlpha || c == '_'

def isNameChar (c : Char) : Bool := c.isAlphanum || c == '_'

/-- The name at the start of a text and what follows it. -/
def name? : List Char → Option (List Char × List Char)
  | [] => none
  | c :: cs =>
    if isNameStart c then some (c :: cs.takeWhile isNameChar, cs.dropWhile isNameChar) else none

theorem name?_eq_append {cs key rest : List Char} (h : name? cs = some (key, rest)) :
    key ++ rest = cs := by
  cases cs with
  | nil => simp [name?] at h
  | cons c cs =>
    simp only [name?] at h
    split at h
    · obtain ⟨rfl, rfl⟩ := Prod.mk.inj (Option.some.inj h)
      simp
    · simp at h

theorem length_lt_of_name? {cs key rest : List Char} (h : name? cs = some (key, rest)) :
    rest.length < cs.length := by
  cases cs with
  | nil => simp [name?] at h
  | cons c cs =>
    simp only [name?] at h
    split at h
    · obtain ⟨rfl, rfl⟩ := Prod.mk.inj (Option.some.inj h)
      exact Nat.lt_succ_of_le (List.dropWhile_sublist _).length_le
    · simp at h

/-- The placeholder after a dollar sign, with or without braces, and what follows it. -/
def placeholder? (cs : List Char) : Option (Piece × List Char) :=
  match cs with
  | '\x7b' :: braced =>
    match name? braced with
    | some (key, '\x7d' :: rest) => some (.placeholder key ('$' :: '\x7b' :: key ++ ['\x7d']), rest)
    | _ => none
  | _ => (name? cs).map fun (key, rest) => (.placeholder key ('$' :: key), rest)

theorem length_lt_of_placeholder? {cs rest : List Char} {p : Piece}
    (h : placeholder? cs = some (p, rest)) : rest.length < cs.length := by
  unfold placeholder? at h
  split at h
  · next braced =>
    split at h
    · next key rest' hn =>
      obtain ⟨-, rfl⟩ := Prod.mk.inj (Option.some.inj h)
      have := length_lt_of_name? hn
      simp only [List.length_cons] at this ⊢
      omega
    · simp at h
  · obtain ⟨⟨key, rest'⟩, hn, he⟩ := Option.map_eq_some_iff.1 h
    obtain ⟨-, rfl⟩ := Prod.mk.inj he
    exact length_lt_of_name? hn

/-- The pieces of a text, from left to right. -/
def ofChars : List Char → List Piece
  | [] => []
  | '$' :: '$' :: rest => .literal '$' :: ofChars rest
  | '$' :: rest =>
    match h : placeholder? rest with
    | some (p, after) =>
      have := length_lt_of_placeholder? h
      p :: ofChars after
    | none => .literal '$' :: ofChars rest
  | c :: rest => .literal c :: ofChars rest
termination_by cs => cs.length
decreasing_by all_goals (simp only [List.length_cons]; omega)

def key? : Piece → Option String
  | .literal _ => none
  | .placeholder key _ => some (String.ofList key)

end Piece

structure Template where
  name : String
  source : String
  deriving DecidableEq, Repr

namespace Template

def pieces (t : Template) : List Piece := Piece.ofChars t.source.toList

/-- The names of the placeholders in the order of their first use. -/
def placeholders (t : Template) : List String := (t.pieces.filterMap Piece.key?).eraseDups

/-- The text of a piece. An unbound placeholder stays as it is written. -/
def expand (values : Bindings) : Piece → List Char
  | .literal c => [c]
  | .placeholder key written =>
    match values.get? (String.ofList key) with
    | some value => value.toList
    | none => written

/-- Replaces the placeholders that are bound. -/
def fill (t : Template) (values : Bindings) : String :=
  String.ofList (t.pieces.flatMap (expand values))

/-- The text of a piece, which must not be an unbound placeholder. -/
def expandBound (template : String) (values : Bindings) : Piece → Except ConfigError (List Char)
  | .literal c => .ok [c]
  | .placeholder key _ =>
    match values.get? (String.ofList key) with
    | some value => .ok value.toList
    | none => .error (.unboundPlaceholder template (String.ofList key))

/-- Replaces all placeholders; the first that is unbound is an error. -/
def fillAll (t : Template) (values : Bindings) : Except ConfigError String := do
  let texts ← t.pieces.mapM (expandBound t.name values)
  return String.ofList texts.flatten

end Template
end KernelDispatch
