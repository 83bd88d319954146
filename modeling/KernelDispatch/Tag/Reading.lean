import KernelDispatch.Error
import KernelDispatch.Text.Blank

/-! Tags read from text: blanks around the word do not count. -/
namespace KernelDispatch

/-- A closed set of tags with the words that they are read from. -/
class Tag (α : Type) where
  sort : TagSort
  values : List α
  word : α → String
  synonyms : List (String × α)

instance : Tag OpKind := ⟨.opKind, OpKind.all, OpKind.word, []⟩
instance : Tag Layout := ⟨.layout, Layout.all, Layout.word, []⟩
instance : Tag DataType := ⟨.dataType, DataType.all, DataType.word, []⟩
instance : Tag Padding := ⟨.padding, Padding.all, Padding.word, [("none", .any)]⟩
instance : Tag Param := ⟨.param, Param.all, Param.word, []⟩
instance : Tag Style := ⟨.style, Style.all, Style.word, [("list", .flat)]⟩

namespace Tag
variable {α : Type} [Tag α]

/-- The tag that a word without blanks around it stands for. -/
def ofWord? (w : String) : Option α :=
  ((values.map fun a => (word a, a)) ++ synonyms).lookup w

/-- The part of an unreadable text that its error shows: all of it for a dispatch parameter, the
word between the blanks for the other sorts. -/
def shown (sort : TagSort) (text : String) : String :=
  match sort with
  | .param => text
  | _ => Text.trim text

def read (text : String) : Except ConfigError α :=
  match ofWord? (Text.trim text) with
  | some a => .ok a
  | none => .error (.unknownTag (sort α) (shown (sort α) text))

/-- Reads tags in order, up to the first that is none. -/
def readAll (texts : List String) : Except ConfigError (List α) := texts.mapM read

end Tag

/-- Tags that are read back from their words. -/
class LawfulTag (α : Type) [Tag α] : Prop where
  read_word : ∀ a : α, Tag.read (Tag.word a) = .ok a

instance : LawfulTag OpKind where
  read_word op := by cases op <;> rfl

instance : LawfulTag Layout where
  read_word layout := by cases layout <;> rfl

instance : LawfulTag DataType where
  read_word d := by cases d <;> rfl

instance : LawfulTag Padding where
  read_word p := by cases p <;> rfl

instance : LawfulTag Param where
  read_word p := by
    cases p with
    | field f => cases f <;> rfl
    | padding => rfl

instance : LawfulTag Style where
  read_word style := by cases style <;> rfl

/-- Different tags have different words. -/
theorem Tag.word_inj {α : Type} [Tag α] [LawfulTag α] {a b : α} (h : word a = word b) :
    a = b := by
  have hread : (read (word a) : Except ConfigError α) = read (word b) := by rw [h]
  rw [LawfulTag.read_word, LawfulTag.read_word] at hread
  exact Except.ok.inj hread

end KernelDispatch
