import KernelDispatch.Tag.Reading
import KernelDispatch.Variant.Symbol
import Mathlib

/-! Reading a symbol back. The group may be any text. Behind it the words that underscores separate
tell the parameters of a variant, and their leading letters tell which word speaks of which
parameter. -/
namespace KernelDispatch

/-- A text whose end an underscore marks, and that cannot be taken for the mark of a debug
variant. -/
def IsMark (s : String) : Prop := '_' ∉ s.toList ∧ 'b' ∉ s.toList

instance (s : String) : Decidable (IsMark s) := inferInstanceAs (Decidable (_ ∧ _))

theorem IsMark.append {s t : String} (hs : IsMark s) (ht : IsMark t) : IsMark (s ++ t) := by
  simp only [IsMark, String.toList_append, List.mem_append, not_or]
  exact ⟨⟨hs.1, ht.1⟩, hs.2, ht.2⟩

namespace Text

theorem decimal_inj {m n : UInt32} : decimal m = decimal n ↔ m = n :=
  Nat.repr_inj.trans UInt32.toNat_inj

theorem isMark_decimal (n : UInt32) : IsMark (decimal n) :=
  ⟨fun h => absurd (isDigit_of_mem_decimal h) (by decide),
    fun h => absurd (isDigit_of_mem_decimal h) (by decide)⟩

/-- A number is told from the letters in front of it. -/
theorem append_decimal_inj {s t : String} {m n : UInt32} (hs : ∀ c ∈ s.toList, c.isDigit = false)
    (ht : ∀ c ∈ t.toList, c.isDigit = false) :
    s ++ decimal m = t ++ decimal n ↔ s = t ∧ m = n := by
  refine ⟨fun h => ?_, by rintro ⟨rfl, rfl⟩; rfl⟩
  have hletters : ∀ (s : String) (n : UInt32), (∀ c ∈ s.toList, c.isDigit = false) →
      (s ++ decimal n).toList.takeWhile (fun c => !c.isDigit) = s.toList := by
    intro s n hs
    rw [String.toList_append, List.takeWhile_append_of_pos fun c hc => by simp [hs c hc]]
    cases hd : (decimal n).toList with
    | nil => simp
    | cons c cs =>
      have hc : c.isDigit = true := isDigit_of_mem_decimal (hd ▸ List.mem_cons_self)
      simp [hc]
  have hst : s = t := by
    rw [← String.toList_inj, ← hletters s m hs, h, hletters t n ht]
  rw [hst, String.append_right_inj] at h
  exact ⟨hst, decimal_inj.mp h⟩

end Text

/-- The two halves of a text that is cut at the first occurrence of a character. -/
theorem append_inj_of_notMem {x : Char} {s s' t t' : List Char} (hs : x ∉ s) (hs' : x ∉ s')
    (ht : ∀ c ∈ t.head?, c = x) (ht' : ∀ c ∈ t'.head?, c = x) (h : s ++ t = s' ++ t') :
    s = s' ∧ t = t' := by
  have hcut : ∀ {s t : List Char}, x ∉ s → (∀ c ∈ t.head?, c = x) →
      (s ++ t).takeWhile (fun c => c ≠ x) = s := by
    intro s t hs ht
    have hne : ∀ c ∈ s, decide (c ≠ x) = true := by
      intro c hc
      exact decide_eq_true fun hx => hs (hx ▸ hc)
    rw [List.takeWhile_append_of_pos hne]
    cases t with
    | nil => simp
    | cons c cs => simp [ht c rfl]
  have hss : s = s' := by rw [← hcut hs ht, h, hcut hs' ht']
  rw [hss] at h
  exact ⟨hss, List.append_cancel_left h⟩

/-- Words, each behind an underscore. -/
def marked (ws : List String) : List Char := ws.flatMap fun w => '_' :: w.toList

theorem marked_append (ws ws' : List String) : marked (ws ++ ws') = marked ws ++ marked ws' :=
  List.flatMap_append

theorem head?_marked (ws : List String) : ∀ c ∈ (marked ws).head?, c = '_' := by
  cases ws with
  | nil => exact nofun
  | cons w ws => rintro c ⟨⟩; rfl

theorem marked_inj {ws ws' : List String} (hws : ∀ w ∈ ws, IsMark w) (hws' : ∀ w ∈ ws', IsMark w)
    (h : marked ws = marked ws') : ws = ws' := by
  induction ws generalizing ws' with
  | nil =>
    cases ws' with
    | nil => rfl
    | cons w' ws' => exact nomatch h
  | cons w ws ih =>
    cases ws' with
    | nil => exact nomatch h
    | cons w' ws' =>
      rw [List.forall_mem_cons] at hws hws'
      have htail : w.toList ++ marked ws = w'.toList ++ marked ws' := (List.cons.inj h).2
      obtain ⟨hw, hrest⟩ := append_inj_of_notMem hws.1.1 hws'.1.1 (head?_marked ws)
        (head?_marked ws') htail
      rw [String.toList_inj.mp hw, ih hws.2 hws'.2 hrest]

/-- The last word of a text is told from all that stands before it. -/
theorem append_marked_concat_inj {xs ys : List Char} {ws ws' : List String} {w w' : String}
    (hw : IsMark w) (hw' : IsMark w')
    (h : xs ++ marked (ws ++ [w]) = ys ++ marked (ws' ++ [w'])) :
    w = w' ∧ xs ++ marked ws = ys ++ marked ws' := by
  have hlast : ∀ (xs : List Char) (ws : List String) (w : String),
      (xs ++ marked (ws ++ [w])).reverse = w.toList.reverse ++ '_' :: (xs ++ marked ws).reverse := by
    intro xs ws w
    simp [marked]
  have hback := congrArg List.reverse h
  rw [hlast, hlast] at hback
  obtain ⟨hword, hrest⟩ := append_inj_of_notMem (mt List.mem_reverse.mp hw.1)
    (mt List.mem_reverse.mp hw'.1) (x := '_') (by simp) (by simp) hback
  exact ⟨String.toList_inj.mp (List.reverse_inj.mp hword),
    List.reverse_inj.mp (List.cons.inj hrest).2⟩

/-- The part of a symbol that a word belongs to. -/
inductive SymbolPart where
  | dataType
  | kernel
  | channels
  | stride
  | padding
  | generic
  deriving DecidableEq, Repr

/-- The parameters in the order in which a symbol tells them. -/
def SymbolPart.all : List SymbolPart := [.dataType, .kernel, .channels, .stride, .padding, .generic]

/-- The leading letters of a word tell its parameter. -/
def SymbolPart.of (w : String) : SymbolPart :=
  match w.toList with
  | 'f' :: _ => .dataType
  | 's' :: 'a' :: _ => .dataType
  | 'k' :: 'r' :: _ => .padding
  | 'k' :: _ => .kernel
  | 'c' :: _ => .channels
  | 's' :: _ => .stride
  | 'n' :: _ => .padding
  | _ => .generic

def DataType.words : DataType → List String
  | .fx16 => ["fx16"]
  | .fx8 => ["fx8"]
  | .fx8w16d => ["fx8w16d"]
  | .sa8 => ["sa8"]
  | .sa8Sa8Sa32 => ["sa8", "sa8", "sa32"]

theorem DataType.marked_words (d : DataType) : marked d.words = '_' :: d.word.toList := by
  cases d <;> simp [marked, words, word]

theorem DataType.words_inj {d e : DataType} (heq : d.words = e.words) : d = e := by
  cases d <;> cases e <;> simp_all [words]

/-- An operation is told by its first letter. -/
theorem OpKind.eq_of_append_eq {o p : OpKind} {s t : List Char}
    (heq : o.word.toList ++ s = p.word.toList ++ t) : o = p := by
  have hletter : ∀ o : OpKind, ∀ s : List Char, OpKind.all.find?
      (fun p => p.word.toList.head? = (o.word.toList ++ s).head?) = some o := by
    intro o s
    cases o <;> rfl
  have hop := hletter o s
  rw [heq, hletter p t] at hop
  exact (Option.some.inj hop).symm

namespace Variant
open Text (decimal)

/-- One side of the kernel, fixed or open. -/
def sideWord (n : UInt32) : String := if n = 0 then "n" else decimal n

def kernelWords (w h : UInt32) : List String :=
  if w = 0 ∧ h = 0 then [] else ["k" ++ sideWord w ++ "x" ++ sideWord h]

def channelsWords (n : UInt32) : List String := if n = 0 then [] else ["ch" ++ decimal n]

def strideWords (w h : UInt32) : List String :=
  if w = 0 then (if h = 0 then [] else ["strh" ++ decimal h])
  else if w = h then ["str" ++ decimal w]
  else ("strw" ++ decimal w) :: (if h = 0 then [] else ["strh" ++ decimal h])

def paddingWords (p : Padding) : List String := if p = .any then [] else [p.word]

def genericWords (generic : Bool) : List String := if generic then ["generic"] else []

/-- The words that tell one parameter in a symbol. -/
def part (v : Variant) : SymbolPart → List String
  | .dataType => v.identity.dataType.words
  | .kernel => kernelWords v.kernelW v.kernelH
  | .channels => channelsWords v.channels
  | .stride => strideWords v.strideW v.strideH
  | .padding => paddingWords v.padding
  | .generic => genericWords v.generic

/-- The words of a symbol behind the layout. -/
def words (v : Variant) : List String := SymbolPart.all.flatMap v.part

/-- What follows the group in a symbol. -/
def tail (v : Variant) : List Char :=
  v.identity.op.word.toList ++ '_' :: (v.identity.layout.word.toList ++ marked v.words)

theorem toList_kernelPart (w h : UInt32) : (kernelPart w h).toList = marked (kernelWords w h) := by
  unfold kernelPart kernelWords sideWord
  split_ifs <;> simp_all [marked]

theorem toList_channelsPart (n : UInt32) :
    (channelsPart n).toList = marked (channelsWords n) := by
  unfold channelsPart channelsWords
  split_ifs <;> simp [marked]

theorem toList_stridePart (w h : UInt32) : (stridePart w h).toList = marked (strideWords w h) := by
  unfold stridePart strideWords
  split_ifs <;> simp [marked]

theorem toList_paddingPart (p : Padding) : (paddingPart p).toList = marked (paddingWords p) := by
  unfold paddingPart paddingWords
  split_ifs <;> simp [marked]

theorem toList_genericPart (generic : Bool) :
    (if generic then "_generic" else "").toList = marked (genericWords generic) := by
  cases generic <;> simp [marked, genericWords]

theorem toList_symbol (v : Variant) :
    v.symbol.toList = "mli".toList ++ (if v.debug then "_debug" else "").toList ++
      '_' :: (v.identity.group.toList ++ '_' :: v.tail) := by
  have hgeneric := toList_genericPart v.generic
  unfold symbol
  simp only [String.toList_append, hgeneric, toList_kernelPart, toList_channelsPart,
    toList_stridePart, toList_paddingPart, tail, words, SymbolPart.all, part, List.flatMap_cons,
    List.flatMap_nil, marked_append, DataType.marked_words]
  simp [marked]

theorem isMark_sideWord (n : UInt32) : IsMark (sideWord n) := by
  unfold sideWord
  split_ifs
  · decide
  · exact Text.isMark_decimal n

theorem sideWord_inj {m n : UInt32} : sideWord m = sideWord n ↔ m = n := by
  have hne : ∀ n : UInt32, "n" ≠ decimal n := by
    intro n h
    have hmem : 'n' ∈ (decimal n).toList := by
      rw [← h]
      decide
    exact absurd (Text.isDigit_of_mem_decimal hmem) (by decide)
  unfold sideWord
  split_ifs with hm hn hn
  · simp [hm, hn]
  · simp [hm, hne, Ne.symm hn]
  · simp [hn, hm, (hne m).symm]
  · exact Text.decimal_inj

/-- The first letter of a side is a digit or stands for an open side. -/
theorem sideWord_eq_cons (n : UInt32) :
    ∃ c cs, (sideWord n).toList = c :: cs ∧ c ≠ 'r' := by
  unfold sideWord
  split_ifs
  · exact ⟨'n', [], rfl, by decide⟩
  · obtain ⟨c, cs, hd⟩ := List.exists_cons_of_ne_nil
      (mt String.toList_eq_nil_iff.mp (Nat.repr_ne_empty : decimal n ≠ ""))
    have hdigit : c.isDigit = true := Text.isDigit_of_mem_decimal (hd ▸ List.mem_cons_self)
    refine ⟨c, cs, hd, ?_⟩
    rintro rfl
    exact absurd hdigit (by decide)

/-- Every word of a part is a mark that tells the parameter of the part. -/
def Tells (s : SymbolPart) (ws : List String) : Prop := ∀ w ∈ ws, IsMark w ∧ SymbolPart.of w = s

theorem tells_dataTypeWords (d : DataType) : Tells .dataType d.words := by
  unfold Tells
  cases d <;> decide

theorem tells_kernelWords (w h : UInt32) : Tells .kernel (kernelWords w h) := by
  unfold Tells kernelWords
  split_ifs
  · exact nofun
  · rw [List.forall_mem_singleton]
    constructor
    · have hk : IsMark "k" := by decide
      have hx : IsMark "x" := by decide
      exact ((hk.append (isMark_sideWord w)).append hx).append (isMark_sideWord h)
    · obtain ⟨c, cs, hside, hc⟩ := sideWord_eq_cons w
      simp [SymbolPart.of, String.toList_append, hside, hc]

theorem tells_channelsWords (n : UInt32) : Tells .channels (channelsWords n) := by
  unfold Tells channelsWords
  split_ifs
  · exact nofun
  · rw [List.forall_mem_singleton]
    have hch : IsMark "ch" := by decide
    exact ⟨hch.append (Text.isMark_decimal n), by simp [SymbolPart.of]⟩

theorem tells_strideWords (w h : UInt32) : Tells .stride (strideWords w h) := by
  have hboth : IsMark "str" := by decide
  have hw : IsMark "strw" := by decide
  have hh : IsMark "strh" := by decide
  unfold Tells strideWords
  split_ifs <;>
    simp [SymbolPart.of, hboth.append (Text.isMark_decimal w), hw.append (Text.isMark_decimal w),
      hh.append (Text.isMark_decimal h)]

theorem tells_paddingWords (p : Padding) : Tells .padding (paddingWords p) := by
  unfold Tells
  cases p <;> decide

theorem tells_genericWords (generic : Bool) : Tells .generic (genericWords generic) := by
  unfold Tells
  cases generic <;> decide

theorem tells_part (v : Variant) (s : SymbolPart) : Tells s (v.part s) := by
  cases s with
  | dataType => exact tells_dataTypeWords v.identity.dataType
  | kernel => exact tells_kernelWords v.kernelW v.kernelH
  | channels => exact tells_channelsWords v.channels
  | stride => exact tells_strideWords v.strideW v.strideH
  | padding => exact tells_paddingWords v.padding
  | generic => exact tells_genericWords v.generic

theorem isMark_of_mem_words {v : Variant} {w : String} (hw : w ∈ v.words) : IsMark w := by
  obtain ⟨s, -, hs⟩ := List.mem_flatMap.mp hw
  exact (tells_part v s w hs).1

/-- The words of a parameter are found in a symbol by what they tell. -/
theorem filter_words (v : Variant) (s : SymbolPart) :
    v.words.filter (fun w => SymbolPart.of w = s) = v.part s := by
  have hpart : ∀ t, (v.part t).filter (fun w => SymbolPart.of w = s) =
      if t = s then v.part t else [] := by
    intro t
    split_ifs with hts
    · exact List.filter_eq_self.mpr fun w hw =>
        decide_eq_true ((tells_part v t w hw).2.trans hts)
    · refine List.filter_eq_nil_iff.mpr fun w hw h => hts ?_
      exact (tells_part v t w hw).2.symm.trans (of_decide_eq_true h)
  simp only [words, SymbolPart.all, List.flatMap_cons, List.flatMap_nil, List.filter_append, hpart]
  cases s <;> simp

theorem part_eq_of_words_eq {u v : Variant} (h : u.words = v.words) (s : SymbolPart) :
    u.part s = v.part s := by
  rw [← filter_words u s, h, filter_words]

theorem kernelWords_inj {w h w' h' : UInt32} (heq : kernelWords w h = kernelWords w' h') :
    w = w' ∧ h = h' := by
  unfold kernelWords at heq
  split_ifs at heq with hopen hopen'
  · exact ⟨hopen.1.trans hopen'.1.symm, hopen.2.trans hopen'.2.symm⟩
  · have hx : ∀ n, 'x' ∉ (sideWord n).toList := by
      intro n hmem
      unfold sideWord at hmem
      split_ifs at hmem
      · exact absurd hmem (by decide)
      · exact absurd (Text.isDigit_of_mem_decimal hmem) (by decide)
    have hlist := congrArg String.toList (List.singleton_inj.mp heq)
    simp only [String.toList_append, List.append_assoc] at hlist
    obtain ⟨hw, hrest⟩ := append_inj_of_notMem (hx w) (hx w') (x := 'x') (by simp) (by simp)
      (List.append_cancel_left hlist)
    exact ⟨sideWord_inj.mp (String.toList_inj.mp hw),
      sideWord_inj.mp (String.toList_inj.mp (List.append_cancel_left hrest))⟩

theorem paddingWords_inj {p q : Padding} (heq : paddingWords p = paddingWords q) : p = q := by
  cases p <;> cases q <;> simp_all [paddingWords, Padding.word]

theorem genericWords_inj {b c : Bool} (heq : genericWords b = genericWords c) : b = c := by
  cases b <;> cases c <;> simp_all [genericWords]

theorem channelsWords_inj {m n : UInt32} (heq : channelsWords m = channelsWords n) : m = n := by
  unfold channelsWords at heq
  split_ifs at heq with hm hn
  · exact hm.trans hn.symm
  · exact Text.decimal_inj.mp ((String.append_right_inj _).mp (List.singleton_inj.mp heq))

theorem strideWords_inj {w h w' h' : UInt32} (heq : strideWords w h = strideWords w' h') :
    w = w' ∧ h = h' := by
  have hnumbered : ∀ {s t : String} {m n : UInt32}, s ∈ ["str", "strw", "strh"] →
      t ∈ ["str", "strw", "strh"] → (s ++ decimal m = t ++ decimal n ↔ s = t ∧ m = n) := by
    intro s t m n hs ht
    have hletters : ∀ s ∈ ["str", "strw", "strh"], ∀ c ∈ s.toList, c.isDigit = false := by
      simp
    exact Text.append_decimal_inj (hletters s hs) (hletters t ht)
  unfold strideWords at heq
  split_ifs at heq <;> simp_all

/-- The letter `b` occurs in no word but the mark of a debug variant. -/
theorem notMem_tail (v : Variant) : 'b' ∉ v.tail := by
  have hop : ∀ op : OpKind, 'b' ∉ op.word.toList := by
    intro op
    cases op <;> decide
  have hlayout : ∀ layout : Layout, 'b' ∉ layout.word.toList := by
    intro layout
    cases layout <;> decide
  have hwords : 'b' ∉ marked v.words := by
    intro hmem
    obtain ⟨w, hw, hb⟩ := List.mem_flatMap.mp hmem
    rcases List.mem_cons.mp hb with hb | hb
    · exact absurd hb (by decide)
    · exact (isMark_of_mem_words hw).2 hb
  simp only [tail, List.mem_append, List.mem_cons, not_or]
  exact ⟨hop _, by decide, hlayout _, hwords⟩

theorem count_symbol (v : Variant) :
    v.symbol.toList.count 'b' = v.debug.toNat + v.identity.group.toList.count 'b' := by
  have htail := List.count_eq_zero.mpr v.notMem_tail
  have hdebug : (if v.debug then "_debug" else "").toList.count 'b' = v.debug.toNat := by
    cases v.debug <;> decide
  rw [toList_symbol]
  simp [htail, hdebug]

theorem tail_inj {u v : Variant} (h : u.tail = v.tail) :
    u.identity.op = v.identity.op ∧ u.identity.layout = v.identity.layout ∧ u.words = v.words := by
  have hop : u.identity.op = v.identity.op := OpKind.eq_of_append_eq h
  unfold tail at h
  rw [hop] at h
  have hrest := (List.cons.inj (List.append_cancel_left h)).2
  have hmark : ∀ layout : Layout, '_' ∉ layout.word.toList := by
    intro layout
    cases layout <;> decide
  obtain ⟨hlayout, hwords⟩ := append_inj_of_notMem (hmark _) (hmark _) (head?_marked u.words)
    (head?_marked v.words) hrest
  exact ⟨hop, Tag.word_inj (String.toList_inj.mp hlayout),
    marked_inj (fun _ => isMark_of_mem_words) (fun _ => isMark_of_mem_words) hwords⟩

/-- A text that ends in the words of a data type is none that ends in another word. -/
theorem append_marked_ne {xs ys : List Char} {ds ws : List String} {w : String}
    (hds : Tells .dataType ds) (hne : ds ≠ []) (hw : IsMark w ∧ SymbolPart.of w ≠ .dataType) :
    xs ++ marked ds ≠ ys ++ marked (ws ++ [w]) := by
  intro h
  obtain ⟨hmark, htells⟩ := hds _ (List.getLast_mem hne)
  rw [← List.dropLast_append_getLast hne] at h
  rw [(append_marked_concat_inj hmark hw.1 h).1] at htells
  exact hw.2 htells

/-- The words behind the data type are told from the end of a text, whatever the text begins with. -/
theorem eq_of_append_marked_eq {xs ys : List Char} {ds ds' ws ws' : List String}
    (hds : Tells .dataType ds) (hds' : Tells .dataType ds') (hne : ds ≠ []) (hne' : ds' ≠ [])
    (hws : ∀ w ∈ ws, IsMark w ∧ SymbolPart.of w ≠ .dataType)
    (hws' : ∀ w ∈ ws', IsMark w ∧ SymbolPart.of w ≠ .dataType)
    (h : xs ++ marked (ds ++ ws) = ys ++ marked (ds' ++ ws')) : ws = ws' := by
  induction ws using List.reverseRecOn generalizing ws' with
  | nil =>
    cases ws' using List.reverseRecOn with
    | nil => rfl
    | append_singleton ws' w' =>
      rw [List.append_nil, ← List.append_assoc] at h
      exact absurd h (append_marked_ne hds hne (hws' w' (by simp)))
  | append_singleton ws w ih =>
    cases ws' using List.reverseRecOn with
    | nil =>
      rw [List.append_nil, ← List.append_assoc] at h
      exact absurd h.symm (append_marked_ne hds' hne' (hws w (by simp)))
    | append_singleton ws' w' =>
      rw [← List.append_assoc, ← List.append_assoc] at h
      obtain ⟨rfl, hrest⟩ :=
        append_marked_concat_inj (hws w (by simp)).1 (hws' w' (by simp)).1 h
      rw [ih (fun w hw => hws w (by simp [hw])) (fun w hw => hws' w (by simp [hw])) hrest]

/-- The words of a symbol behind the data type. -/
def laterWords (v : Variant) : List String := SymbolPart.all.tail.flatMap v.part

theorem words_eq_append (v : Variant) : v.words = v.identity.dataType.words ++ v.laterWords := rfl

theorem of_ne_of_mem_laterWords {v : Variant} {w : String} (hw : w ∈ v.laterWords) :
    IsMark w ∧ SymbolPart.of w ≠ .dataType := by
  obtain ⟨s, hs, hmem⟩ := List.mem_flatMap.mp hw
  obtain ⟨hmark, htells⟩ := tells_part v s w hmem
  refine ⟨hmark, ?_⟩
  rw [htells]
  rintro rfl
  exact absurd hs (by decide)

theorem filter_laterWords (v : Variant) {s : SymbolPart} (hs : s ≠ .dataType) :
    v.laterWords.filter (fun w => SymbolPart.of w = s) = v.part s := by
  have hdata : v.identity.dataType.words.filter (fun w => SymbolPart.of w = s) = [] := by
    refine List.filter_eq_nil_iff.mpr fun w hw h => hs ?_
    exact (of_decide_eq_true h).symm.trans (tells_dataTypeWords _ w hw).2
  rw [← filter_words v s, words_eq_append, List.filter_append, hdata, List.nil_append]

theorem exists_toList_symbol (v : Variant) :
    ∃ xs, v.symbol.toList = xs ++ marked (v.identity.dataType.words ++ v.laterWords) := by
  rw [toList_symbol, tail, words_eq_append]
  refine ⟨"mli".toList ++ (if v.debug then "_debug" else "").toList ++ '_' ::
    (v.identity.group.toList ++ '_' ::
      (v.identity.op.word.toList ++ '_' :: v.identity.layout.word.toList)), ?_⟩
  simp only [List.append_assoc, List.cons_append]

/-- Even in different groups equal symbols tell the same parameters behind the data type. -/
theorem part_eq_of_symbol_eq {u v : Variant} (h : u.symbol = v.symbol) {s : SymbolPart}
    (hs : s ≠ .dataType) : u.part s = v.part s := by
  have hdata : ∀ d : DataType, d.words ≠ [] := by
    intro d
    cases d <;> decide
  obtain ⟨xs, hu⟩ := exists_toList_symbol u
  obtain ⟨ys, hv⟩ := exists_toList_symbol v
  rw [h, hv] at hu
  have hwords : v.laterWords = u.laterWords :=
    eq_of_append_marked_eq (tells_dataTypeWords _) (tells_dataTypeWords _) (hdata _) (hdata _)
      (fun _ => of_ne_of_mem_laterWords) (fun _ => of_ne_of_mem_laterWords) hu
  rw [← filter_laterWords u hs, ← filter_laterWords v hs, hwords]

/-- Even in different groups equal symbols tell the same values and the same restriction of the
padding. -/
theorem value_eq_of_symbol_eq {u v : Variant} (h : u.symbol = v.symbol) :
    (∀ f, u.value f = v.value f) ∧ u.padding = v.padding := by
  obtain ⟨hkw, hkh⟩ := kernelWords_inj (part_eq_of_symbol_eq h (s := .kernel) (by decide))
  obtain ⟨hsw, hsh⟩ := strideWords_inj (part_eq_of_symbol_eq h (s := .stride) (by decide))
  have hch := channelsWords_inj (part_eq_of_symbol_eq h (s := .channels) (by decide))
  have hpadding := paddingWords_inj (part_eq_of_symbol_eq h (s := .padding) (by decide))
  refine ⟨fun f => ?_, hpadding⟩
  cases f with
  | strideW => exact hsw
  | strideH => exact hsh
  | kernelW => exact hkw
  | kernelH => exact hkh
  | channels => exact hch

/-- Within a group the symbol of a variant tells all that the symbol depends on. -/
theorem symbol_eq_symbol_iff {u v : Variant} (h : u.identity.group = v.identity.group) :
    u.symbol = v.symbol ↔
      u.identity.op = v.identity.op ∧ u.identity.layout = v.identity.layout ∧
      u.identity.dataType = v.identity.dataType ∧ u.kernelW = v.kernelW ∧
      u.kernelH = v.kernelH ∧ u.channels = v.channels ∧ u.strideW = v.strideW ∧
      u.strideH = v.strideH ∧ u.padding = v.padding ∧ u.generic = v.generic ∧
      u.debug = v.debug := by
  constructor
  · intro hsymbol
    have hdebug : u.debug = v.debug := by
      have hcount : u.debug.toNat = v.debug.toNat := by
        have hu := u.count_symbol
        rw [hsymbol, v.count_symbol, h] at hu
        omega
      revert hcount
      cases u.debug <;> cases v.debug <;> decide
    have htail : u.tail = v.tail := by
      have hlist := congrArg String.toList hsymbol
      rw [toList_symbol, toList_symbol, hdebug, h] at hlist
      have hgroup := (List.cons.inj (List.append_cancel_left hlist)).2
      exact (List.cons.inj (List.append_cancel_left hgroup)).2
    obtain ⟨hop, hlayout, hwords⟩ := tail_inj htail
    have hpart := part_eq_of_words_eq hwords
    obtain ⟨hkw, hkh⟩ := kernelWords_inj (hpart .kernel)
    obtain ⟨hsw, hsh⟩ := strideWords_inj (hpart .stride)
    exact ⟨hop, hlayout, DataType.words_inj (hpart .dataType), hkw, hkh,
      channelsWords_inj (hpart .channels), hsw, hsh, paddingWords_inj (hpart .padding),
      genericWords_inj (hpart .generic), hdebug⟩
  · rintro ⟨hop, hlayout, hdata, hkw, hkh, hch, hsw, hsh, hpadding, hgeneric, hdebug⟩
    unfold symbol
    rw [h, hop, hlayout, hdata, hkw, hkh, hch, hsw, hsh, hpadding, hgeneric, hdebug]

/-- A group that reads like the mark of a debug variant hides no debug variant. -/
theorem symbol_eq_symbol_iff_debug_group :
    let identity : Identity := ⟨"debug_krn", .avePool, .hwc, .sa8, []⟩
    let plain : Variant := { identity, strideW := 1, strideH := 1 }
    let debug : Variant := { identity, strideW := 1, strideH := 1, debug := true }
    plain.identity.group = debug.identity.group ∧ plain.symbol ≠ debug.symbol := by
  intro identity plain debug
  have hgroup : plain.identity.group = debug.identity.group := rfl
  refine ⟨hgroup, fun hsymbol => ?_⟩
  obtain ⟨-, -, -, -, -, -, -, -, -, -, hdebug⟩ := (symbol_eq_symbol_iff hgroup).mp hsymbol
  exact Bool.noConfusion hdebug

end Variant
end KernelDispatch
