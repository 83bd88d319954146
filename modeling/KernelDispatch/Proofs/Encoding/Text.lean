import KernelDispatch.Json.Printer
import KernelDispatch.Json.Reader
import KernelDispatch.Text.Number
import Mathlib

/-! Json text read back: what the printer writes for a value, the reader takes for that value. -/
namespace KernelDispatch.Json
open Text (isDigit_of_mem_repr)

/-- A text that a number can stand in front of, because it does not go on with the number. -/
def EndsNumber (cs : List Char) : Prop :=
  ∀ c ∈ cs.head?, c.isDigit = false ∧ c ≠ '.' ∧ c ≠ 'e' ∧ c ≠ 'E'

namespace Literal

theorem repr_ne_nil (n : Nat) : n.repr.toList ≠ [] := by
  rw [Nat.toList_repr]
  exact Nat.toDigits_ne_nil

theorem natural_repr (n : Nat) : natural n.repr.toList = n := by
  have hread : Nat.ofDigitChars 10 (Nat.toDigits 10 n) 0 = n :=
    Nat.ofDigitChars_toDigits (by decide) (by decide)
  unfold natural
  unfold Nat.ofDigitChars at hread
  simpa only [Nat.toList_repr, Nat.mul_comm] using hread

/-- Only zero is written with a zero in front. -/
theorem eq_zero_of_head?_repr {n : Nat} (h : n.repr.toList.head? = some '0') : n = 0 := by
  rw [Nat.toList_repr] at h
  induction n using Nat.strongRecOn with
  | ind n ih =>
    by_cases hn : n < 10
    · rw [Nat.toDigits_of_lt_base hn] at h
      exact Nat.digitChar_eq_zero.mp (Option.some.inj h)
    · rw [Nat.toDigits_of_base_le (by decide) (by omega),
        List.head?_append_of_ne_nil _ Nat.toDigits_ne_nil] at h
      have hzero : n / 10 = 0 := ih (n / 10) (by omega) h
      omega

theorem digits?_append {ds rest : List Char} (hds : ∀ c ∈ ds, c.isDigit = true) (hne : ds ≠ [])
    (hrest : EndsNumber rest) : digits? (ds ++ rest) = some (ds, rest) := by
  have htake : (ds ++ rest).takeWhile Char.isDigit = ds := by
    rw [List.takeWhile_append_of_pos hds]
    cases rest with
    | nil => exact List.append_nil ds
    | cons c cs => rw [List.takeWhile_cons_of_neg (by simp [(hrest c rfl).1]), List.append_nil]
  have hdrop : (ds ++ rest).dropWhile Char.isDigit = rest := by
    rw [List.dropWhile_append_of_pos hds]
    cases rest with
    | nil => rfl
    | cons c cs => rw [List.dropWhile_cons_of_neg (by simp [(hrest c rfl).1])]
  unfold digits?
  rw [htake, hdrop]
  cases ds with
  | nil => exact absurd rfl hne
  | cons d ds => rfl

theorem whole?_repr (n : Nat) {rest : List Char} (hrest : EndsNumber rest) :
    whole? (n.repr.toList ++ rest) = some (n.repr.toList, rest) := by
  have hzero : ¬ (n.repr.toList.head? = some '0' ∧ n.repr.toList ≠ ['0']) := by
    rintro ⟨hhead, hne⟩
    obtain rfl := eq_zero_of_head?_repr hhead
    exact hne rfl
  unfold whole?
  rw [digits?_append (fun _ => isDigit_of_mem_repr) (repr_ne_nil n) hrest]
  exact if_neg hzero

theorem fraction?_of_endsNumber {rest : List Char} (hrest : EndsNumber rest) :
    fraction? rest = some (none, rest) := by
  unfold fraction?
  split
  · exact absurd rfl (hrest '.' rfl).2.1
  · rfl

theorem exponent?_of_endsNumber {rest : List Char} (hrest : EndsNumber rest) :
    exponent? rest = some (none, rest) := by
  unfold exponent?
  split
  · exact absurd rfl (hrest 'e' rfl).2.2.1
  · exact absurd rfl (hrest 'E' rfl).2.2.2
  · rfl

/-- The first character of a number is a digit. -/
theorem repr_append_ne (n : Nat) {c : Char} (hc : c.isDigit = false) (rest cs : List Char) :
    n.repr.toList ++ rest ≠ c :: cs := by
  intro h
  cases hd : n.repr.toList with
  | nil => exact absurd hd (repr_ne_nil n)
  | cons d ds =>
    have hdigit : d.isDigit = true := isDigit_of_mem_repr (hd ▸ List.mem_cons_self)
    rw [hd, List.cons_append] at h
    rw [(List.cons.inj h).1, hc] at hdigit
    exact Bool.noConfusion hdigit

theorem read?_repr (n : Nat) {rest : List Char} (hrest : EndsNumber rest) :
    read? (n.repr.toList ++ rest) = some (⟨false, n.repr.toList, none, none⟩, rest) := by
  unfold read?
  split
  next negative cs hsign =>
    split at hsign
    · next digits h => exact absurd h (repr_append_ne n (by decide) rest digits)
    · obtain ⟨rfl, rfl⟩ := Prod.mk.inj hsign
      simp only [whole?_repr n hrest, fraction?_of_endsNumber hrest,
        exponent?_of_endsNumber hrest, Option.bind_eq_bind, Option.bind_some, Option.pure_def]

end Literal

theorem readNumber_repr {n : Nat} (hn : n ≤ Literal.maxWord) {rest : List Char}
    (hrest : EndsNumber rest) : readNumber (n.repr.toList ++ rest) = (.integer n, some rest) := by
  unfold readNumber
  rw [Literal.read?_repr n hrest]
  simp only [Literal.value?, Literal.natural_repr]
  simp [hn]

namespace Quoted

theorem hex?_hexChar {n : Nat} (h : n < 0x20) :
    hex? '0' '0' (hexChar (n / 16)) (hexChar n) = some n := by
  have hall : ∀ n < 0x20, hex? '0' '0' (hexChar (n / 16)) (hexChar n) = some n := by decide
  exact hall n h

/-- A written character is read as that character. -/
theorem read?_writeChar (c : Char) (cs : List Char) :
    read? (writeChar c ++ cs) = (read? cs).map fun (s, rest) => (c :: s, rest) := by
  unfold writeChar
  split
  case h_8 hquote hslash hb hf hn hr ht =>
    split_ifs with hcontrol
    · have hlow : isLowSurrogate c.toNat = false := by
        unfold isLowSurrogate
        rw [decide_eq_false (by omega), Bool.false_and]
      have hhigh : isHighSurrogate c.toNat = false := by
        unfold isHighSurrogate
        rw [decide_eq_false (by omega), Bool.false_and]
      change read? ('\\' :: 'u' :: '0' :: '0' :: _ :: _ :: cs) = _
      rw [read?]
      simp [hex?_hexChar hcontrol, hlow, hhigh]
    · change read? (c :: cs) = _
      rw [read?, if_neg (not_or.mpr ⟨hslash, hcontrol⟩)]
      · exact hquote
      · exact fun _ _ _ _ _ h => absurd h hslash
      · exact fun _ _ h => absurd h hslash
  all_goals simp [read?, unescape?]

/-- The characters of a written text are read back up to its closing quote. -/
theorem read?_flatMap_writeChar (s rest : List Char) :
    read? (s.flatMap writeChar ++ '"' :: rest) = some (s, rest) := by
  induction s with
  | nil => rw [List.flatMap_nil, List.nil_append, read?]
  | cons c cs ih => rw [List.flatMap_cons, List.append_assoc, read?_writeChar, ih, Option.map_some]

end Quoted

/-- A value that its text gives back when at most `depth` arrays and objects may be entered. -/
inductive Plain : (depth : Nat) → Json → Prop
  | null {depth : Nat} : Plain depth .null
  | natural {depth n : Nat} (h : n ≤ Literal.maxWord) : Plain depth (.integer n)
  | string {depth : Nat} (s : String) : Plain depth (.string s)
  | array {depth : Nat} {items : List Json} (h : ∀ j ∈ items, Plain depth j) :
    Plain (depth + 1) (.array items true)
  | object {depth : Nat} {members : List (String × Json)} (h : ∀ m ∈ members, Plain depth m.2) :
    Plain (depth + 1) (.object members true)

theorem Plain.mono {depth depth' : Nat} {j : Json} (h : Plain depth j) (hle : depth ≤ depth') :
    Plain depth' j := by
  induction h generalizing depth' with
  | null => exact .null
  | natural hn => exact .natural hn
  | string s => exact .string s
  | array _ ih =>
    cases depth' with
    | zero => exact absurd hle (Nat.not_succ_le_zero _)
    | succ depth' => exact .array fun j hj => ih j hj (Nat.le_of_succ_le_succ hle)
  | object _ ih =>
    cases depth' with
    | zero => exact absurd hle (Nat.not_succ_le_zero _)
    | succ depth' => exact .object fun m hm => ih m hm (Nat.le_of_succ_le_succ hle)

theorem chars_natural (n : Nat) : (Json.integer n).chars = n.repr.toList := by
  simp [chars]

/-- A text that starts with a character that is neither white space nor a closing bracket. -/
def StartsValue (cs : List Char) : Prop :=
  ∃ c rest, cs = c :: rest ∧ isSpace c = false ∧ c ≠ ']' ∧ c ≠ '\x7d'

theorem skip_cons {c : Char} (hc : isSpace c = false) (cs : List Char) : skip (c :: cs) = c :: cs :=
  List.dropWhile_cons_of_neg (by simp [hc])

theorem skip_of_startsValue {cs : List Char} (h : StartsValue cs) : skip cs = cs := by
  obtain ⟨c, rest, rfl, hc, -⟩ := h
  exact skip_cons hc rest

theorem StartsValue.append {cs : List Char} (h : StartsValue cs) (rest : List Char) :
    StartsValue (cs ++ rest) := by
  obtain ⟨c, more, rfl, hc⟩ := h
  exact ⟨c, more ++ rest, rfl, hc⟩

theorem startsValue_repr (n : Nat) : StartsValue n.repr.toList := by
  obtain ⟨d, ds, hd⟩ := List.exists_cons_of_ne_nil (Literal.repr_ne_nil n)
  have hdigit : d.isDigit = true := isDigit_of_mem_repr (hd ▸ List.mem_cons_self)
  have hne : ∀ c, c.isDigit = false → d ≠ c := by
    rintro c hc rfl
    exact Bool.noConfusion (hdigit.symm.trans hc)
  refine ⟨d, ds, hd, ?_, hne _ (by decide), hne _ (by decide)⟩
  simp [isSpace, hne ' ' (by decide), hne '\n' (by decide), hne '\t' (by decide),
    hne '\r' (by decide)]

theorem readValue_repr {fuel depth n : Nat} (hn : n ≤ Literal.maxWord) {rest : List Char}
    (hrest : EndsNumber rest) :
    readValue (fuel + 1) depth (n.repr.toList ++ rest) = (.integer n, some rest) := by
  have hne : ∀ {c cs}, c.isDigit = false → n.repr.toList ++ rest ≠ c :: cs :=
    fun hc => Literal.repr_append_ne n hc rest _
  rw [readValue, skip_of_startsValue ((startsValue_repr n).append rest)]
  split
  case h_7 => exact readNumber_repr hn hrest
  all_goals
    next h => exact absurd h (hne (by decide))

theorem skip_write (s : String) (rest : List Char) :
    skip (Quoted.write s ++ rest) = '"' :: (s.toList.flatMap Quoted.writeChar ++ '"' :: rest) := by
  have htext : Quoted.write s ++ rest =
      '"' :: (s.toList.flatMap Quoted.writeChar ++ '"' :: rest) := by
    simp [Quoted.write]
  rw [htext, skip_cons rfl]

theorem readValue_string (fuel depth : Nat) (s : String) (rest : List Char) :
    readValue (fuel + 1) depth (Quoted.write s ++ rest) = (.string s, some rest) := by
  have hread := Quoted.read?_flatMap_writeChar s.toList rest
  rw [readValue, skip_write]
  simp only [hread, String.ofList_toList]

theorem endsNumber_cons {c : Char} (h : c.isDigit = false ∧ c ≠ '.' ∧ c ≠ 'e' ∧ c ≠ 'E')
    (rest : List Char) : EndsNumber (c :: rest) := by
  rintro _ ⟨⟩
  exact h

/-- Reading the text of a value gives the value back, whatever follows the text. -/
structure ReadsBack (depth : Nat) (j : Json) : Prop where
  starts : StartsValue j.chars
  -- The reader takes a step for a value and one for the list that it is in, and each of the two has
  -- a character of its own.
  read : ∀ fuel rest, 2 * j.chars.length ≤ fuel → EndsNumber rest →
    readValue fuel depth (j.chars ++ rest) = (j, some rest)

theorem readsBack_of_succ {depth : Nat} {j : Json} (hstarts : StartsValue j.chars)
    (hread : ∀ fuel rest, 2 * j.chars.length ≤ fuel + 1 → EndsNumber rest →
      readValue (fuel + 1) depth (j.chars ++ rest) = (j, some rest)) : ReadsBack depth j := by
  refine ⟨hstarts, fun fuel rest hfuel hrest => ?_⟩
  obtain ⟨c, more, hchars, -⟩ := hstarts
  have hpos : fuel ≠ 0 := by
    rw [hchars, List.length_cons] at hfuel
    omega
  obtain ⟨fuel, rfl⟩ := Nat.exists_eq_succ_of_ne_zero hpos
  exact hread fuel rest hfuel hrest

theorem startsValue_itemChars {depth : Nat} {j : Json} (h : ReadsBack depth j)
    (items : List Json) : StartsValue (itemChars (j :: items)) := by
  cases items with
  | nil => exact h.starts
  | cons => exact h.starts.append _

theorem readItems_itemChars {depth : Nat} {j : Json} {items : List Json}
    (hread : ∀ i ∈ j :: items, ReadsBack depth i) (fuel : Nat)
    (hfuel : 2 * (itemChars (j :: items)).length < fuel) (rest : List Char) :
    readItems fuel depth (itemChars (j :: items) ++ ']' :: rest) = (j :: items, some rest) := by
  induction items generalizing j fuel with
  | nil =>
    rw [itemChars] at hfuel ⊢
    obtain ⟨fuel, rfl⟩ := Nat.exists_eq_succ_of_ne_zero (Nat.ne_zero_of_lt hfuel)
    have hj := (hread j List.mem_cons_self).read fuel (']' :: rest) (by omega)
      (endsNumber_cons (by decide) rest)
    rw [readItems, hj]
    rfl
  | cons i items ih =>
    rw [List.forall_mem_cons] at hread
    have htext : itemChars (j :: i :: items) = j.chars ++ ',' :: itemChars (i :: items) := rfl
    rw [htext, List.length_append, List.length_cons] at hfuel
    obtain ⟨fuel, rfl⟩ := Nat.exists_eq_succ_of_ne_zero (Nat.ne_zero_of_lt hfuel)
    have hj := hread.1.read fuel (',' :: (itemChars (i :: items) ++ ']' :: rest)) (by omega)
      (endsNumber_cons (by decide) _)
    have hitems := ih hread.2 fuel (by omega)
    have hstart : StartsValue (itemChars (i :: items) ++ ']' :: rest) :=
      (startsValue_itemChars (hread.2 i List.mem_cons_self) items).append _
    have hskip := skip_of_startsValue hstart
    obtain ⟨c, more, hcons, -, hbracket, -⟩ := hstart
    rw [htext, List.append_assoc, List.cons_append, readItems, hj]
    simp only [skip_cons (c := ',') rfl, hskip]
    split
    · next h => exact absurd (List.cons.inj (hcons.symm.trans h)).1 hbracket
    · rw [hitems]

theorem startsValue_memberChars (m : String × Json) (members : List (String × Json)) :
    StartsValue (memberChars (m :: members)) := by
  cases members with
  | nil => exact ⟨'"', _, rfl, by decide⟩
  | cons => exact ⟨'"', _, rfl, by decide⟩

theorem readMembers_memberChars {depth : Nat} {m : String × Json} {members : List (String × Json)}
    (hread : ∀ n ∈ m :: members, ReadsBack depth n.2) (fuel : Nat)
    (hfuel : 2 * (memberChars (m :: members)).length < fuel) (rest : List Char) :
    readMembers fuel depth (memberChars (m :: members) ++ '\x7d' :: rest) =
      (m :: members, some rest) := by
  have hcolon := skip_cons (c := ':') rfl
  induction members generalizing m fuel with
  | nil =>
    obtain ⟨key, j⟩ := m
    have hj := (hread _ List.mem_cons_self).read
    have htext : memberChars [(key, j)] = Quoted.write key ++ ':' :: j.chars := rfl
    rw [htext, List.length_append, List.length_cons] at hfuel
    obtain ⟨fuel, rfl⟩ := Nat.exists_eq_succ_of_ne_zero (Nat.ne_zero_of_lt hfuel)
    have hvalue := hj fuel ('\x7d' :: rest) (by dsimp only; omega)
      (endsNumber_cons (by decide) rest)
    rw [htext, readMembers, List.append_assoc, List.cons_append, skip_write]
    simp only [Quoted.read?_flatMap_writeChar, hcolon, hvalue, String.ofList_toList]
    rfl
  | cons n members ih =>
    obtain ⟨key, j⟩ := m
    rw [List.forall_mem_cons] at hread
    have hj := hread.1.read
    have htext : memberChars ((key, j) :: n :: members) =
        Quoted.write key ++ ':' :: j.chars ++ ',' :: memberChars (n :: members) := rfl
    rw [htext, List.length_append, List.length_append, List.length_cons, List.length_cons] at hfuel
    obtain ⟨fuel, rfl⟩ := Nat.exists_eq_succ_of_ne_zero (Nat.ne_zero_of_lt hfuel)
    have hvalue := hj fuel (',' :: (memberChars (n :: members) ++ '\x7d' :: rest))
      (by dsimp only; omega) (endsNumber_cons (by decide) _)
    have hmembers := ih hread.2 fuel (by omega)
    rw [htext, readMembers, List.append_assoc, List.append_assoc, List.cons_append,
      List.cons_append, skip_write]
    simp only [Quoted.read?_flatMap_writeChar, hcolon, hvalue, String.ofList_toList,
      skip_cons (c := ',') rfl, hmembers]

theorem readsBack_array {depth : Nat} {items : List Json} (h : ∀ j ∈ items, ReadsBack depth j) :
    ReadsBack (depth + 1) (.array items true) := by
  refine readsBack_of_succ ⟨'[', _, rfl, by decide⟩ fun fuel rest hfuel _ => ?_
  cases items with
  | nil => rfl
  | cons j items =>
    have htext : (Json.array (j :: items) true).chars ++ rest =
        '[' :: (itemChars (j :: items) ++ ']' :: rest) := by
      simp [chars]
    have hlength : (Json.array (j :: items) true).chars.length =
        (itemChars (j :: items)).length + 2 := by
      simp [chars]
    have hitems := readItems_itemChars h fuel (by omega) rest
    have hstart : StartsValue (itemChars (j :: items) ++ ']' :: rest) :=
      (startsValue_itemChars (h j List.mem_cons_self) items).append _
    have hskip := skip_of_startsValue hstart
    obtain ⟨c, more, hcons, -, hbracket, -⟩ := hstart
    rw [htext, readValue]
    simp only [skip_cons (c := '[') rfl, hskip]
    split
    · next h => exact absurd (List.cons.inj (hcons.symm.trans h)).1 hbracket
    · rw [hitems]
      rfl

theorem readsBack_object {depth : Nat} {members : List (String × Json)}
    (h : ∀ m ∈ members, ReadsBack depth m.2) :
    ReadsBack (depth + 1) (.object members true) := by
  refine readsBack_of_succ ⟨'\x7b', _, rfl, by decide⟩ fun fuel rest hfuel _ => ?_
  cases members with
  | nil => rfl
  | cons m members =>
    have htext : (Json.object (m :: members) true).chars ++ rest =
        '\x7b' :: (memberChars (m :: members) ++ '\x7d' :: rest) := by
      simp [chars]
    have hlength : (Json.object (m :: members) true).chars.length =
        (memberChars (m :: members)).length + 2 := by
      simp [chars]
    have hmembers := readMembers_memberChars h fuel (by omega) rest
    have hstart : StartsValue (memberChars (m :: members) ++ '\x7d' :: rest) :=
      (startsValue_memberChars m members).append _
    have hskip := skip_of_startsValue hstart
    obtain ⟨c, more, hcons, -, -, hbrace⟩ := hstart
    rw [htext, readValue]
    simp only [skip_cons (c := '\x7b') rfl, hskip]
    split
    · next h => exact absurd (List.cons.inj (hcons.symm.trans h)).1 hbrace
    · rw [hmembers]
      rfl

theorem Plain.readsBack {depth : Nat} {j : Json} (h : Plain depth j) : ReadsBack depth j := by
  induction h with
  | null => exact readsBack_of_succ ⟨'n', _, rfl, by decide⟩ fun fuel rest _ _ => rfl
  | @natural depth n hn =>
    refine readsBack_of_succ (chars_natural n ▸ startsValue_repr n) fun fuel rest _ hrest => ?_
    rw [chars_natural]
    exact readValue_repr hn hrest
  | @string depth s =>
    exact readsBack_of_succ ⟨'"', _, rfl, by decide⟩ fun fuel rest _ _ =>
      readValue_string fuel depth s rest
  | array _ ih => exact readsBack_array ih
  | object _ ih => exact readsBack_object ih

/-- The text of a plain value is the text of that value and of nothing more. -/
theorem Plain.read_text {j : Json} (h : Plain maxDepth j) : read j.text = (j, true) := by
  have hread := h.readsBack.read (2 * j.chars.length + 2) [] (by omega) nofun
  rw [List.append_nil] at hread
  unfold read text
  rw [String.toList_ofList]
  dsimp only
  rw [hread]
  rfl

end KernelDispatch.Json
