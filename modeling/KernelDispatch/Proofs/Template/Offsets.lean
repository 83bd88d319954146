import KernelDispatch.Proofs.Template.Pieces

/-! Templates scanned by byte offsets. No cut is inside a character, and the scan ends with the pieces
of the template. -/
namespace KernelDispatch
open String (utf8Len)

namespace Text

/-- The part of a text between two byte offsets. There is none if the offsets are out of order, or if
one of them is inside a character or behind the end. -/
def slice? (s : String) (start stop : Nat) : Option String :=
  if String.Pos.Raw.IsValid s ⟨start⟩ ∧ String.Pos.Raw.IsValid s ⟨stop⟩ ∧ start ≤ stop then
    some (String.Pos.Raw.extract s ⟨start⟩ ⟨stop⟩)
  else none

theorem isValid_utf8Len (as bs : List Char) :
    String.Pos.Raw.IsValid (.ofList (as ++ bs)) ⟨utf8Len as⟩ := by
  refine String.Pos.Raw.isValid_iff_exists_append.mpr ⟨.ofList as, .ofList bs, ?_, ?_⟩
  · exact String.ofList_append
  · rw [String.Pos.Raw.ext_iff, String.byteIdx_rawEndPos, String.utf8ByteSize_ofList]

theorem slice?_append (as bs cs : List Char) :
    slice? (.ofList (as ++ bs ++ cs)) (utf8Len as) (utf8Len as + utf8Len bs) =
      some (.ofList bs) := by
  have hstart := isValid_utf8Len as (bs ++ cs)
  have hstop := isValid_utf8Len (as ++ bs) cs
  rw [← List.append_assoc] at hstart
  rw [String.utf8Len_append] at hstop
  rw [slice?, if_pos ⟨hstart, hstop, Nat.le_add_right _ _⟩, String.extract_of_valid]

theorem slice?_front (as bs : List Char) :
    slice? (.ofList (as ++ bs)) 0 (utf8Len as) = some (.ofList as) := by
  have hslice := slice?_append [] as bs
  simpa using hslice

theorem slice?_back (as bs : List Char) :
    slice? (.ofList (as ++ bs)) (utf8Len as) (String.ofList (as ++ bs)).utf8ByteSize =
      some (.ofList bs) := by
  have hslice := slice?_append as bs []
  rw [List.append_nil] at hslice
  rw [String.utf8ByteSize_ofList, String.utf8Len_append, hslice]

/-- The number of bytes before the first character of a kind. -/
def offset? (kind : Char → Bool) : List Char → Option Nat
  | [] => none
  | c :: cs => if kind c then some 0 else (offset? kind cs).map (· + c.utf8Size)

theorem offset?_eq_none {kind : Char → Bool} {cs : List Char} (h : ∀ c ∈ cs, kind c = false) :
    offset? kind cs = none := by
  induction cs with
  | nil => rfl
  | cons c cs ih =>
    obtain ⟨hc, hcs⟩ := List.forall_mem_cons.mp h
    rw [offset?, if_neg (by simp [hc]), ih hcs]
    rfl

theorem offset?_append_cons {kind : Char → Bool} {as : List Char} (h : ∀ c ∈ as, kind c = false)
    {c : Char} (hc : kind c = true) (bs : List Char) :
    offset? kind (as ++ c :: bs) = some (utf8Len as) := by
  induction as with
  | nil => exact if_pos hc
  | cons a as ih =>
    obtain ⟨ha, has⟩ := List.forall_mem_cons.mp h
    rw [List.cons_append, offset?, if_neg (by simp [ha]), ih has]
    rfl

end Text

namespace Piece
open Text

/-- The number of bytes of the name that a text starts with, zero if it starts with none. -/
def nameBytes (s : String) : Nat :=
  match s.toList with
  | [] => 0
  | c :: cs =>
    if isNameStart c then
      ((offset? (fun d => !isNameChar d) cs).map (· + c.utf8Size)).getD s.utf8ByteSize
    else 0

theorem nameBytes_of_name?_eq_none {cs : List Char} (h : name? cs = none) :
    nameBytes (.ofList cs) = 0 := by
  rw [nameBytes, String.toList_ofList]
  cases cs with
  | nil => rfl
  | cons c cs =>
    rw [name?] at h
    split at h
    · cases h
    · next hc => exact if_neg hc

theorem nameBytes_of_name?_eq_some {cs key rest : List Char} (h : name? cs = some (key, rest)) :
    nameBytes (.ofList cs) = utf8Len key := by
  obtain ⟨⟨c, ks, rfl, hc, hks⟩, hrest, rfl⟩ := name?_eq_some_iff.mp h
  have hname : ∀ d ∈ ks, (!isNameChar d) = false := fun d hd => by rw [hks d hd]; rfl
  rw [nameBytes, String.toList_ofList, List.cons_append]
  simp only [hc, if_true]
  cases rest with
  | nil => rw [List.append_nil, offset?_eq_none hname, String.utf8ByteSize_ofList]; rfl
  | cons d ds =>
    rw [offset?_append_cons hname (by rw [hrest d rfl]; rfl)]
    rfl

theorem utf8Len_pos_of_isName {key : List Char} (h : IsName key) : 0 < utf8Len key := by
  obtain ⟨c, cs, rfl, -, -⟩ := h
  exact Nat.add_pos_right _ c.utf8Size_pos

/-- What a scan by byte offsets finds at a time: a stretch of plain text or a placeholder. -/
inductive Segment where
  | text (s : String)
  | placeholder (key written : String)
  deriving DecidableEq, Repr

def Segment.pieces : Segment → List Piece
  | .text s => s.toList.map .literal
  | .placeholder key written => [.placeholder key.toList written.toList]

theorem Segment.pieces_text (cs : List Char) :
    (text (.ofList cs)).pieces = cs.map .literal := by
  rw [pieces, String.toList_ofList]

theorem Segment.pieces_placeholder (key written : List Char) :
    (placeholder (.ofList key) (.ofList written)).pieces = [.placeholder key written] := by
  rw [pieces, String.toList_ofList, String.toList_ofList]

/-- What a dollar sign at an offset is for if no brace and no other dollar sign counts behind it, and
the text that is left to scan. -/
def bare? (s after : String) (pos : Nat) : Option (Segment × String) :=
  let n := nameBytes after
  if n = 0 then some (.text "$", after)
  else do
    let key ← slice? after 0 n
    let written ← slice? s pos (pos + n + 1)
    let rest ← slice? after n after.utf8ByteSize
    return (.placeholder key written, rest)

/-- What a dollar sign at an offset is for if a brace stands behind it, before the text `inner`. -/
def braced? (s after inner : String) (pos : Nat) : Option (Segment × String) :=
  let n := nameBytes inner
  if n = 0 then bare? s after pos
  else do
    let behind ← slice? inner n inner.utf8ByteSize
    if behind.toList.head? = some '\x7d' then do
      let key ← slice? inner 0 n
      let written ← slice? s pos (pos + n + 3)
      let rest ← slice? inner (n + 1) inner.utf8ByteSize
      return (.placeholder key written, rest)
    else bare? s after pos

/-- What a dollar sign at an offset is for, and the text that is left to scan. -/
def dollar? (s : String) (pos : Nat) : Option (Segment × String) := do
  let after ← slice? s (pos + 1) s.utf8ByteSize
  match after.toList with
  | '$' :: _ =>
    let rest ← slice? after 1 after.utf8ByteSize
    return (.text "$", rest)
  | '\x7b' :: inner => braced? s after (.ofList inner) pos
  | _ => bare? s after pos

/-- The plain text before an offset, if there is any. -/
def textBefore? (s : String) (pos : Nat) : Option (List Segment) :=
  if pos = 0 then some [] else (slice? s 0 pos).map fun t => [.text t]

theorem textBefore?_append (before after : List Char) :
    ∃ texts, textBefore? (.ofList (before ++ after)) (utf8Len before) = some texts ∧
      texts.flatMap Segment.pieces = before.map .literal := by
  unfold textBefore?
  split_ifs with hempty
  · obtain rfl := String.utf8Len_eq_zero.mp hempty
    exact ⟨[], rfl, rfl⟩
  · rw [slice?_front]
    exact ⟨_, rfl, by rw [List.flatMap_singleton, Segment.pieces_text]⟩

/-- The segments of a text, found in at most so many rounds. Each round looks for a dollar sign. -/
def segments? : Nat → String → Option (List Segment)
  | 0, _ => none
  | n + 1, s =>
    match offset? (· == '$') s.toList with
    | none => some (if s = "" then [] else [.text s])
    | some pos => do
      let before ← textBefore? s pos
      let (found, rest) ← dollar? s pos
      let more ← segments? n rest
      return before ++ found :: more

/-- A scan step at a dollar sign: it finds the next pieces, and leaves a shorter text. -/
def Finds (result : Option (Segment × String)) (after : List Char) : Prop :=
  ∃ found rest, result = some (found, .ofList rest) ∧
    ofChars ('$' :: after) = found.pieces ++ ofChars rest ∧ rest.length ≤ after.length

theorem finds_bare? {before after : List Char} (hdollar : after.head? ≠ some '$')
    (hbraced : after.head? = some '\x7b' → placeholder? after = none) :
    Finds (bare? (.ofList (before ++ '$' :: after)) (.ofList after) (utf8Len before)) after := by
  unfold bare?
  cases hn : name? after with
  | none =>
    have hp : placeholder? after = none := by
      by_cases hbrace : after.head? = some '\x7b'
      · exact hbraced hbrace
      · rw [placeholder?_of_head?_ne hbrace, hn]
        rfl
    rw [nameBytes_of_name?_eq_none hn]
    exact ⟨.text "$", after, rfl, ofChars_dollar hdollar hp, le_rfl⟩
  | some p =>
    obtain ⟨key, rest⟩ := p
    obtain ⟨hkey, hrest, rfl⟩ := name?_eq_some_iff.mp hn
    have hlen : utf8Len key ≠ 0 := Nat.ne_of_gt (utf8Len_pos_of_isName hkey)
    have hwritten := slice?_append before ('$' :: key) rest
    refine ⟨.placeholder (.ofList key) (.ofList ('$' :: key)), rest, ?_, ?_, by simp⟩
    · rw [nameBytes_of_name?_eq_some hn, if_neg hlen, slice?_front, slice?_back]
      rw [List.append_assoc, List.cons_append] at hwritten
      change (slice? _ _ (utf8Len before + utf8Len ('$' :: key))).bind _ = _
      rw [hwritten]
      rfl
    · rw [Segment.pieces_placeholder]
      exact ofChars_bare hkey hrest

theorem finds_braced? (before inner : List Char) :
    Finds (braced? (.ofList (before ++ '$' :: '\x7b' :: inner)) (.ofList ('\x7b' :: inner))
      (.ofList inner) (utf8Len before)) ('\x7b' :: inner) := by
  unfold braced?
  cases hn : name? inner with
  | none =>
    have hp : placeholder? ('\x7b' :: inner) = none := by rw [placeholder?, hn]
    rw [nameBytes_of_name?_eq_none hn]
    exact finds_bare? (fun h => absurd (Option.some.inj h) (by decide)) fun _ => hp
  | some p =>
    obtain ⟨key, rest⟩ := p
    obtain ⟨hkey, -, rfl⟩ := name?_eq_some_iff.mp hn
    have hlen : utf8Len key ≠ 0 := Nat.ne_of_gt (utf8Len_pos_of_isName hkey)
    rw [nameBytes_of_name?_eq_some hn, if_neg hlen, slice?_back]
    simp only [Option.bind_eq_bind, Option.bind_some, String.toList_ofList]
    split
    · next hbrace =>
      obtain ⟨rest, rfl⟩ := List.head?_eq_some_iff.mp hbrace
      have hwritten := slice?_append before (braced key) rest
      have hback := slice?_back (key ++ ['\x7d']) rest
      have htext : braced key ++ rest = '$' :: '\x7b' :: (key ++ '\x7d' :: rest) := by simp [braced]
      have hlength : utf8Len (braced key) = utf8Len key + 3 := by
        rw [braced, List.cons_append, List.cons_append, String.utf8Len_cons, String.utf8Len_cons,
          String.utf8Len_append]
        rfl
      rw [List.append_assoc, htext, hlength, ← Nat.add_assoc] at hwritten
      rw [← List.append_cons, String.utf8Len_append] at hback
      refine ⟨.placeholder (.ofList key) (.ofList (braced key)), rest, ?_, ?_, ?_⟩
      · rw [slice?_front, hwritten]
        change (slice? _ (utf8Len key + utf8Len ['\x7d']) _).bind _ = _
        rw [hback]
        rfl
      · rw [Segment.pieces_placeholder, ← htext]
        exact ofChars_braced hkey rest
      · simp only [List.length_cons, List.length_append]
        omega
    -- Without the closing brace, nothing but the dollar sign is left to find.
    · next hbrace =>
      have hp : placeholder? ('\x7b' :: (key ++ rest)) = none := by
        rw [placeholder?, hn]
        split
        · next heq => exact absurd (congrArg (fun p => p.2.head?) (Option.some.inj heq)) hbrace
        · rfl
      exact finds_bare? (by simp) fun _ => hp

theorem finds_dollar? (before after : List Char) :
    Finds (dollar? (.ofList (before ++ '$' :: after)) (utf8Len before)) after := by
  have hafter : slice? (.ofList (before ++ '$' :: after)) (utf8Len before + 1)
      (String.ofList (before ++ '$' :: after)).utf8ByteSize = some (.ofList after) := by
    have hslice := slice?_back (before ++ ['$']) after
    rwa [List.append_assoc, String.utf8Len_append] at hslice
  unfold dollar?
  rw [hafter]
  simp only [Option.bind_eq_bind, Option.bind_some, String.toList_ofList]
  split
  · next rest =>
    refine ⟨.text "$", rest, ?_, ofChars_pair rest, by simp⟩
    have hslice := slice?_back ['$'] rest
    rw [List.singleton_append] at hslice
    change (slice? _ (utf8Len ['$']) _).bind _ = _
    rw [hslice]
    rfl
  · next inner => exact finds_braced? before inner
  · next hdollar hbrace =>
    refine finds_bare? (fun h => ?_) fun h => ?_
    · obtain ⟨rest, rfl⟩ := List.head?_eq_some_iff.mp h
      exact hdollar rest rfl
    · obtain ⟨rest, rfl⟩ := List.head?_eq_some_iff.mp h
      exact absurd rfl (hbrace rest)

/-- A scan that may take as many rounds as a text has characters, and one more, finds the pieces of
the text. -/
theorem segments?_eq_some (n : Nat) (cs : List Char) (h : cs.length < n) :
    ∃ segments, segments? n (.ofList cs) = some segments ∧
      segments.flatMap Segment.pieces = ofChars cs := by
  induction n generalizing cs with
  | zero => exact absurd h (Nat.not_lt_zero _)
  | succ n ih =>
    unfold segments?
    rw [String.toList_ofList]
    by_cases hdollar : '$' ∈ cs
    · obtain ⟨before, after, rfl, hbefore⟩ := List.eq_append_cons_of_mem hdollar
      have hplain : ∀ c ∈ before, (c == '$') = false := fun c hc =>
        beq_false_of_ne fun he => hbefore (he ▸ hc)
      obtain ⟨found, rest, hfound, hpieces, hlength⟩ := finds_dollar? before after
      -- What is left to scan is shorter by the dollar sign at least.
      obtain ⟨segments, hsegments, hrest⟩ := ih rest (by
        simp only [List.length_append, List.length_cons] at h
        omega)
      obtain ⟨texts, htexts, hbefore'⟩ := textBefore?_append before ('$' :: after)
      rw [offset?_append_cons hplain rfl]
      refine ⟨texts ++ found :: segments, ?_, ?_⟩
      · simp only [htexts, hfound, hsegments, Option.bind_eq_bind, Option.bind_some]
        rfl
      · rw [List.flatMap_append, List.flatMap_cons, hbefore', hrest,
          ofChars_append_of_notMem hbefore, hpieces]
    · have hplain : ∀ c ∈ cs, (c == '$') = false := fun c hc =>
        beq_false_of_ne fun he => hdollar (he ▸ hc)
      rw [offset?_eq_none hplain]
      refine ⟨_, rfl, ?_⟩
      rw [ofChars_of_notMem hdollar]
      split_ifs with hempty
      · obtain rfl : cs = [] := by simpa using hempty
        rfl
      · rw [List.flatMap_singleton, Segment.pieces_text]

end Piece
end KernelDispatch
