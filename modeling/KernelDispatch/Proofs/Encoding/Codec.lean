import KernelDispatch.Manifest.Decode
import KernelDispatch.Manifest.Encode
import KernelDispatch.Proofs.Encoding.Text
import KernelDispatch.Proofs.Traversal
import Mathlib

/-! Decoders that undo an encoding. -/
namespace KernelDispatch
open Json

namespace Json

theorem areComplete_iff {items : List Json} :
    areComplete items = true ↔ ∀ j ∈ items, j.isComplete = true := by
  induction items with
  | nil => exact iff_of_true rfl nofun
  | cons j rest ih => rw [areComplete, Bool.and_eq_true, ih, List.forall_mem_cons]

theorem membersComplete_iff {members : List (String × Json)} :
    membersComplete members = true ↔ ∀ m ∈ members, m.2.isComplete = true := by
  induction members with
  | nil => exact iff_of_true rfl nofun
  | cons m rest ih => rw [membersComplete, Bool.and_eq_true, ih, List.forall_mem_cons]

theorem Plain.isComplete {depth : Nat} {j : Json} (h : Plain depth j) : j.isComplete = true := by
  induction h with
  | null => rfl
  | natural => rfl
  | string => rfl
  | array _ ih => exact areComplete_iff.mpr ih
  | object _ ih => exact membersComplete_iff.mpr ih

theorem plain_ofWord (depth : Nat) (n : UInt32) : Plain depth (ofWord n) := by
  have hn : n.toNat ≤ Literal.maxWord :=
    (Nat.le_of_lt n.toNat_lt).trans (by decide)
  exact .natural hn

theorem word?_ofWord (n : UInt32) : (ofWord n).word? = some n := by
  have hn : (n.toNat : Int) < UInt32.size := Int.ofNat_lt.mpr n.toNat_lt
  rw [ofWord, word?, if_pos ⟨Int.natCast_nonneg _, hn⟩, Int.toNat_natCast, UInt32.ofNat_toNat]

end Json

/-- A decoder that undoes an encoding, and whose encoded values need no more than `depth` arrays and
objects within each other. -/
structure Undoes {α : Type} (decode : Decoder α) (encode : α → Json) (depth : Nat) : Prop where
  decode_encode : ∀ a, decode (encode a) = .ok a
  plain : ∀ a, Plain depth (encode a)

namespace Undoes
variable {α : Type} {decode : Decoder α} {encode : α → Json} {depth : Nat}

theorem string : Undoes Decoder.string .string 0 := ⟨fun _ => rfl, fun s => .string s⟩

theorem list (h : Undoes decode encode depth) :
    Undoes (Decoder.list decode) (ofList encode) (depth + 1) := by
  constructor
  · intro as
    have hitems : (as.map encode).mapM decode = .ok as := mapM_map_eq_pure h.decode_encode as
    rw [ofList, Decoder.list, hitems]
    rfl
  · intro as
    refine .array fun j hj => ?_
    obtain ⟨a, -, rfl⟩ := List.mem_map.mp hj
    exact h.plain a

/-- The encoded values must not be taken for an absent one. -/
theorem option (h : Undoes decode encode depth) (hnull : ∀ a, encode a ≠ .null) :
    Undoes (Decoder.option decode) (ofOption encode) depth := by
  constructor
  · rintro (- | a)
    · rfl
    · have hdecode := h.decode_encode a
      change Decoder.option decode (encode a) = _
      unfold Decoder.option
      split
      · next heq => exact absurd heq (hnull a)
      · rw [hdecode]
        rfl
  · rintro (- | a)
    · exact .null
    · exact h.plain a

theorem tag (α : Type) [Tag α] [LawfulTag α] : Undoes Decoder.tag (ofTag : α → Json) 0 := by
  refine ⟨fun a => ?_, fun a => .string _⟩
  change (Tag.read (Tag.word a)).mapError DecodeError.tag = _
  rw [LawfulTag.read_word]
  rfl

theorem bindings : Undoes Decoder.bindings ofBindings 1 := by
  constructor
  · intro b
    have hpairs : (b.pairs.map fun p => (p.1, Json.string p.2)).mapM
        (fun m => do return (m.1, ← Decoder.string m.2)) = Except.ok b.pairs :=
      mapM_map_eq_pure (g := fun p => (p.1, Json.string p.2)) (fun _ => rfl) b.pairs
    rw [ofBindings, record, Decoder.bindings, hpairs]
    change Except.ok (Bindings.ofList b.pairs) = _
    rw [Bindings.ofList_pairs]
  · intro b
    refine .object fun m hm => ?_
    obtain ⟨p, -, rfl⟩ := List.mem_map.mp hm
    exact .string p.2

theorem untagged {type : String} {alternatives : Json → Option α}
    (h : ∀ a, alternatives (encode a) = some a) (hplain : ∀ a, Plain depth (encode a)) :
    Undoes (Decoder.untagged type alternatives) encode depth := by
  refine ⟨fun a => ?_, hplain⟩
  rw [Decoder.untagged, (hplain a).isComplete, if_pos rfl, h]

end Undoes

/-- Members of an object that fill some slots in order and turn one record into another. -/
inductive Fills {α : Type} (depth : Nat) :
    List (Slot α) → List (String × Json) → α → α → Prop
  | nil {a : α} : Fills depth [] [] a a
  | cons {slot : Slot α} {slots : List (Slot α)} {j : Json} {members : List (String × Json)}
    {a b c : α} (hput : slot.put j a = .ok b) (hplain : Plain depth j)
    (rest : Fills depth slots members b c) :
    Fills depth (slot :: slots) ((slot.name, j) :: members) a c

namespace Fills
variable {α : Type} {depth : Nat}

/-- A slot for a part of a record whose decoder undoes the encoding of the part. -/
theorem field {β : Type} {decode : Decoder β} {encode : β → Json} {k : Nat}
    (h : Undoes decode encode k) (hk : k ≤ depth) {name : String} {required : Bool}
    {update : β → α → α} {x : β} {slots : List (Slot α)} {members : List (String × Json)} {a c : α}
    (rest : Fills depth slots members (update x a) c) :
    Fills depth (⟨name, required, fun j a => do return update (← decode j) a⟩ :: slots)
      ((name, encode x) :: members) a c := by
  refine cons ?_ ((h.plain x).mono hk) rest
  change decode (encode x) >>= _ = _
  rw [h.decode_encode]
  rfl

theorem plain_of_mem {slots : List (Slot α)} {members : List (String × Json)} {a c : α}
    (h : Fills depth slots members a c) : ∀ m ∈ members, Plain depth m.2 := by
  induction h with
  | nil => exact nofun
  | cons _ hplain _ ih => exact List.forall_mem_cons.mpr ⟨hplain, ih⟩

end Fills

namespace Shape
variable {α : Type} {depth : Nat}

theorem find?_slot {before after : List (Slot α)} {slot : Slot α}
    (h : ((before ++ slot :: after).map Slot.name).Nodup) :
    (before ++ slot :: after).find? (fun s => s.name = slot.name) = some slot := by
  rw [List.map_append, List.nodup_append] at h
  have hbefore : before.find? (fun s => s.name = slot.name) = none := by
    refine List.find?_eq_none.mpr fun s hs => ?_
    simpa using h.2.2 s.name (List.mem_map_of_mem hs) slot.name List.mem_cons_self
  rw [List.find?_append, hbefore, Option.none_or, List.find?_cons_of_pos (by simp)]

theorem fill_of_fills (s : Shape α) (hnames : (s.slots.map Slot.name).Nodup)
    {before slots : List (Slot α)} (hslots : s.slots = before ++ slots)
    {members : List (String × Json)} {a c : α} (h : Fills depth slots members a c) :
    s.fill (before.map Slot.name).reverse a members =
      .ok ((s.slots.map Slot.name).reverse, c) := by
  induction h generalizing before with
  | nil => rw [fill, hslots, List.append_nil]
  | @cons slot slots j members a b c hput _ _ ih =>
    have hfind : s.slots.find? (fun t => t.name = slot.name) = some slot := by
      rw [hslots] at hnames ⊢
      exact find?_slot hnames
    have hgiven : slot.name ∉ (before.map Slot.name).reverse := by
      rw [hslots, List.map_append, List.nodup_append] at hnames
      rw [List.mem_reverse]
      exact fun hmem => hnames.2.2 _ hmem _ List.mem_cons_self rfl
    have hrest := ih (hslots.trans (List.append_cons before slot slots))
    rw [List.map_append, List.reverse_append] at hrest
    rw [fill, hfind]
    dsimp only
    rw [if_neg hgiven, hput]
    exact hrest

/-- A record that is written with all its fields in order is decoded from what is written. -/
theorem decode_of_fills (s : Shape α) (hnames : (s.slots.map Slot.name).Nodup)
    {members : List (String × Json)} {a : α} (h : Fills depth s.slots members s.blank a) :
    s.decode (record members) = .ok a := by
  have hslots : s.slots = [] ++ s.slots := (List.nil_append s.slots).symm
  have hfill : s.fill [] s.blank members = _ := s.fill_of_fills hnames hslots h
  have hall : s.slots.find? (fun slot => slot.required && slot.name ∉
      (s.slots.map Slot.name).reverse) = none := by
    refine List.find?_eq_none.mpr fun slot hslot => ?_
    simpa using fun _ => ⟨slot, hslot, rfl⟩
  rw [record, decode, hfill]
  simp only [bind, Except.bind, hall]
  rfl

end Shape

theorem Undoes.record {α : Type} {s : Shape α} {members : α → List (String × Json)} {depth : Nat}
    (hnames : (s.slots.map Slot.name).Nodup)
    (h : ∀ a, Fills depth s.slots (members a) s.blank a) :
    Undoes s.decode (fun a => Json.record (members a)) (depth + 1) :=
  ⟨fun a => s.decode_of_fills hnames (h a), fun a => .object (h a).plain_of_mem⟩

end KernelDispatch
