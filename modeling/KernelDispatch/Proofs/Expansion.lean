import KernelDispatch.Manifest.Expand
import Mathlib

/-! What a declaration of variants stands for. Its sets of values are listed, each in its order, and
the variants are those of all combinations. The faults of a declaration are told from its parts, and
the first of them is reported. -/
namespace KernelDispatch

section Outcome
variable {ε α β : Type} {faults more : List ε} {P : α → Prop} {Q : β → Prop} {x : Except ε α}

/-- A computation fails with the first of some faults. If there are none, what it returns has a
property. -/
def Settles (faults : List ε) (P : α → Prop) (x : Except ε α) : Prop :=
  match faults with
  | [] => ∃ a, x = .ok a ∧ P a
  | e :: _ => x = .error e

namespace Settles

theorem ok {a : α} (h : P a) : Settles ([] : List ε) P (.ok a) := ⟨a, rfl, h⟩

/-- The faults of a computation come before those of what follows it. -/
theorem bind {f : α → Except ε β} (hx : Settles faults P x)
    (hf : ∀ a, P a → Settles more Q (f a)) : Settles (faults ++ more) Q (x >>= f) := by
  cases faults with
  | nil =>
    obtain ⟨a, rfl, ha⟩ := hx
    exact hf a ha
  | cons e rest =>
    have herror : x = .error e := hx
    rw [herror]
    rfl

theorem exists_ok_iff (h : Settles faults P x) : (∃ a, x = .ok a) ↔ faults = [] := by
  cases faults with
  | nil =>
    obtain ⟨a, ha, -⟩ := h
    exact iff_of_true ⟨a, ha⟩ rfl
  | cons e rest =>
    have herror : x = .error e := h
    rw [herror]
    exact iff_of_false nofun (List.cons_ne_nil e rest)

theorem error_iff (h : Settles faults P x) (e : ε) : x = .error e ↔ faults.head? = some e := by
  cases faults with
  | nil =>
    obtain ⟨a, ha, -⟩ := h
    rw [ha]
    exact iff_of_false nofun nofun
  | cons e' rest =>
    have herror : x = .error e' := h
    rw [herror, List.head?_cons, Option.some.injEq, Except.error.injEq]

theorem of_ok (h : Settles faults P x) {a : α} (ha : x = .ok a) : P a := by
  have hnone : faults = [] := h.exists_ok_iff.mp ⟨a, ha⟩
  subst hnone
  obtain ⟨b, hb, hP⟩ := h
  have hab : b = a := Except.ok.inj (hb.symm.trans ha)
  rwa [hab] at hP

end Settles
end Outcome

namespace ValueSet

/-- The values that a set stands for, in order. Those of a range are told as numbers, which do not
wrap around. -/
def Lists : ValueSet → List UInt32 → Prop
  | .one n, ns => ns = [n]
  | .list ms, ns => ns = ms
  | .range first limit step, ns => ns.Pairwise (· < ·) ∧
    ∀ n, n ∈ ns ↔ n < limit ∧ ∃ i, n.toNat = first.toNat + i * step.toNat

/-- How many values a set stands for. -/
def size : ValueSet → Nat
  | .one _ => 1
  | .list ns => ns.length
  | .range first limit step => (limit.toNat - first.toNat) ⌈/⌉ step.toNat

/-- A range without a step leads nowhere. -/
def faults : ValueSet → List ManifestError
  | .range first limit step => if step = 0 then [.zeroStep first limit] else []
  | .one _ | .list _ => []

section Range
variable {first limit step : UInt32}

private theorem toNat_step_pos (h : step ≠ 0) : 0 < step.toNat :=
  Nat.pos_of_ne_zero fun h0 => h (UInt32.toNat_inj.mp h0)

theorem rangeValues_eq (h : step ≠ 0) : rangeValues first limit step =
    (List.range (size (.range first limit step))).map fun i =>
      UInt32.ofNat (first.toNat + i * step.toNat) := by
  rw [rangeValues, size, Nat.ceilDiv_eq_add_pred_div, Nat.add_sub_assoc (toNat_step_pos h)]

/-- The places of a range are those whose values are below its limit. -/
theorem lt_size_iff (h : step ≠ 0) {i : Nat} :
    i < size (.range first limit step) ↔ first.toNat + i * step.toNat < limit.toNat := by
  rw [size, ← not_le, ceilDiv_le_iff_le_smul (toNat_step_pos h), smul_eq_mul, Nat.mul_comm]
  omega

/-- No value of a range leaves the words. -/
theorem toNat_value (h : step ≠ 0) {i : Nat} (hi : i < size (.range first limit step)) :
    (UInt32.ofNat (first.toNat + i * step.toNat)).toNat = first.toNat + i * step.toNat := by
  have hbelow := (lt_size_iff h).mp hi
  have hword : limit.toNat < 2 ^ 32 := limit.toNat_lt
  exact UInt32.toNat_ofNat_of_lt' (Nat.lt_trans hbelow hword)

theorem pairwise_rangeValues (h : step ≠ 0) :
    (rangeValues first limit step).Pairwise (· < ·) := by
  rw [rangeValues_eq h, List.pairwise_map]
  refine List.pairwise_lt_range.imp_of_mem fun {i j} hi hj hij => ?_
  rw [UInt32.lt_iff_toNat_lt, toNat_value h (List.mem_range.mp hi),
    toNat_value h (List.mem_range.mp hj)]
  have hless : i * step.toNat < j * step.toNat :=
    Nat.mul_lt_mul_of_pos_right hij (toNat_step_pos h)
  omega

theorem mem_rangeValues (h : step ≠ 0) {n : UInt32} : n ∈ rangeValues first limit step ↔
    n < limit ∧ ∃ i, n.toNat = first.toNat + i * step.toNat := by
  rw [rangeValues_eq h, List.mem_map]
  constructor
  · rintro ⟨i, hi, rfl⟩
    have hplace := List.mem_range.mp hi
    rw [UInt32.lt_iff_toNat_lt, toNat_value h hplace]
    exact ⟨(lt_size_iff h).mp hplace, i, rfl⟩
  · rintro ⟨hlimit, i, hi⟩
    have hplace : i < size (.range first limit step) := by
      rw [lt_size_iff h, ← hi]
      exact UInt32.lt_iff_toNat_lt.mp hlimit
    refine ⟨i, List.mem_range.mpr hplace, ?_⟩
    rw [← UInt32.toNat_inj, toNat_value h hplace, hi]

end Range

theorem settles_expand (s : ValueSet) :
    Settles s.faults (fun ns => s.Lists ns ∧ ns.length = s.size) s.expand := by
  cases s with
  | one n => exact .ok ⟨rfl, rfl⟩
  | list ns => exact .ok ⟨rfl, rfl⟩
  | range first limit step =>
    rw [faults, expand]
    by_cases h : step = 0
    · rw [if_pos h, if_pos h]
      rfl
    · rw [if_neg h, if_neg h]
      have hlength : (rangeValues first limit step).length = size (.range first limit step) := by
        rw [rangeValues_eq h, List.length_map, List.length_range]
      exact .ok ⟨⟨pairwise_rangeValues h, fun _ => mem_rangeValues h⟩, hlength⟩

/-- The values that a parameter has if it need not be declared: zero where it is not. -/
def ListsOpen (s : Option ValueSet) (ns : List UInt32) : Prop := (s.getD (.one 0)).Lists ns

def openFaults (s : Option ValueSet) : List ManifestError := (s.map faults).getD []

def openSize (s : Option ValueSet) : Nat := (s.map size).getD 1

theorem settles_expandOrOpen (s : Option ValueSet) :
    Settles (openFaults s) (fun ns => ListsOpen s ns ∧ ns.length = openSize s)
      (expandOrOpen s) := by
  cases s with
  | none => exact .ok ⟨rfl, rfl⟩
  | some s => exact s.settles_expand

/-- The values of two parameters that are declared at once or each on its own. In the second case
all pairs are listed, the first varying slowest. -/
def ListsPairs (both first second : Option ValueSet) (pairs : List (UInt32 × UInt32)) : Prop :=
  match both with
  | some s => ∃ ns, s.Lists ns ∧ pairs = ns.map fun n => (n, n)
  | none => ∃ as bs, ListsOpen first as ∧ ListsOpen second bs ∧ pairs = as ×ˢ bs

/-- Declarations of two parameters both at once and on their own. -/
def Mixes (both first second : Option ValueSet) : Prop :=
  both.isSome ∧ (first.isSome ∨ second.isSome)

instance (both first second : Option ValueSet) : Decidable (Mixes both first second) :=
  inferInstanceAs (Decidable (_ ∧ _))

/-- What is wrong with two parameters, the second being looked at first. -/
def pairFaults (both first second : Option ValueSet) (mixed : ManifestError) :
    List ManifestError :=
  (if Mixes both first second then [mixed] else []) ++
    (openFaults both ++ openFaults second ++ openFaults first)

theorem openFaults_eq_nil_iff {s : Option ValueSet} :
    openFaults s = [] ↔ ∀ vs, s = some vs → ∀ first limit, vs ≠ .range first limit 0 := by
  cases s with
  | none => exact iff_of_true rfl nofun
  | some vs =>
    simp only [Option.some.injEq, forall_eq']
    cases vs with
    | one n => exact iff_of_true rfl nofun
    | list ns => exact iff_of_true rfl nofun
    | range first limit step =>
      change (if step = 0 then [_] else []) = [] ↔ _
      by_cases h : step = 0 <;> simp [h]

theorem pairFaults_eq_nil_iff {both first second : Option ValueSet} {mixed : ManifestError} :
    pairFaults both first second mixed = [] ↔ (both.isSome → first = none ∧ second = none) ∧
      openFaults both = [] ∧ openFaults second = [] ∧ openFaults first = [] := by
  have hmixes : ¬ Mixes both first second ↔ (both.isSome → first = none ∧ second = none) := by
    simp [Mixes]
  rw [pairFaults, List.append_eq_nil_iff, List.append_eq_nil_iff, List.append_eq_nil_iff,
    ← hmixes]
  by_cases h : Mixes both first second
  · simp [h]
  · simp [h, and_assoc]

theorem settles_expandPair (both first second : Option ValueSet) (mixed : ManifestError) :
    Settles (pairFaults both first second mixed)
      (fun pairs => ListsPairs both first second pairs ∧
        pairs.length = openSize both * (openSize first * openSize second))
      (expandPair both first second mixed) := by
  cases both with
  | some s =>
    by_cases hmixed : Mixes (some s) first second
    · have hdeclared : (first.isSome || second.isSome) = true := by
        simpa [Mixes] using hmixed
      rw [pairFaults, if_pos hmixed, expandPair, if_pos hdeclared]
      rfl
    · have hdeclared : ¬ (first.isSome || second.isSome) = true := by
        simpa [Mixes] using hmixed
      obtain ⟨rfl, rfl⟩ : first = none ∧ second = none := by
        simpa [Mixes] using hmixed
      have hfaults : pairFaults (some s) none none mixed = s.faults ++ [] := by
        rw [pairFaults, if_neg hmixed]
        exact List.append_nil _
      rw [hfaults, expandPair, if_neg hdeclared]
      refine s.settles_expand.bind fun ns ⟨hns, hlength⟩ => .ok ⟨⟨ns, hns, rfl⟩, ?_⟩
      rw [List.length_map, hlength]
      exact (Nat.mul_one _).symm
  | none =>
    have hfaults : pairFaults none first second mixed =
        openFaults second ++ (openFaults first ++ []) := by
      rw [pairFaults, if_neg (by simp [Mixes]), List.append_nil]
      rfl
    rw [hfaults, expandPair]
    refine (settles_expandOrOpen second).bind fun bs ⟨hbs, hsecond⟩ => ?_
    refine (settles_expandOrOpen first).bind fun as ⟨has, hfirst⟩ => .ok ?_
    refine ⟨⟨as, bs, has, hbs, rfl⟩, ?_⟩
    have hproduct : (as ×ˢ bs).length = as.length * bs.length := List.length_product as bs
    rw [hfirst, hsecond] at hproduct
    exact hproduct.trans (Nat.one_mul _).symm

end ValueSet

namespace VariantDecl
open ValueSet

/-- The sets of values in a declaration. -/
def valueSets (d : VariantDecl) : List ValueSet :=
  [d.kernel, d.kernelW, d.kernelH, d.channels, d.stride, d.strideW, d.strideH].reduceOption

/-- What is wrong with a declaration, in the order in which it is looked for. -/
def faults (d : VariantDecl) : List ManifestError :=
  pairFaults d.kernel d.kernelW d.kernelH .mixedKernel ++
    (pairFaults d.stride d.strideW d.strideH .mixedStride ++ openFaults d.channels)

theorem faults_eq_nil_iff (d : VariantDecl) : d.faults = [] ↔
    (d.kernel.isSome → d.kernelW = none ∧ d.kernelH = none) ∧
    (d.stride.isSome → d.strideW = none ∧ d.strideH = none) ∧
    ∀ s ∈ d.valueSets, ∀ first limit, s ≠ .range first limit 0 := by
  have hsets : (∀ s ∈ d.valueSets, ∀ first limit, s ≠ .range first limit 0) ↔
      ∀ o ∈ [d.kernel, d.kernelW, d.kernelH, d.channels, d.stride, d.strideW, d.strideH],
        openFaults o = [] := by
    simp only [valueSets, List.reduceOption_mem_iff, openFaults_eq_nil_iff]
    constructor
    · rintro h o ho s rfl
      exact h s ho
    · intro h s hs
      exact h (some s) hs s rfl
  rw [hsets]
  simp only [faults, List.append_eq_nil_iff, pairFaults_eq_nil_iff, List.forall_mem_cons,
    List.not_mem_nil, false_imp_iff, implies_true, and_true]
  tauto

/-- What is not declared does not change how many combinations there are. -/
theorem prod_size_reduceOption (ss : List (Option ValueSet)) :
    (ss.reduceOption.map size).prod = (ss.map openSize).prod := by
  induction ss with
  | nil => rfl
  | cons s rest ih =>
    cases s with
    | none =>
      rw [List.reduceOption_cons_of_none, ih, List.map_cons, List.prod_cons]
      exact (Nat.one_mul _).symm
    | some s =>
      rw [List.reduceOption_cons_of_some, List.map_cons, List.prod_cons, ih]
      rfl

theorem prod_sizes (d : VariantDecl) : (d.valueSets.map size).prod =
    openSize d.kernel * (openSize d.kernelW * openSize d.kernelH) * (openSize d.channels *
      (openSize d.stride * (openSize d.strideW * openSize d.strideH))) := by
  rw [valueSets, prod_size_reduceOption]
  simp only [List.map_cons, List.map_nil, List.prod_cons, List.prod_nil]
  ring

/-- The variant of one combination of values. -/
def combination (d : VariantDecl) (identity : Identity) (kernel : UInt32 × UInt32)
    (channels : UInt32) (stride : UInt32 × UInt32) : Variant :=
  { identity, kernelW := kernel.1, kernelH := kernel.2, channels, strideW := stride.1,
    strideH := stride.2, padding := d.padding, generic := false, core := d.core.names,
    debug := false }

theorem settles_expand (d : VariantDecl) (identity : Identity) :
    Settles d.faults
      (fun vs => ∃ kernels channels strides, ListsPairs d.kernel d.kernelW d.kernelH kernels ∧
        ListsOpen d.channels channels ∧ ListsPairs d.stride d.strideW d.strideH strides ∧
        vs = (kernels ×ˢ channels ×ˢ strides).map
          (fun x => d.combination identity x.1 x.2.1 x.2.2) ∧
        vs.length = (d.valueSets.map size).prod)
      (d.expand identity) := by
  unfold expand faults
  refine (settles_expandPair _ _ _ _).bind ?_
  rintro kernels ⟨hkernels, hkernelSize⟩
  refine (settles_expandPair _ _ _ _).bind ?_
  rintro strides ⟨hstrides, hstrideSize⟩
  rw [← List.append_nil (openFaults d.channels)]
  refine (settles_expandOrOpen _).bind ?_
  rintro channels ⟨hchannels, hchannelSize⟩
  refine .ok ?_
  have hproduct : (kernels.flatMap fun kernel => channels.flatMap fun n =>
      strides.map fun stride => d.combination identity kernel n stride) =
      (kernels ×ˢ channels ×ˢ strides).map fun x => d.combination identity x.1 x.2.1 x.2.2 := by
    simp only [SProd.sprod, List.product, List.map_flatMap, List.map_map]
    rfl
  refine ⟨kernels, channels, strides, hkernels, hchannels, hstrides, hproduct, ?_⟩
  have hlength : (kernels ×ˢ channels ×ˢ strides).length =
      kernels.length * (channels.length * strides.length) := by
    rw [List.length_product, List.length_product]
  refine (congrArg List.length hproduct).trans ?_
  rw [List.length_map, hlength, hkernelSize, hchannelSize, hstrideSize, d.prod_sizes]

/-- A declaration expands exactly if no parameter is declared both at once and by direction and no
range lacks a step. Otherwise the first of its faults is reported. The variants are those of all
combinations of the values that are listed, kernels varying slowest, then channels, then strides. -/
theorem expand_combinations (d : VariantDecl) (identity : Identity) :
    ((∃ vs, d.expand identity = .ok vs) ↔
      (d.kernel.isSome → d.kernelW = none ∧ d.kernelH = none) ∧
      (d.stride.isSome → d.strideW = none ∧ d.strideH = none) ∧
      ∀ s ∈ d.valueSets, ∀ first limit, s ≠ .range first limit 0) ∧
    (∀ e, d.expand identity = .error e ↔ d.faults.head? = some e) ∧
    ∀ vs, d.expand identity = .ok vs →
      ∃ kernels channels strides, ListsPairs d.kernel d.kernelW d.kernelH kernels ∧
        ListsOpen d.channels channels ∧ ListsPairs d.stride d.strideW d.strideH strides ∧
        vs = (kernels ×ˢ channels ×ˢ strides).map
          (fun x => d.combination identity x.1 x.2.1 x.2.2) ∧
        vs.length = (d.valueSets.map size).prod := by
  have hsettles := d.settles_expand identity
  exact ⟨hsettles.exists_ok_iff.trans d.faults_eq_nil_iff, hsettles.error_iff,
    fun vs => hsettles.of_ok⟩

/-- A range whose next value would leave the words, and a declaration with several faults. -/
theorem expand_combinations_last_words :
    let d : VariantDecl :=
      { core := .one "pool", kernelW := some (.range 0xFFFFFFFA 0xFFFFFFFE 3),
        kernelH := some (.list [2, 1]), stride := some (.one 1), padding := .krnPad }
    let faulty : VariantDecl :=
      { d with
        kernelW := some (.range 1 2 0), kernelH := some (.range 5 9 0),
        strideW := some (.one 1), channels := some (.range 0 0 0) }
    let identity : Identity := ⟨"krn", .avePool, .chw, .fx16, []⟩
    let vs := [(0xFFFFFFFA, 2), (0xFFFFFFFA, 1), (0xFFFFFFFD, 2), (0xFFFFFFFD, 1)].map
      fun kernel => d.combination identity kernel 0 (1, 1)
    d.expand identity = .ok vs ∧ vs.length = (d.valueSets.map size).prod ∧
      faulty.faults = [.zeroStep 5 9, .zeroStep 1 2, .mixedStride, .zeroStep 0 0] ∧
      faulty.expand identity = .error (.zeroStep 5 9) := by
  intro d faulty identity vs
  have hexpand : d.expand identity = .ok vs := by decide
  have hfaults : faulty.faults = [.zeroStep 5 9, .zeroStep 1 2, .mixedStride, .zeroStep 0 0] := by
    decide
  obtain ⟨-, -, hcombinations⟩ := expand_combinations d identity
  obtain ⟨-, herror, -⟩ := expand_combinations faulty identity
  obtain ⟨-, -, -, -, -, -, -, hlength⟩ := hcombinations vs hexpand
  have hfirst : faulty.faults.head? = some (.zeroStep 5 9) := by rw [hfaults, List.head?_cons]
  exact ⟨hexpand, hlength, hfaults, (herror _).mpr hfirst⟩

end VariantDecl
end KernelDispatch
