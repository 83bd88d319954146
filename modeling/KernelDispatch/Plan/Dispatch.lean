import KernelDispatch.Plan.Code
import KernelDispatch.Plan.Flat
import KernelDispatch.Plan.Tree
import KernelDispatch.Text.Bindings

/-! How a family is dispatched: style, hierarchy and the runtime expression of every variable. -/
namespace KernelDispatch

structure Dispatch where
  style : Style
  hierarchy : List Param
  bindings : Bindings := {}
  deriving DecidableEq, Repr

/-- A hierarchy tests no parameter twice, and the padding only at its deepest level. -/
def requireHierarchy (hierarchy : List Param) : Except ConfigError Unit :=
  match firstRepeated [] hierarchy with
  | some p => .error (.repeatedLevel p)
  | none => if .padding ∈ hierarchy.dropLast then .error .paddingNotDeepest else .ok ()

theorem requireHierarchy_eq_ok_iff {hierarchy : List Param} :
    requireHierarchy hierarchy = .ok () ↔ hierarchy.Nodup ∧ .padding ∉ hierarchy.dropLast := by
  have hnodup : firstRepeated [] hierarchy = none ↔ hierarchy.Nodup := by
    simp [firstRepeated_eq_none_iff]
  unfold requireHierarchy
  split
  · next p h => exact iff_of_false nofun fun hn => by simp [hnodup.mpr hn.1] at h
  · next h =>
    rw [and_iff_right (hnodup.mp h)]
    split
    · next hp => exact iff_of_false nofun (not_not_intro hp)
    · next hp => exact iff_of_true rfl hp

namespace Dispatch

/-- A dispatch without bindings over a hierarchy that is checked. -/
def ofHierarchy (style : Style) (hierarchy : List Param) : Except ConfigError Dispatch := do
  requireHierarchy hierarchy
  return { style, hierarchy }

def bind (d : Dispatch) (name expression : String) : Dispatch :=
  { d with bindings := d.bindings.insert name expression }

/-- Further bindings, which hold where both bind a name. -/
def bindAll (d : Dispatch) (more : Bindings) : Dispatch :=
  { d with bindings := d.bindings.override more }

def hierarchyVariables (d : Dispatch) : List String := d.hierarchy.flatMap Param.variableNames

/-- The bound expressions of some names, in order, unless one of them is unbound. -/
def expressions (d : Dispatch) (names : List String) :
    Except ConfigError (List (String × String)) :=
  names.mapM fun name =>
    match d.bindings.get? name with
    | some expression => .ok (name, expression)
    | none => .error (.missingBinding name)

/-- Every variable of the hierarchy needs an expression. -/
def requireBindings (d : Dispatch) : Except ConfigError Unit := do
  discard (d.expressions d.hierarchyVariables)

theorem exists_expressions_iff {d : Dispatch} {names : List String} :
    (∃ bound, d.expressions names = .ok bound) ↔ ∀ name ∈ names, d.bindings.binds name = true := by
  induction names with
  | nil => exact iff_of_true ⟨[], rfl⟩ (List.forall_mem_nil _)
  | cons name rest ih =>
    rw [List.forall_mem_cons, ← ih, expressions, List.mapM_cons, Bindings.binds]
    cases d.bindings.get? name with
    | none => exact iff_of_false (by rintro ⟨_, ⟨⟩⟩) (by rintro ⟨⟨⟩, _⟩)
    | some expression =>
      change (∃ bound, (d.expressions rest).bind (fun found => .ok ((name, expression) :: found)) =
        .ok bound) ↔ true = true ∧ _
      cases d.expressions rest with
      | error e => exact iff_of_false (by rintro ⟨_, ⟨⟩⟩) (by rintro ⟨_, _, ⟨⟩⟩)
      | ok found => exact iff_of_true ⟨_, rfl⟩ ⟨rfl, found, rfl⟩

theorem requireBindings_eq_ok_iff {d : Dispatch} :
    d.requireBindings = .ok () ↔ ∀ name ∈ d.hierarchyVariables, d.bindings.binds name = true := by
  rw [← exists_expressions_iff, requireBindings]
  cases d.expressions d.hierarchyVariables with
  | error e => exact iff_of_false nofun nofun
  | ok bound => exact iff_of_true rfl ⟨bound, rfl⟩

/-- The plan for the variants of a family in the style of a dispatch. -/
def plan (d : Dispatch) (variants : List Variant) (default : Variant) :
    Reported ConfigError Plan := do
  d.requireBindings
  match d.style with
  | .tree => Tree.plan variants d.hierarchy default
  | .flat => Flat.plan variants d.hierarchy default

theorem result_plan (d : Dispatch) (variants : List Variant) (default : Variant) :
    (d.plan variants default).result = d.requireBindings.bind fun _ =>
      match d.style with
      | .tree => (Tree.plan variants d.hierarchy default).result
      | .flat => (Flat.plan variants d.hierarchy default).result := by
  rw [plan, Reported.result_bind]
  cases d.style <;> rfl

/-- A plan is made in the style of its dispatch once every variable has an expression. -/
theorem plan_eq_ok {d : Dispatch} {variants : List Variant} {default : Variant} {p : Plan}
    (h : (d.plan variants default).result = .ok p) :
    d.requireBindings = .ok () ∧
      (d.style = .tree ∧ (Tree.plan variants d.hierarchy default).result = .ok p ∨
        d.style = .flat ∧ (Flat.plan variants d.hierarchy default).result = .ok p) := by
  rw [result_plan] at h
  cases hb : d.requireBindings with
  | error e => rw [hb] at h; exact nomatch h
  | ok u =>
    rw [hb] at h
    refine ⟨rfl, ?_⟩
    cases hs : d.style with
    | tree => exact .inl ⟨rfl, by simpa [Except.bind, hs] using h⟩
    | flat => exact .inr ⟨rfl, by simpa [Except.bind, hs] using h⟩

/-- The variables that a wrapper declares: those of the hierarchy in its order, then any other that
the plan reads. -/
def wrapperVariables (d : Dispatch) (p : Plan) : List String :=
  let read := p.root.operands
  let others := (Operand.all.filter fun o => o ∈ read).map Operand.word
  d.hierarchyVariables ++ others.filter fun name => name ∉ d.hierarchyVariables

def declarations (d : Dispatch) (p : Plan) : Except ConfigError String := do
  let bound ← d.expressions (d.wrapperVariables p)
  return .join (bound.map fun b => Text.step ++ "int " ++ b.1 ++ " = " ++ b.2 ++ ";\n")

end Dispatch

def kernelExpressions (identity : Identity) : Option (String × String) :=
  match identity.op.family with
  | .convolution =>
    let kernel :=
      if identity.op = .depthwiseConv2d ∧ identity.layout ≠ .chw then "KRNL_DW" else "KRNL"
    let size := fun direction =>
      "weights->shape[" ++ kernel ++ "_" ++ direction ++ "_DIM_" ++ identity.layout.dimSuffix ++ "]"
    some (size "W", size "H")
  | .pooling => some ("cfg->kernel_width", "cfg->kernel_height")
  | .fullyConnected | .activation => none

/-- The runtime expressions that the interface of an operation offers. -/
def Bindings.standard (identity : Identity) : Bindings :=
  let channels := ("channels", "in->shape[FMAP_C_DIM_" ++ identity.layout.dimSuffix ++ "]")
  match kernelExpressions identity with
  | none => .ofList [channels]
  | some (kernelW, kernelH) => .ofList
    [("stride_w", "cfg->stride_width"), ("stride_h", "cfg->stride_height"),
      ("kernel_w", kernelW), ("kernel_h", kernelH),
      ("padding_top", "cfg->padding_top"), ("padding_bot", "cfg->padding_bottom"),
      ("padding_left", "cfg->padding_left"), ("padding_right", "cfg->padding_right"), channels]

end KernelDispatch
