import KernelDispatch.Proofs.Matching
import KernelDispatch.Proofs.Wrapper.Grammar
import KernelDispatch.Plan.Node
import KernelDispatch.Variant.Symbol

/-! The statements that a plan stands for return what the plan selects. -/
namespace KernelDispatch

def Comparison.test (c : Comparison) : Test := ⟨c.operand.word, c.relation, c.limit.toNat⟩

/-- The tests of a condition in the order in which they are written. -/
def Condition.tests (c : Condition) : List Test := c.comparisons.map Comparison.test

/-- What a wrapper returns for a variant. -/
def Variant.returned (diagnostic : Bool) (v : Variant) : Answer :=
  let names := v.identity.args.map Arg.name
  if diagnostic then .literal v.symbol else .call v.symbol (names.headD "") names.tail

mutual
def Node.statements (diagnostic : Bool) : Node → Statements
  | .call v => .answer (v.returned diagnostic) .done
  | .chain arms => arms.statements diagnostic

def Arms.statements (diagnostic : Bool) : Arms → Statements
  | .otherwise n => n.statements diagnostic
  | .arm c n rest =>
    .branch c.tests (n.statements diagnostic) (rest.elsePart diagnostic) .done

/-- What follows an arm whose condition does not hold. -/
def Arms.elsePart (diagnostic : Bool) : Arms → ElsePart
  | .otherwise n => .block (n.statements diagnostic)
  | .arm c n rest => .branch c.tests (n.statements diagnostic) (rest.elsePart diagnostic)
end

/-- The variables of a wrapper, which hold the values of a call. -/
def Runtime.store (r : Runtime) : Store := fun name =>
  (Operand.all.find? fun o => o.word = name).map fun o => (o.value r).toNat

/-- Operands are told apart by their names. -/
theorem Operand.find?_word (o : Operand) :
    (all.find? fun other => other.word = o.word) = some o := by
  cases o with
  | field f => cases f <;> decide
  | padding s => cases s <;> decide

theorem Runtime.store_word (r : Runtime) (o : Operand) :
    r.store o.word = some (o.value r).toNat := by
  rw [store, o.find?_word, Option.map_some]

theorem Comparison.eval_test (c : Comparison) (r : Runtime) :
    c.test.eval r.store = some (c.eval r) := by
  have hcompare : ∀ a b : UInt32, c.relation.compare a.toNat b.toNat = c.relation.holds a b := by
    intro a b
    cases c.relation with
    | eq => rw [Bool.eq_iff_iff]; simp [Relation.compare, Relation.holds, UInt32.toNat_inj]
    | le => simp [Relation.compare, Relation.holds, UInt32.le_iff_toNat_le]
  rw [Test.eval, test, r.store_word, Option.map_some, hcompare, eval]

theorem Condition.evalAll_tests (c : Condition) (r : Runtime) :
    Test.evalAll r.store c.tests = some (c.eval r) := by
  rw [eval_eq_all_comparisons, tests]
  induction c.comparisons with
  | nil => rfl
  | cons d ds ih =>
    rw [List.map_cons, Test.evalAll, d.eval_test, Option.bind_some, List.all_cons, ih]
    cases d.eval r <;> rfl

mutual
/-- Running the statements of a plan meets one answer, that of the variant it selects. -/
theorem Node.returns_statements (diagnostic : Bool) (r : Runtime) :
    ∀ n : Node, (n.statements diagnostic).returns r.store =
      some [(n.select r).returned diagnostic]
  | .call _ => rfl
  | .chain arms => arms.returns_statements diagnostic r

theorem Arms.returns_statements (diagnostic : Bool) (r : Runtime) :
    ∀ arms : Arms, (arms.statements diagnostic).returns r.store =
      some [(arms.select r).returned diagnostic]
  | .otherwise n => n.returns_statements diagnostic r
  | .arm c n rest => by
    rw [Arms.statements, Statements.returns, c.evalAll_tests, Option.bind_some, Arms.select,
      n.returns_statements diagnostic r, rest.returns_elsePart diagnostic r]
    cases c.eval r <;> rfl

theorem Arms.returns_elsePart (diagnostic : Bool) (r : Runtime) :
    ∀ arms : Arms, (arms.elsePart diagnostic).returns r.store =
      some [(arms.select r).returned diagnostic]
  | .otherwise n => n.returns_statements diagnostic r
  | .arm c n rest => by
    rw [Arms.elsePart, ElsePart.returns, c.evalAll_tests, Option.bind_some, Arms.select,
      n.returns_statements diagnostic r, rest.returns_elsePart diagnostic r]
    cases c.eval r <;> rfl
end

end KernelDispatch
