/-! Decimal text of words. -/
namespace KernelDispatch.Text

def decimal (n : UInt32) : String := n.toNat.repr

theorem isDigit_of_mem_repr {n : Nat} {c : Char} (hc : c ∈ n.repr.toList) : c.isDigit = true := by
  rw [Nat.toList_repr] at hc
  exact Nat.isDigit_of_mem_toDigits (by decide) (by decide) hc

theorem isDigit_of_mem_decimal {n : UInt32} {c : Char} (hc : c ∈ (decimal n).toList) :
    c.isDigit = true :=
  isDigit_of_mem_repr hc

end KernelDispatch.Text
