import Mathlib.Tactic

/-!
# Checked 64-bit arithmetic

`u64` and `usize` share one width. A checked operation returns nothing exactly
when the mathematical result does not fit.
-/

namespace Invokrum.Machine

/-- The number of values of a machine word. -/
def wordSize : Nat := 2 ^ 64

def checkedAdd (a b : Nat) : Option Nat := if a + b < wordSize then some (a + b) else none

def checkedMul (a b : Nat) : Option Nat := if a * b < wordSize then some (a * b) else none

@[simp] theorem checkedAdd_eq_some {a b c : Nat} :
    checkedAdd a b = some c ↔ a + b < wordSize ∧ a + b = c := by
  unfold checkedAdd
  by_cases h : a + b < wordSize <;> simp [h]

@[simp] theorem checkedAdd_eq_none {a b : Nat} :
    checkedAdd a b = none ↔ wordSize ≤ a + b := by
  unfold checkedAdd
  split <;> simp_all

@[simp] theorem checkedMul_eq_some {a b c : Nat} :
    checkedMul a b = some c ↔ a * b < wordSize ∧ a * b = c := by
  unfold checkedMul
  by_cases h : a * b < wordSize <;> simp [h]

theorem toNat_lt_wordSize (n : UInt64) : n.toNat < wordSize := n.toNat_lt

end Invokrum.Machine
