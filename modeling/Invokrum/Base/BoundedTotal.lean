import Invokrum.Base.Machine
import Invokrum.Base.Outcome

/-!
# Bounded running totals

A loop that adds up sizes in a machine word, refusing an item above one bound
and a total above another, succeeds exactly when every size and the whole sum
are within them. Its outcome is then the sum, whatever the order of the items.
-/

namespace Invokrum.BoundedTotal

open Outcome Machine

variable {α ε : Type}

/-- The loop, with the error of an oversized item and that of an oversized total. -/
def boundedTotal (size : α → Nat) (itemMaximum totalMaximum : Nat) (itemError : α → ε)
    (totalError : ε) : Nat → List α → Except ε Nat
  | total, [] => .ok total
  | total, x :: rest => do
      rejectIf (itemMaximum < size x) (itemError x)
      let total ← okOr (checkedAdd total (size x)) totalError
      rejectIf (totalMaximum < total) totalError
      boundedTotal size itemMaximum totalMaximum itemError totalError total rest

variable {size : α → Nat} {itemMaximum totalMaximum : Nat} {itemError : α → ε} {totalError : ε}

theorem boundedTotal_eq_ok (hword : totalMaximum < wordSize) {start total : Nat}
    (hstart : start ≤ totalMaximum) {xs : List α} :
    boundedTotal size itemMaximum totalMaximum itemError totalError start xs = .ok total ↔
      (∀ x ∈ xs, size x ≤ itemMaximum) ∧ start + (xs.map size).sum ≤ totalMaximum ∧
        total = start + (xs.map size).sum := by
  induction xs generalizing start with
  | nil => simp [boundedTotal, hstart, eq_comm]
  | cons x rest ih =>
      simp only [boundedTotal, bind_eq_ok, rejectIf_eq_ok, okOr_eq_ok, checkedAdd_eq_some,
        exists_const, not_lt, List.forall_mem_cons, List.map_cons, List.sum_cons]
      constructor
      · intro h
        obtain ⟨hx, _, ⟨_, rfl⟩, hle, hrest⟩ := h
        obtain ⟨hall, hsum, htotal⟩ := (ih hle).mp hrest
        exact ⟨⟨hx, hall⟩, by omega, by omega⟩
      · intro h
        obtain ⟨⟨hx, hall⟩, hsum, htotal⟩ := h
        have hle : start + size x ≤ totalMaximum := by omega
        exact ⟨hx, _, ⟨by omega, rfl⟩, hle, (ih hle).mpr ⟨hall, by omega, by omega⟩⟩

/-- When no item is oversized, the only failure is that of the total. -/
theorem boundedTotal_eq_error {start : Nat} (hstart : start ≤ totalMaximum) {xs : List α}
    (hitem : ∀ x ∈ xs, size x ≤ itemMaximum) (h : totalMaximum < start + (xs.map size).sum) :
    boundedTotal size itemMaximum totalMaximum itemError totalError start xs =
      .error totalError := by
  induction xs generalizing start with
  | nil =>
      simp only [List.map_nil, List.sum_nil] at h
      omega
  | cons x rest ih =>
      have hx : size x ≤ itemMaximum := hitem x List.mem_cons_self
      have hrest := fun y hy => hitem y (List.mem_cons_of_mem x hy)
      simp only [List.map_cons, List.sum_cons] at h
      rw [boundedTotal, rejectIf_of_not _ (by omega), ok_bind]
      by_cases hword' : start + size x < wordSize
      · have hadd : checkedAdd start (size x) = some (start + size x) :=
          checkedAdd_eq_some.mpr ⟨hword', rfl⟩
        rw [hadd, okOr, ok_bind]
        by_cases hle : start + size x ≤ totalMaximum
        · rw [rejectIf_of_not _ (by omega), ok_bind]
          exact ih hle hrest (by omega)
        · rw [rejectIf_of _ (by omega), error_bind]
      · have hadd : checkedAdd start (size x) = none := checkedAdd_eq_none.mpr (by omega)
        rw [hadd, okOr, error_bind]

/-- Without oversized items the whole outcome depends on the sum only. -/
theorem boundedTotal_eq_of_perm (hword : totalMaximum < wordSize) {xs ys : List α}
    (hp : xs.Perm ys) (hitem : ∀ x ∈ xs, size x ≤ itemMaximum) :
    boundedTotal size itemMaximum totalMaximum itemError totalError 0 xs =
      boundedTotal size itemMaximum totalMaximum itemError totalError 0 ys := by
  have hsum : (xs.map size).sum = (ys.map size).sum := (hp.map size).sum_eq
  have hitem' : ∀ y ∈ ys, size y ≤ itemMaximum := fun y hy => hitem y (hp.mem_iff.mpr hy)
  by_cases h : 0 + (xs.map size).sum ≤ totalMaximum
  · rw [(boundedTotal_eq_ok hword (Nat.zero_le _)).mpr ⟨hitem, h, rfl⟩,
      (boundedTotal_eq_ok hword (Nat.zero_le _)).mpr ⟨hitem', hsum ▸ h, rfl⟩, hsum]
  · rw [boundedTotal_eq_error (Nat.zero_le _) hitem (by omega),
      boundedTotal_eq_error (Nat.zero_le _) hitem' (by omega)]

end Invokrum.BoundedTotal
