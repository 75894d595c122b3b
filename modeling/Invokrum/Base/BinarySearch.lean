import Mathlib.Tactic

/-!
# Binary search over a sorted list

The halving loop of a slice search. On a list strictly sorted by key it finds
exactly the element of the requested key; the loop itself assumes nothing.
-/

namespace Invokrum.BinarySearch

variable {α κ : Type}

/-- The halving loop: `size` candidates starting at `base`, `greater i` when the
element at `i` lies above the target. The fuel only has to reach `size`. -/
def narrow (greater : Nat → Bool) : Nat → Nat → Nat → Nat
  | 0, base, _ => base
  | fuel + 1, base, size =>
      if size ≤ 1 then base
      else
        let half := size / 2
        let mid := base + half
        narrow greater fuel (if greater mid then base else mid) (size - half)

/-- `slice.binary_search_by(|candidate| key(candidate).cmp(&target)).ok()` as the found element. -/
def search [LinearOrder κ] (key : α → κ) (target : κ) (xs : List α) : Option α :=
  let greater := fun i => xs[i]?.any fun x => target < key x
  xs[narrow greater xs.length 0 xs.length]?.filter fun x => key x == target

/-- The target's position stays inside the candidate window of every iteration. -/
theorem narrow_eq {greater : Nat → Bool} {limit position : Nat}
    (hgreater : ∀ i < limit, (greater i = true ↔ position < i)) :
    ∀ fuel base size, size ≤ fuel → base + size ≤ limit → base ≤ position →
      position < base + size → narrow greater fuel base size = position := by
  intro fuel
  induction fuel with
  | zero =>
      intro base size hfuel hlimit hbase hlt
      omega
  | succ fuel ih =>
      intro base size hfuel hlimit hbase hlt
      unfold narrow
      by_cases hsize : size ≤ 1
      · rw [if_pos hsize]
        omega
      · rw [if_neg hsize]
        have hmid := hgreater (base + size / 2) (by omega)
        by_cases hg : greater (base + size / 2) = true
        · have hlow := hmid.mp hg
          simp only [hg, if_true]
          exact ih base (size - size / 2) (by omega) (by omega) hbase (by omega)
        · have hhigh : ¬ position < base + size / 2 := fun h => hg (hmid.mpr h)
          simp only [hg]
          exact ih (base + size / 2) (size - size / 2) (by omega) (by omega) (by omega) (by omega)

section

variable [LinearOrder κ] {key : α → κ} {xs : List α}

private theorem greater_iff (hsorted : xs.Pairwise (fun a b => key a < key b)) {t : Nat}
    (ht : t < xs.length) (i : Nat) (hi : i < xs.length) :
    key xs[t] < key xs[i] ↔ t < i := by
  have hpair := List.pairwise_iff_getElem.mp hsorted
  constructor
  · intro hlt
    rcases Nat.lt_trichotomy t i with h | h | h
    · exact h
    · subst h; exact absurd hlt (lt_irrefl _)
    · exact absurd hlt (lt_asymm (hpair i t hi ht h))
  · exact hpair t i ht hi

/-- On a strictly sorted list the search succeeds exactly on the stored elements. -/
theorem search_eq_some (hsorted : xs.Pairwise (fun a b => key a < key b)) {target : κ} {x : α} :
    search key target xs = some x ↔ x ∈ xs ∧ key x = target := by
  constructor
  · intro h
    obtain ⟨hget, hkey⟩ := Option.filter_eq_some_iff.mp h
    exact ⟨List.mem_of_getElem? hget, by simpa using hkey⟩
  · rintro ⟨hmem, rfl⟩
    obtain ⟨t, ht, rfl⟩ := List.getElem_of_mem hmem
    have hgreater : ∀ i < xs.length,
        ((xs[i]?.any fun y => decide (key xs[t] < key y)) = true ↔ t < i) := fun i hi => by
      simp [hi, greater_iff hsorted ht i hi]
    have hnarrow := narrow_eq hgreater xs.length 0 xs.length le_rfl (by omega) (by omega)
      (by omega)
    simp [search, hnarrow, ht]

end

end Invokrum.BinarySearch
