import Invokrum.Base.Outcome

/-!
# Slices, positions and panics

`getRange` is the checked slice, `indexRange` the one that panics. A body over
slices stops with a returned error, a panic or, for a loop run on fuel, without
an answer; `Returns` says that only the first of these can happen.
-/

namespace Invokrum.Slice

open Outcome

variable {α β ε ε' : Type}

/-- How a body can stop without a value. -/
inductive Halt (ε : Type) where
  | returned (error : ε)
  | panic
  | diverge
deriving DecidableEq

/-! ## Slices -/

/-- `slice.get(start..stop)`. -/
def getRange (xs : List α) (start stop : Nat) : Option (List α) :=
  if start ≤ stop ∧ stop ≤ xs.length then some ((xs.drop start).take (stop - start)) else none

/-- `slice[start..stop]`, which panics out of range. -/
def indexRange (xs : List α) (start stop : Nat) : Except (Halt ε) (List α) :=
  okOr (getRange xs start stop) .panic

/-- The slice of a range known to be in bounds. -/
def field (xs : List α) (start stop : Nat) : List α := (xs.drop start).take (stop - start)

theorem indexRange_of_le {xs : List α} {start stop : Nat} (h : start ≤ stop ∧ stop ≤ xs.length) :
    (indexRange xs start stop : Except (Halt ε) (List α)) = .ok (field xs start stop) := by
  simp [indexRange, getRange, field, h, okOr]

/-- `slice[start..]` after a prefix that ends there. -/
theorem indexRange_append (xs ys : List α) :
    (indexRange (xs ++ ys) xs.length (xs ++ ys).length : Except (Halt ε) (List α)) = .ok ys := by
  rw [indexRange_of_le (by simp), field, List.drop_left, List.take_of_length_le (by simp)]

theorem getRange_bounds {xs ys : List α} {start stop : Nat} (h : getRange xs start stop = some ys) :
    start ≤ stop ∧ stop ≤ xs.length := by
  unfold getRange at h
  split at h
  · next hbounds => exact hbounds
  · cases h

theorem getRange_append (xs ys zs : List α) :
    getRange (xs ++ (ys ++ zs)) xs.length (xs.length + ys.length) = some ys := by
  have hbounds : xs.length ≤ xs.length + ys.length ∧
      xs.length + ys.length ≤ (xs ++ (ys ++ zs)).length := by
    simp only [List.length_append]
    omega
  rw [getRange, if_pos hbounds, List.drop_left, Nat.add_sub_cancel_left, List.take_left]

/-- A checked slice that starts where `done` ends takes a prefix of what follows. -/
theorem getRange_eq_some {done rest ys : List α} {count : Nat} :
    getRange (done ++ rest) done.length (done.length + count) = some ys ↔
      ys.length = count ∧ ∃ tail, rest = ys ++ tail := by
  constructor
  · intro h
    unfold getRange at h
    split at h
    · next hbounds =>
        rw [List.drop_left, Nat.add_sub_cancel_left, Option.some.injEq] at h
        rw [List.length_append] at hbounds
        refine ⟨?_, rest.drop count, ?_⟩
        · rw [← h, List.length_take]
          omega
        · rw [← h, List.take_append_drop]
    · cases h
  · intro h
    obtain ⟨rfl, tail, rfl⟩ := h
    exact getRange_append done ys tail

/-! ## Bodies that only return -/

/-- The body ends in a value or in a returned error. -/
def Returns (x : Except (Halt ε) α) : Prop := ∀ h, x = .error h → ∃ e, h = .returned e

theorem Returns.ok (a : α) : Returns (.ok a : Except (Halt ε) α) := by
  intro h heq
  cases heq

theorem Returns.error (e : ε) : Returns (.error (.returned e) : Except (Halt ε) α) := by
  intro h heq
  cases heq
  exact ⟨e, rfl⟩

theorem Returns.bind {x : Except (Halt ε) α} {f : α → Except (Halt ε) β} (hx : Returns x)
    (hf : ∀ a, x = .ok a → Returns (f a)) : Returns (x >>= f) := by
  intro h heq
  cases hcase : x with
  | error h' =>
      rw [hcase, error_bind] at heq
      cases heq
      exact hx _ hcase
  | ok a =>
      rw [hcase, ok_bind] at heq
      exact hf a hcase h heq

theorem Returns.rejectIf (c : Prop) [Decidable c] (e : ε) :
    Returns (rejectIf c (.returned e) : Except (Halt ε) Unit) := by
  by_cases h : c
  · rw [rejectIf_of _ h]
    exact .error e
  · rw [rejectIf_of_not _ h]
    exact .ok ()

theorem Returns.okOr (x : Option α) (e : ε) :
    Returns (okOr x (.returned e) : Except (Halt ε) α) := by
  cases x with
  | none => exact .error e
  | some a => exact .ok a

theorem Returns.mapError (x : Except ε' α) (e : ε' → ε) :
    Returns (x.mapError fun e' => Halt.returned (e e')) := by
  cases x with
  | error e' => exact .error (e e')
  | ok a => exact .ok a

theorem Returns.indexRange {xs : List α} {start stop : Nat}
    (h : start ≤ stop ∧ stop ≤ xs.length) :
    Returns (indexRange xs start stop : Except (Halt ε) (List α)) := by
  rw [indexRange_of_le h]
  exact .ok _

theorem Returns.forEach {f : α → Except (Halt ε) Unit} (h : ∀ x, Returns (f x)) (xs : List α) :
    Returns (forEach f xs) := by
  induction xs with
  | nil => exact .ok ()
  | cons x xs ih => exact (h x).bind fun _ _ => ih

theorem Returns.rejectDuplicatesFrom {κ : Type} [DecidableEq κ] (key : α → κ) (error : α → ε)
    (seen : List κ) (xs : List α) : Returns
      (rejectDuplicatesFrom key (fun x => .returned (error x)) seen xs : Except (Halt ε) Unit) := by
  induction xs generalizing seen with
  | nil => exact .ok ()
  | cons x xs ih => exact (Returns.rejectIf _ _).bind fun _ _ => ih _

/-! ## Positions -/

/-- `iter.rposition(p)`: the index of the last element satisfying `p`. -/
def rposition (p : α → Bool) : List α → Option Nat
  | [] => none
  | x :: xs =>
      match rposition p xs with
      | some index => some (index + 1)
      | none => if p x then some 0 else none

theorem rposition_eq_none {p : α → Bool} {xs : List α} :
    rposition p xs = none ↔ ∀ x ∈ xs, p x = false := by
  induction xs with
  | nil => simp [rposition]
  | cons x xs ih =>
      rw [rposition, List.forall_mem_cons, ← ih]
      cases rposition p xs with
      | none => cases p x <;> simp
      | some index => simp

theorem rposition_eq_some {p : α → Bool} {xs : List α} {index : Nat}
    (h : rposition p xs = some index) : ∃ before x after, xs = before ++ x :: after ∧
      before.length = index ∧ p x = true ∧ ∀ y ∈ after, p y = false := by
  induction xs generalizing index with
  | nil => cases h
  | cons x xs ih =>
      rw [rposition] at h
      cases hrest : rposition p xs with
      | some i =>
          obtain ⟨before, y, after, rfl, hlength, hy, hafter⟩ := ih hrest
          rw [hrest, Option.some.injEq] at h
          exact ⟨x :: before, y, after, rfl, by rw [List.length_cons, hlength, h], hy, hafter⟩
      | none =>
          rw [hrest] at h
          have hx : p x = true ∧ index = 0 := by
            cases hp : p x <;> simp_all
          exact ⟨[], x, xs, rfl, hx.2.symm, hx.1, rposition_eq_none.mp hrest⟩

theorem rposition_append (p : α → Bool) (before : List α) {x : α} {after : List α}
    (hx : p x = true) (hafter : ∀ y ∈ after, p y = false) :
    rposition p (before ++ x :: after) = some before.length := by
  induction before with
  | nil => simp [rposition, rposition_eq_none.mpr hafter, hx]
  | cons b before ih => simp [rposition, ih]

theorem findIdx_append (p : α → Bool) {before rest : List α} (h : ∀ x ∈ before, p x = false) :
    (before ++ rest).findIdx p = before.length + rest.findIdx p := by
  induction before with
  | nil => simp
  | cons b before ih =>
      rw [List.forall_mem_cons] at h
      rw [List.cons_append, List.findIdx_cons, h.1, cond_false, ih h.2, List.length_cons]
      omega

/-! ## Trimming -/

/-- From the first element satisfying `p` to just after the last one. -/
def trimBounds (p : α → Bool) (xs : List α) : Nat × Nat :=
  let start := xs.findIdx p
  let stop := match rposition p xs with
    | some index => index + 1
    | none => start
  (start, stop)

theorem getRange_trimBounds_nil {p : α → Bool} {xs : List α} (h : ∀ x ∈ xs, p x = false) :
    getRange xs (trimBounds p xs).1 (trimBounds p xs).2 = some [] := by
  have hstart : xs.findIdx p = xs.length := List.findIdx_eq_length.mpr h
  simp [trimBounds, rposition_eq_none.mpr h, hstart, getRange]

/-- The trimmed slice is in range and only elements failing `p` lie around it. -/
theorem getRange_trimBounds (p : α → Bool) (xs : List α) :
    ∃ lead mid trail, xs = lead ++ (mid ++ trail) ∧
      getRange xs (trimBounds p xs).1 (trimBounds p xs).2 = some mid ∧
        (∀ x ∈ lead, p x = false) ∧ ∀ x ∈ trail, p x = false := by
  cases hlast : rposition p xs with
  | none =>
      have hnone := rposition_eq_none.mp hlast
      exact ⟨xs, [], [], by simp, getRange_trimBounds_nil hnone, hnone, by simp⟩
  | some index =>
      obtain ⟨before, x, after, rfl, hlength, hx, hafter⟩ := rposition_eq_some hlast
      have hstart : (before ++ x :: after).findIdx p ≤ before.length := by
        refine Nat.le_of_not_lt fun hlt => ?_
        have hnot := List.not_of_lt_findIdx hlt
        simp [hx] at hnot
      have hbounds : trimBounds p (before ++ x :: after) =
          ((before ++ x :: after).findIdx p, before.length + 1) := by
        simp [trimBounds, hlast, hlength]
      rw [hbounds]
      generalize hidx : (before ++ x :: after).findIdx p = start at hstart
      have hsplit : before ++ x :: after =
          before.take start ++ ((before.drop start ++ [x]) ++ after) := by
        rw [← List.append_assoc, ← List.append_assoc, List.take_append_drop, List.append_assoc]
        rfl
      have hlead : (before.take start).length = start := by
        rw [List.length_take]
        omega
      have hmid : (before.take start).length + (before.drop start ++ [x]).length =
          before.length + 1 := by
        rw [hlead, List.length_append, List.length_drop, List.length_singleton]
        omega
      refine ⟨before.take start, before.drop start ++ [x], after, hsplit, ?_, ?_, hafter⟩
      · rw [hsplit]
        have hrange := getRange_append (before.take start) (before.drop start ++ [x]) after
        rwa [hmid, hlead] at hrange
      · intro y hy
        obtain ⟨i, hi, rfl⟩ := List.getElem_of_mem hy
        rw [hlead] at hi
        have hnot := List.not_of_lt_findIdx (hidx ▸ hi)
        simpa [List.getElem_append_left (show i < before.length by omega)] using hnot

theorem getRange_trimBounds_of_ne {p : α → Bool} {lead mid trail : List α}
    (hlead : ∀ x ∈ lead, p x = false) (hmid : ∀ x ∈ mid, p x = true) (hne : mid ≠ [])
    (htrail : ∀ x ∈ trail, p x = false) :
    getRange (lead ++ (mid ++ trail)) (trimBounds p (lead ++ (mid ++ trail))).1
      (trimBounds p (lead ++ (mid ++ trail))).2 = some mid := by
  have hstart : (lead ++ (mid ++ trail)).findIdx p = lead.length := by
    cases mid with
    | nil => exact absurd rfl hne
    | cons x mid =>
        rw [findIdx_append p hlead, List.cons_append, List.findIdx_cons,
          hmid x List.mem_cons_self, cond_true, Nat.add_zero]
  obtain ⟨front, x, rfl⟩ : ∃ front x, mid = front ++ [x] :=
    ⟨mid.dropLast, mid.getLast hne, (List.dropLast_append_getLast hne).symm⟩
  have hx : p x = true := hmid x (by simp)
  have hstop : rposition p (lead ++ ((front ++ [x]) ++ trail)) = some (lead ++ front).length := by
    have happend := rposition_append p (lead ++ front) hx htrail
    simpa using happend
  have hrange := getRange_append lead (front ++ [x]) trail
  simp only [trimBounds, hstart, hstop]
  rw [show (lead ++ front).length + 1 = lead.length + (front ++ [x]).length by
    simp only [List.length_append, List.length_singleton]; omega]
  exact hrange

/-- Trimming recovers a middle all of whose elements satisfy `p`. -/
theorem getRange_trimBounds_of {p : α → Bool} {lead mid trail : List α}
    (hlead : ∀ x ∈ lead, p x = false) (hmid : ∀ x ∈ mid, p x = true)
    (htrail : ∀ x ∈ trail, p x = false) :
    getRange (lead ++ (mid ++ trail)) (trimBounds p (lead ++ (mid ++ trail))).1
      (trimBounds p (lead ++ (mid ++ trail))).2 = some mid := by
  by_cases hne : mid = []
  · subst hne
    refine getRange_trimBounds_nil fun x hx => ?_
    rcases List.mem_append.mp hx with hx | hx
    · exact hlead x hx
    · exact htrail x hx
  · exact getRange_trimBounds_of_ne hlead hmid hne htrail

end Invokrum.Slice
