import Invokrum.Base.Loop

/-!
# Errors a body never ends in

A sequence of checks avoids an error that none of its steps returns. A loop
avoids it when no step does from a state of the loop's invariant.
-/

namespace Invokrum.Outcome

open Slice Loop

variable {ε ε' α β σ : Type} {bad : ε}

/-- The body does not end in this error. -/
def Avoids (bad : ε) (x : Except ε α) : Prop := x ≠ .error bad

namespace Avoids

theorem ok (a : α) : Avoids bad (.ok a : Except ε α) := by
  intro h
  cases h

theorem error {e : ε} (h : e ≠ bad) : Avoids bad (.error e : Except ε α) := by
  intro heq
  exact h (Except.error.inj heq)

theorem bind {x : Except ε α} {f : α → Except ε β} (hx : Avoids bad x)
    (hf : ∀ a, x = .ok a → Avoids bad (f a)) : Avoids bad (x >>= f) := by
  intro h
  rcases bind_eq_error.mp h with herror | ⟨a, ha, herror⟩
  · exact hx herror
  · exact hf a ha herror

theorem rejectIf (c : Prop) [Decidable c] {e : ε} (h : e ≠ bad) :
    Avoids bad (rejectIf c e) := by
  intro heq
  exact h (rejectIf_eq_error.mp heq).2

theorem okOr (x : Option α) {e : ε} (h : e ≠ bad) : Avoids bad (okOr x e) := by
  intro heq
  exact h (okOr_eq_error.mp heq).2

theorem mapError {x : Except ε' α} {f : ε' → ε} (h : ∀ e, f e ≠ bad) :
    Avoids bad (x.mapError f) := by
  intro heq
  obtain ⟨e, _, hbad⟩ := mapError_eq_error.mp heq
  exact h e hbad

theorem forEach {f : α → Except ε Unit} (h : ∀ x, Avoids bad (f x)) (xs : List α) :
    Avoids bad (forEach f xs) := by
  intro heq
  obtain ⟨x, _, hx⟩ := forEach_eq_error heq
  exact h x hx

theorem rejectDuplicatesFrom {κ : Type} [DecidableEq κ] (key : α → κ) {f : α → ε}
    (h : ∀ x, f x ≠ bad) (seen : List κ) (xs : List α) :
    Avoids bad (rejectDuplicatesFrom key f seen xs) := by
  induction xs generalizing seen with
  | nil => exact .ok ()
  | cons x xs ih => exact (Avoids.rejectIf _ (h x)).bind fun _ _ => ih _

/-- Every state a loop reaches satisfies its invariant, so no step ends in the error. -/
theorem runLoop {step : σ → Except (Halt ε) (Option σ)} {bad : ε} (Inv : σ → Prop)
    (hstep : ∀ s, Inv s → Avoids (.returned bad) (step s))
    (hkeeps : ∀ s s', Inv s → Continues step s s' → Inv s') {fuel : Nat} {s : σ} (hs : Inv s) :
    Avoids (.returned bad) (runLoop step fuel s) := by
  induction fuel generalizing s with
  | zero => exact .error (by simp)
  | succ fuel ih =>
      unfold Loop.runLoop
      apply (hstep s hs).bind
      intro next hnext
      cases next with
      | none => exact .ok s
      | some s' => exact ih (hkeeps s s' hs hnext)

end Avoids

end Invokrum.Outcome
