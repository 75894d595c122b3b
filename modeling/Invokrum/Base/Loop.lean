import Invokrum.Base.Slice

/-!
# Loops run on fuel

`loop { … }` with a body that breaks, continues with a new state or stops. A
run that does not exhaust its fuel is a path of continuing steps to a state in
which the body breaks; a measure that every step decreases bounds the fuel.
-/

namespace Invokrum.Loop

open Outcome Slice

variable {σ ε : Type}

/-- The loop; the body answers `none` to break. -/
def runLoop (step : σ → Except (Halt ε) (Option σ)) : Nat → σ → Except (Halt ε) σ
  | 0, _ => .error .diverge
  | fuel + 1, state => do
      match ← step state with
      | none => pure state
      | some next => runLoop step fuel next

/-- One continuing step. -/
def Continues (step : σ → Except (Halt ε) (Option σ)) (s s' : σ) : Prop := step s = .ok (some s')

variable {step : σ → Except (Halt ε) (Option σ)} {fuel : Nat} {s s' t : σ}

theorem runLoop_break (h : step s = .ok none) : runLoop step (fuel + 1) s = .ok s := by
  rw [runLoop, h]
  rfl

theorem runLoop_continue (h : Continues step s s') :
    runLoop step (fuel + 1) s = runLoop step fuel s' := by
  rw [runLoop, show step s = .ok (some s') from h]
  rfl

/-- The loop ends where a path of steps breaks. -/
theorem path_of_runLoop (h : runLoop step fuel s = .ok t) :
    Relation.ReflTransGen (Continues step) s t ∧ step t = .ok none := by
  induction fuel generalizing s with
  | zero => cases h
  | succ fuel ih =>
      cases hstep : step s with
      | error e =>
          rw [runLoop, hstep] at h
          cases h
      | ok next =>
          cases next with
          | none =>
              rw [runLoop_break hstep, Except.ok.injEq] at h
              subst t
              exact ⟨.refl, hstep⟩
          | some s' =>
              rw [runLoop_continue hstep] at h
              obtain ⟨hpath, hbreak⟩ := ih h
              exact ⟨.head hstep hpath, hbreak⟩

/-- A loop that returns follows every path of its steps. -/
theorem runLoop_of_path (hreturns : Returns (runLoop step fuel s))
    (hpath : Relation.ReflTransGen (Continues step) s t) (hbreak : step t = .ok none) :
    runLoop step fuel s = .ok t := by
  induction fuel generalizing s with
  | zero =>
      obtain ⟨e, he⟩ := hreturns _ rfl
      cases he
  | succ fuel ih =>
      rcases hpath.cases_head with rfl | ⟨s', hstep, hrest⟩
      · exact runLoop_break hbreak
      · rw [runLoop_continue hstep] at hreturns ⊢
        exact ih hreturns hrest

/-- Under a decreasing measure the fuel is enough. -/
theorem runLoop_returns (Inv : σ → Prop) (size : σ → Nat)
    (hreturns : ∀ s, Inv s → Returns (step s))
    (hstep : ∀ s s', Inv s → Continues step s s' → Inv s' ∧ size s' < size s)
    (hs : Inv s) (hfuel : size s < fuel) : Returns (runLoop step fuel s) := by
  induction fuel generalizing s with
  | zero => omega
  | succ fuel ih =>
      rw [runLoop]
      refine (hreturns s hs).bind fun next hnext => ?_
      cases next with
      | none => exact .ok s
      | some s' =>
          obtain ⟨hs', hsize⟩ := hstep s s' hs hnext
          exact ih hs' (by omega)

end Invokrum.Loop
