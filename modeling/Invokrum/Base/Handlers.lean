import Invokrum.Base.Environment
import Invokrum.Base.Equality
import Invokrum.Base.Execution
import Invokrum.Base.Outcome

/-!
# Handlers

A handler answers every call of one kind with a program over calls of another
kind. A program over the first kind then becomes a program over the second, and
its runs are runs over the effects that the handler has.
-/

namespace Invokrum.Programs

open Outcome (mapError_eq_ok)

variable {C D : Type} {R : C → Type} {Q : D → Type} {S α β ε ε' : Type}

/-- A program for every call. -/
abbrev Handler (C : Type) (R : C → Type) (D : Type) (Q : D → Type) : Type :=
  (c : C) → Program D Q (R c)

def Program.handle (handler : Handler C R D Q) : Program C R α → Program D Q α
  | .done a => .done a
  | .call c next => handler c >>= fun r => (next r).handle handler

def Fallible.handle (handler : Handler C R D Q) (x : Fallible C R ε α) : Fallible D Q ε α :=
  ExceptT.mk (x.run.handle handler)

/-- The effect of a call that the handler answers. -/
def Handler.Serves (handler : Handler C R D Q) (sem : S → (d : D) → Q d → S → Prop) (s : S) (c : C)
    (r : R c) (s' : S) : Prop :=
  ∃ trace, Executes sem s (handler c) trace r s'

/-- More effects allow more runs. -/
theorem Executes.mono {sem sem' : S → (c : C) → R c → S → Prop} {p : Program C R α} {s s' : S}
    {trace : List (Event C R)} {a : α} (h : Executes sem s p trace a s')
    (hsem : ∀ s c r s', sem s c r s' → sem' s c r s') : Executes sem' s p trace a s' := by
  induction h with
  | done => exact .done
  | call hcall _ ih => exact .call (hsem _ _ _ _ hcall) ih

variable {handler : Handler C R D Q} {sem : S → (d : D) → Q d → S → Prop} {s s' : S}

theorem exists_executes_handle {p : Program C R α} {a : α} :
    (∃ trace, Executes sem s (p.handle handler) trace a s') ↔
      ∃ trace, Executes (handler.Serves sem) s p trace a s' := by
  induction p generalizing s with
  | done b =>
      simp only [Program.handle, executes_done, exists_eq_left]
  | call c next ih =>
      simp only [Program.handle, executes_andThen, executes_call]
      constructor
      · intro h
        obtain ⟨_, r, s₁, front, back, hfront, hback, _⟩ := h
        obtain ⟨rest, hrest⟩ := (ih r).mp ⟨back, hback⟩
        exact ⟨_, r, s₁, rest, ⟨front, hfront⟩, hrest, rfl⟩
      · intro h
        obtain ⟨_, r, s₁, rest, ⟨front, hfront⟩, hrest, _⟩ := h
        obtain ⟨back, hback⟩ := (ih r).mpr ⟨rest, hrest⟩
        exact ⟨_, r, s₁, front, back, hfront, hback, rfl⟩

/-- The runs of a handled program are the runs of the program over served calls. -/
theorem exists_executes_handle_fallible {x : Fallible C R ε α} {u : Except ε α} :
    (∃ trace, Executes sem s (x.handle handler).run trace u s') ↔
      ∃ trace, Executes (handler.Serves sem) s x.run trace u s' :=
  exists_executes_handle

/-! ## Runs that an environment confirms -/

/-- Where a run arrives at a value, the environment arrives at it too, in the same state. -/
def Confirms (env : Environment C R S) (sem : S → (c : C) → R c → S → Prop)
    (x : Fallible C R ε α) : Prop :=
  ∀ s trace a s', Executes sem s x.run trace (.ok a) s' → env.outcome x s = (.ok a, s')

section

variable {env : Environment C R S} {sem : S → (c : C) → R c → S → Prop} {x : Fallible C R ε α}
  {f : α → Fallible C R ε β}

theorem Confirms.pure {a : α} : Confirms env sem (pure a : Fallible C R ε α) := by
  intro s trace b s' h
  obtain ⟨_, hb, rfl⟩ := executes_pure.mp h
  cases hb
  rfl

theorem Confirms.throwIf {c : Prop} [Decidable c] {e : ε} :
    Confirms env sem (Fallible.throwIf c e : Fallible C R ε Unit) := by
  intro s trace a s' h
  obtain ⟨_, ha, rfl⟩ := executes_throwIf.mp h
  rw [Environment.outcome_throwIf, ← ha]

theorem Confirms.ofExcept {y : Except ε α} :
    Confirms env sem (Fallible.ofExcept y : Fallible C R ε α) := by
  intro s trace a s' h
  obtain ⟨_, ha, rfl⟩ := executes_ofExcept.mp h
  rw [Environment.outcome_ofExcept, ha]

theorem Confirms.bind (hx : Confirms env sem x) (hf : ∀ a, Confirms env sem (f a)) :
    Confirms env sem (x >>= f) := by
  intro s trace b s' h
  rcases executes_bind.mp h with ⟨e, _, hb⟩ | ⟨a, s₁, front, back, hfront, hback, _⟩
  · cases hb
  · rw [Environment.bind_of_ok (hx s front a s₁ hfront)]
    exact hf a s₁ back b s' hback

theorem Confirms.forM {g : β → Fallible C R ε PUnit} {ys : List β}
    (hg : ∀ y ∈ ys, Confirms env sem (g y)) : Confirms env sem (ys.forM g) := by
  induction ys with
  | nil => exact Confirms.pure
  | cons y ys ih =>
      apply Confirms.bind (hg y List.mem_cons_self)
      intro _
      exact ih fun z hz => hg z (List.mem_cons_of_mem y hz)

theorem executes_mapError {wrap : ε → ε} {u : Except ε α} {trace : List (Event C R)} :
    Executes sem s (x.mapError wrap).run trace u s' ↔
      ∃ v, Executes sem s x.run trace v s' ∧ u = v.mapError wrap := by
  rw [Fallible.mapError, ExceptT.run_mk, executes_andThen]
  constructor
  · intro h
    obtain ⟨v, s₁, front, back, hfront, hback, rfl⟩ := h
    obtain ⟨rfl, rfl, rfl⟩ := executes_done.mp hback
    rw [List.append_nil]
    exact ⟨v, hfront, rfl⟩
  · intro h
    obtain ⟨v, hx, rfl⟩ := h
    exact ⟨v, s', trace, [], hx, .done, (List.append_nil _).symm⟩

theorem executes_withError {wrap : ε → ε'} {u : Except ε' α} {trace : List (Event C R)} :
    Executes sem s (x.withError wrap).run trace u s' ↔
      ∃ v, Executes sem s x.run trace v s' ∧ u = v.mapError wrap :=
  executes_adapt

theorem Confirms.mapError {wrap : ε → ε} (hx : Confirms env sem x) :
    Confirms env sem (x.mapError wrap) := by
  intro s trace a s' h
  obtain ⟨v, hv, ha⟩ := executes_mapError.mp h
  obtain rfl := (mapError_eq_ok.mp ha.symm)
  rw [Environment.outcome_mapError, hx s trace a s' hv]
  rfl

end

section

variable {E V : C → Type} {env : Environment C (fun c => Except (E c) (V c)) S}
  {sem : S → (c : C) → Except (E c) (V c) → S → Prop}

theorem Confirms.attempt {c : C} {wrap : E c → ε}
    (h : ∀ s v s', sem s c (.ok v) s' → env s c = (.ok v, s')) :
    Confirms env sem (Fallible.attempt c wrap) := by
  intro s trace a s' hrun
  obtain ⟨v, hcall, _, ha⟩ := executes_attempt.mp hrun
  obtain rfl := mapError_eq_ok.mp ha.symm
  rw [Environment.outcome_attempt, h s a s' hcall]
  rfl

end

/-! ## Guards and cleanup -/

section

variable {sem : S → (c : C) → R c → S → Prop} {x : Fallible C R ε α} {trace : List (Event C R)}

/-- A guarded body runs, then its guard is released. -/
theorem executes_guarded {release : Fallible C R ε Unit} {u : Except ε α} :
    Executes sem s (x.guarded release).run trace u s' ↔ ∃ s₁ front back v,
      Executes sem s x.run front u s₁ ∧ Executes sem s₁ release.run back v s' ∧
        trace = front ++ back := by
  rw [Fallible.guarded, ExceptT.run_mk, executes_andThen]
  constructor
  · intro h
    obtain ⟨v, s₁, front, back, hfront, hback, rfl⟩ := h
    obtain ⟨w, s₂, middle, last, hmiddle, hlast, rfl⟩ := executes_andThen.mp hback
    obtain ⟨rfl, rfl, rfl⟩ := executes_done.mp hlast
    rw [List.append_nil]
    exact ⟨s₁, front, middle, w, hfront, hmiddle, rfl⟩
  · intro h
    obtain ⟨s₁, front, back, w, hfront, hback, rfl⟩ := h
    refine ⟨u, s₁, front, back, hfront, ?_, rfl⟩
    exact executes_andThen.mpr ⟨w, s', back, [], hback, .done, (List.append_nil _).symm⟩

/-- A body that arrives at a value is not cleaned up after. -/
theorem executes_onError_ok {cleanup : Fallible C R ε Unit} {a : α} :
    Executes sem s (x.onError cleanup).run trace (.ok a) s' ↔
      Executes sem s x.run trace (.ok a) s' := by
  rw [Fallible.onError, ExceptT.run_mk, executes_andThen]
  constructor
  · intro h
    obtain ⟨v, s₁, front, back, hfront, hback, rfl⟩ := h
    cases v with
    | ok b =>
        obtain ⟨rfl, hb, rfl⟩ := executes_done.mp hback
        cases hb
        rwa [List.append_nil]
    | error e =>
        obtain ⟨_, _, _, _, _, hdone, _⟩ := executes_andThen.mp hback
        obtain ⟨_, hb, _⟩ := executes_done.mp hdone
        cases hb
  · intro h
    exact ⟨.ok a, s', trace, [], h, .done, (List.append_nil _).symm⟩

end

end Invokrum.Programs
