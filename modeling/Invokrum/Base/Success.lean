import Invokrum.Base.Handlers

/-!
# Programs that arrive at a value

What a program achieves is the values it may arrive at and the states it may
leave, in some run. A program in sequence achieves what its parts do, so a
specification of its success is read off its text.
-/

namespace Invokrum.Programs

variable {C D : Type} {R : C → Type} {Q : D → Type} {S α β ε ε' : Type}

/-- Some run from `s` arrives at `a` in `s'`. -/
def Achieves (sem : S → (c : C) → R c → S → Prop) (s : S) (x : Fallible C R ε α) (a : α)
    (s' : S) : Prop :=
  ∃ trace, Executes sem s x.run trace (.ok a) s'

variable {sem : S → (c : C) → R c → S → Prop} {s s' : S} {x : Fallible C R ε α} {a : α}
  {f : α → Fallible C R ε β} {b : β}

theorem achieves_pure {a' : α} :
    Achieves sem s (pure a : Fallible C R ε α) a' s' ↔ a' = a ∧ s' = s := by
  simp only [Achieves, executes_pure, Except.ok.injEq, exists_eq_left]

theorem achieves_ofExcept {y : Except ε α} :
    Achieves sem s (Fallible.ofExcept y : Fallible C R ε α) a s' ↔ y = .ok a ∧ s' = s := by
  simp only [Achieves, executes_ofExcept, exists_eq_left, eq_comm]

theorem achieves_throwIf {c : Prop} [Decidable c] {e : ε} {u : Unit} :
    Achieves sem s (Fallible.throwIf c e : Fallible C R ε Unit) u s' ↔ ¬ c ∧ s' = s := by
  simp only [Achieves, executes_throwIf, exists_eq_left]
  apply and_congr_left
  intro _
  by_cases hc : c <;> simp [hc]

theorem achieves_bind : Achieves sem s (x >>= f) b s' ↔
    ∃ a s₁, Achieves sem s x a s₁ ∧ Achieves sem s₁ (f a) b s' := by
  constructor
  · intro h
    obtain ⟨trace, h⟩ := h
    rcases executes_bind.mp h with ⟨e, _, he⟩ | ⟨a, s₁, front, back, hfront, hback, _⟩
    · cases he
    · exact ⟨a, s₁, ⟨front, hfront⟩, ⟨back, hback⟩⟩
  · intro h
    obtain ⟨a, s₁, ⟨front, hfront⟩, ⟨back, hback⟩⟩ := h
    exact ⟨front ++ back, executes_bind.mpr (.inr ⟨a, s₁, front, back, hfront, hback, rfl⟩)⟩

theorem achieves_ofExcept_bind {y : Except ε α} :
    Achieves sem s (Fallible.ofExcept y >>= f) b s' ↔
      ∃ a, y = .ok a ∧ Achieves sem s (f a) b s' := by
  rw [achieves_bind]
  apply exists_congr
  intro a
  constructor
  · intro h
    obtain ⟨s₁, hy, hf⟩ := h
    obtain ⟨hvalue, rfl⟩ := achieves_ofExcept.mp hy
    exact ⟨hvalue, hf⟩
  · intro h
    exact ⟨s, achieves_ofExcept.mpr ⟨h.1, rfl⟩, h.2⟩

theorem achieves_throwIf_bind {c : Prop} [Decidable c] {e : ε} {g : Unit → Fallible C R ε β} :
    Achieves sem s (Fallible.throwIf c e >>= g) b s' ↔ ¬ c ∧ Achieves sem s (g ()) b s' := by
  rw [achieves_bind]
  constructor
  · intro h
    obtain ⟨_, s₁, hc, hg⟩ := h
    obtain ⟨hnot, rfl⟩ := achieves_throwIf.mp hc
    exact ⟨hnot, hg⟩
  · intro h
    exact ⟨(), s, achieves_throwIf.mpr ⟨h.1, rfl⟩, h.2⟩

theorem achieves_withError {wrap : ε → ε'} :
    Achieves sem s (x.withError wrap) a s' ↔ Achieves sem s x a s' := by
  constructor
  · intro h
    obtain ⟨trace, h⟩ := h
    obtain ⟨v, hx, hv⟩ := executes_withError.mp h
    obtain rfl := Outcome.mapError_eq_ok.mp hv.symm
    exact ⟨trace, hx⟩
  · intro h
    obtain ⟨trace, h⟩ := h
    exact ⟨trace, executes_withError.mpr ⟨_, h, rfl⟩⟩

theorem achieves_adapt {wrap : ε → ε'} :
    Achieves sem s (ExceptT.adapt wrap x) a s' ↔ Achieves sem s x a s' :=
  achieves_withError

/-- A handled program achieves what the program does over the calls that the handler serves. -/
theorem achieves_handle {handler : Handler D Q C R} {y : Fallible D Q ε α} :
    Achieves sem s (y.handle handler) a s' ↔ Achieves (handler.Serves sem) s y a s' :=
  exists_executes_handle_fallible

theorem Handler.serves_done {handler : Handler D Q C R} {d : D} {r r' : Q d}
    (h : handler d = .done r) : handler.Serves sem s d r' s' ↔ r' = r ∧ s' = s := by
  simp only [Handler.Serves, h, executes_done, exists_eq_left]

theorem Achieves.mono {sem' : S → (c : C) → R c → S → Prop} (h : Achieves sem s x a s')
    (hsem : ∀ s c r s', sem s c r s' → sem' s c r s') : Achieves sem' s x a s' := by
  obtain ⟨trace, h⟩ := h
  exact ⟨trace, h.mono hsem⟩

theorem achieves_reply {c : C} {v : R c} :
    Achieves sem s (Fallible.reply c : Fallible C R ε (R c)) v s' ↔ sem s c v s' := by
  simp only [Achieves, executes_reply, Except.ok.injEq]
  constructor
  · intro h
    obtain ⟨_, _, hcall, _, rfl⟩ := h
    exact hcall
  · intro h
    exact ⟨_, v, h, rfl, rfl⟩

section

variable {E V : C → Type} {sem : S → (c : C) → Except (E c) (V c) → S → Prop}

theorem achieves_attempt {c : C} {wrap : E c → ε} {v : V c} :
    Achieves sem s (Fallible.attempt c wrap) v s' ↔ sem s c (.ok v) s' := by
  simp only [Achieves, executes_attempt]
  constructor
  · intro h
    obtain ⟨_, reply, hcall, _, hv⟩ := h
    rwa [Outcome.mapError_eq_ok.mp hv.symm] at hcall
  · intro h
    exact ⟨_, .ok v, h, rfl, rfl⟩

end

/-- Where an environment stays within the effects, its outcomes are achieved. -/
theorem achieves_of_outcome {env : Environment C R S}
    (henv : ∀ s c, sem s c (env s c).1 (env s c).2) (h : env.outcome x s = (.ok a, s')) : Achieves sem s x a s' := by
  have hrun : ∀ {γ : Type} (p : Program C R γ) (s : S),
      ∃ trace, Executes sem s p trace (p.run env s).1 (p.run env s).2 := by
    intro γ p
    induction p with
    | done c => exact fun s => ⟨[], .done⟩
    | call c next ih =>
        intro s
        obtain ⟨trace, hrest⟩ := ih (env s c).1 (env s c).2
        exact ⟨_, .call (henv s c) hrest⟩
  obtain ⟨trace, htrace⟩ := hrun x.run s
  have hout : x.run.run env s = (.ok a, s') := h
  rw [hout] at htrace
  exact ⟨trace, htrace⟩

end Invokrum.Programs
