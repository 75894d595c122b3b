import Invokrum.Base.Program

/-!
# Runs of composed programs

How a run of a program splits along the structure of the program. Every event
of the run belongs to one part, in order.
-/

namespace Invokrum.Programs

variable {C : Type} {R : C → Type} {S α β ε ε' : Type} {sem : S → (c : C) → R c → S → Prop}
  {s s' : S} {trace : List (Event C R)}

theorem executes_done {a b : α} :
    Executes sem s (.done a) trace b s' ↔ trace = [] ∧ b = a ∧ s' = s := by
  constructor
  · intro h
    cases h
    exact ⟨rfl, rfl, rfl⟩
  · intro h
    obtain ⟨rfl, rfl, rfl⟩ := h
    exact .done

theorem executes_call {c : C} {next : R c → Program C R α} {a : α} :
    Executes sem s (.call c next) trace a s' ↔ ∃ r s₁ rest, sem s c r s₁ ∧
      Executes sem s₁ (next r) rest a s' ∧ trace = ⟨c, r⟩ :: rest := by
  constructor
  · intro h
    cases h with
    | call hcall hnext => exact ⟨_, _, _, hcall, hnext, rfl⟩
  · intro h
    obtain ⟨r, s₁, rest, hcall, hnext, rfl⟩ := h
    exact .call hcall hnext

/-- A run of two programs in sequence is a run of the first and then one of the second. -/
theorem executes_andThen {p : Program C R α} {f : α → Program C R β} {b : β} :
    Executes sem s (p >>= f) trace b s' ↔ ∃ a s₁ front back,
      Executes sem s p front a s₁ ∧ Executes sem s₁ (f a) back b s' ∧ trace = front ++ back := by
  induction p generalizing s trace with
  | done a =>
      constructor
      · intro h
        exact ⟨a, s, [], trace, .done, h, rfl⟩
      · intro h
        obtain ⟨a', s₁, front, back, hfront, hback, rfl⟩ := h
        obtain ⟨rfl, rfl, rfl⟩ := executes_done.mp hfront
        exact hback
  | call c next ih =>
      constructor
      · intro h
        obtain ⟨r, s₁, rest, hcall, hnext, rfl⟩ := executes_call.mp h
        obtain ⟨a, s₂, front, back, hfront, hback, rfl⟩ := (ih r).mp hnext
        exact ⟨a, s₂, ⟨c, r⟩ :: front, back, .call hcall hfront, hback, rfl⟩
      · intro h
        obtain ⟨a, s₁, front, back, hfront, hback, rfl⟩ := h
        obtain ⟨r, s₂, rest, hcall, hnext, rfl⟩ := executes_call.mp hfront
        exact .call hcall ((ih r).mpr ⟨a, s₁, rest, back, hnext, hback, rfl⟩)

/-! ## Fallible programs -/

variable {r : Except ε α}

theorem executes_pure {a : α} :
    Executes sem s (pure a : Fallible C R ε α).run trace r s' ↔
      trace = [] ∧ r = .ok a ∧ s' = s :=
  executes_done

theorem executes_throw {e : ε} :
    Executes sem s (throw e : Fallible C R ε α).run trace r s' ↔
      trace = [] ∧ r = .error e ∧ s' = s :=
  executes_done

theorem executes_ofExcept {x : Except ε α} :
    Executes sem s (Fallible.ofExcept x : Fallible C R ε α).run trace r s' ↔
      trace = [] ∧ r = x ∧ s' = s :=
  executes_done

theorem executes_throwIf {c : Prop} [Decidable c] {e : ε} {u : Except ε Unit} :
    Executes sem s (Fallible.throwIf c e : Fallible C R ε Unit).run trace u s' ↔
      trace = [] ∧ u = (if c then .error e else .ok ()) ∧ s' = s := by
  unfold Fallible.throwIf
  split
  · exact executes_throw
  · exact executes_pure

theorem executes_reply {c : C} {u : Except ε (R c)} :
    Executes sem s (Fallible.reply c : Fallible C R ε (R c)).run trace u s' ↔
      ∃ v, sem s c v s' ∧ trace = [⟨c, v⟩] ∧ u = .ok v := by
  constructor
  · intro h
    obtain ⟨v, s₁, rest, hcall, hnext, rfl⟩ := executes_call.mp h
    obtain ⟨rfl, rfl, rfl⟩ := executes_done.mp hnext
    exact ⟨v, hcall, rfl, rfl⟩
  · intro h
    obtain ⟨v, hcall, rfl, rfl⟩ := h
    exact .call hcall .done

/-- A sequence ends with the error of its first part or goes on with its value. -/
theorem executes_bind {x : Fallible C R ε α} {f : α → Fallible C R ε β} {u : Except ε β} :
    Executes sem s (x >>= f).run trace u s' ↔
      (∃ e, Executes sem s x.run trace (.error e) s' ∧ u = .error e) ∨
      ∃ a s₁ front back, Executes sem s x.run front (.ok a) s₁ ∧
        Executes sem s₁ (f a).run back u s' ∧ trace = front ++ back := by
  have hrun : (x >>= f).run = x.run >>= ExceptT.bindCont f := rfl
  rw [hrun, executes_andThen]
  constructor
  · intro h
    obtain ⟨result, s₁, front, back, hfront, hback, rfl⟩ := h
    cases result with
    | ok a => exact .inr ⟨a, s₁, front, back, hfront, hback, rfl⟩
    | error e =>
        obtain ⟨rfl, rfl, rfl⟩ := executes_done.mp hback
        rw [List.append_nil]
        exact .inl ⟨e, hfront, rfl⟩
  · intro h
    rcases h with ⟨e, hx, rfl⟩ | ⟨a, s₁, front, back, hfront, hback, rfl⟩
    · exact ⟨.error e, s', trace, [], hx, .done, (List.append_nil _).symm⟩
    · exact ⟨.ok a, s₁, front, back, hfront, hback, rfl⟩

theorem executes_throwIf_bind {c : Prop} [Decidable c] {e : ε} {f : Unit → Fallible C R ε β}
    {u : Except ε β} :
    Executes sem s (Fallible.throwIf c e >>= f).run trace u s' ↔
      (c ∧ trace = [] ∧ u = .error e ∧ s' = s) ∨
      (¬ c ∧ Executes sem s (f ()).run trace u s') := by
  unfold Fallible.throwIf
  by_cases hc : c
  · rw [if_pos hc]
    have hrun : Executes sem s ((throw e : Fallible C R ε Unit) >>= f).run trace u s' ↔
        trace = [] ∧ u = .error e ∧ s' = s := executes_done
    rw [hrun]
    simp [hc]
  · rw [if_neg hc]
    have hrun : Executes sem s ((pure () : Fallible C R ε Unit) >>= f).run trace u s' ↔
        Executes sem s (f ()).run trace u s' := Iff.rfl
    rw [hrun]
    simp [hc]

theorem executes_ofExcept_bind {x : Except ε α} {f : α → Fallible C R ε β} {u : Except ε β} :
    Executes sem s (Fallible.ofExcept x >>= f).run trace u s' ↔
      (∃ e, x = .error e ∧ trace = [] ∧ u = .error e ∧ s' = s) ∨
      ∃ a, x = .ok a ∧ Executes sem s (f a).run trace u s' := by
  cases x with
  | ok a =>
      have hrun : Executes sem s ((Fallible.ofExcept (.ok a) : Fallible C R ε α) >>= f).run trace u
          s' ↔ Executes sem s (f a).run trace u s' := Iff.rfl
      rw [hrun]
      simp
  | error e =>
      have hrun : Executes sem s ((Fallible.ofExcept (.error e) : Fallible C R ε α) >>= f).run
          trace u s' ↔ trace = [] ∧ u = .error e ∧ s' = s := executes_done
      rw [hrun]
      simp

/-- Errors are translated, nothing else. -/
theorem executes_adapt {x : Fallible C R ε α} {wrap : ε → ε'} {u : Except ε' α} :
    Executes sem s (ExceptT.adapt wrap x).run trace u s' ↔
      ∃ v, Executes sem s x.run trace v s' ∧ u = v.mapError wrap := by
  have hrun : (ExceptT.adapt wrap x).run =
      x.run >>= fun v => (.done (v.mapError wrap) : Program C R (Except ε' α)) := by
    rfl
  rw [hrun, executes_andThen]
  constructor
  · intro h
    obtain ⟨v, s₁, front, back, hfront, hback, rfl⟩ := h
    obtain ⟨rfl, rfl, rfl⟩ := executes_done.mp hback
    rw [List.append_nil]
    exact ⟨v, hfront, rfl⟩
  · intro h
    obtain ⟨v, hx, rfl⟩ := h
    exact ⟨v, s', trace, [], hx, .done, (List.append_nil _).symm⟩

section

variable {E V : C → Type} {sem : S → (c : C) → Except (E c) (V c) → S → Prop}
  {trace : List (Event C fun c => Except (E c) (V c))}

theorem executes_attempt {c : C} {wrap : E c → ε} {u : Except ε (V c)} :
    Executes sem s (Fallible.attempt c wrap).run trace u s' ↔
      ∃ v, sem s c v s' ∧ trace = [⟨c, v⟩] ∧ u = v.mapError wrap := by
  constructor
  · intro h
    obtain ⟨v, s₁, rest, hcall, hnext, rfl⟩ := executes_call.mp h
    obtain ⟨rfl, rfl, rfl⟩ := executes_done.mp hnext
    exact ⟨v, hcall, rfl, rfl⟩
  · intro h
    obtain ⟨v, hcall, rfl, rfl⟩ := h
    exact .call hcall .done

/-- A call that fails ends the program, a call that succeeds is followed by the rest. -/
theorem executes_attempt_bind {c : C} {wrap : E c → ε}
    {f : V c → Fallible C (fun c => Except (E c) (V c)) ε β} {u : Except ε β} :
    Executes sem s (Fallible.attempt c wrap >>= f).run trace u s' ↔
      (∃ e, sem s c (.error e) s' ∧ trace = [⟨c, .error e⟩] ∧ u = .error (wrap e)) ∨
      ∃ v s₁ rest, sem s c (.ok v) s₁ ∧ Executes sem s₁ (f v).run rest u s' ∧
        trace = ⟨c, .ok v⟩ :: rest := by
  constructor
  · intro h
    obtain ⟨reply, s₁, rest, hcall, hnext, rfl⟩ := executes_call.mp h
    cases reply with
    | ok v => exact .inr ⟨v, s₁, rest, hcall, hnext, rfl⟩
    | error e =>
        obtain ⟨rfl, rfl, rfl⟩ := executes_done.mp hnext
        exact .inl ⟨e, hcall, rfl, rfl⟩
  · intro h
    rcases h with ⟨e, hcall, rfl, rfl⟩ | ⟨v, s₁, rest, hcall, hnext, rfl⟩
    · exact .call hcall .done
    · exact .call hcall hnext

end

end Invokrum.Programs
