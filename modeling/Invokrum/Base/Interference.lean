import Invokrum.Base.Safety

/-!
# Runs among interference

Before every call of a run the environment may change the state. A moment is a
call with its reply and the state it was made in; `Observes` collects the
moments of a run that ends with a value, and is taken apart along the program.
-/

namespace Invokrum.Programs

variable {C : Type} {R : C → Type} {S α β ε : Type}

structure Moment (S C : Type) (R : C → Type) where
  state : S
  event : Event C R

/-- First the environment acts, knowing the moments so far, then the call is made. -/
def Interfered (env : List (Moment S C R) → S → S → Prop) (sem : S → (c : C) → R c → S → Prop)
    (s : S × List (Moment S C R)) (c : C) (r : R c) (s' : S × List (Moment S C R)) : Prop :=
  ∃ s₁, env s.2 s.1 s₁ ∧ sem s₁ c r s'.1 ∧ s'.2 = s.2 ++ [⟨s₁, ⟨c, r⟩⟩]

/-- Some run from `s`, behind the moments `past`, ends with the value `a` in `s'`. -/
def Observes (env : List (Moment S C R) → S → S → Prop) (sem : S → (c : C) → R c → S → Prop)
    (x : Fallible C R ε α) (s : S) (past : List (Moment S C R)) (a : α) (s' : S)
    (past' : List (Moment S C R)) : Prop :=
  ∃ t t', Yields (Interfered env sem) (.ok a) (s', past') t' (s, past) t x.run

/-! ## Runs taken apart -/

namespace Yields

variable {sem : S → (c : C) → R c → S → Prop} {s s' : S} {t t' : List (Event C R)}

theorem of_andThen {p : Program C R α} {f : α → Program C R β} {b : β}
    (h : Yields sem b s' t' s t (p >>= f)) :
    ∃ a s₁ t₁, Yields sem a s₁ t₁ s t p ∧ Yields sem b s' t' s₁ t₁ (f a) := by
  induction p generalizing s t with
  | done a => exact ⟨a, s, t, ⟨rfl, rfl, rfl⟩, h⟩
  | call c next ih =>
      obtain ⟨r, s₁, hcall, hrest⟩ := h
      obtain ⟨a, s₂, t₂, hfirst, hlast⟩ := ih r hrest
      exact ⟨a, s₂, t₂, ⟨r, s₁, hcall, hfirst⟩, hlast⟩

/-- An error of the first part is not undone. -/
theorem of_bind {x : Fallible C R ε α} {f : α → Fallible C R ε β} {b : β}
    (h : Yields sem (.ok b) s' t' s t (x >>= f).run) :
    ∃ a s₁ t₁, Yields sem (.ok a) s₁ t₁ s t x.run ∧ Yields sem (.ok b) s' t' s₁ t₁ (f a).run := by
  obtain ⟨result, s₁, t₁, hx, hf⟩ := of_andThen h
  cases result with
  | ok a => exact ⟨a, s₁, t₁, hx, hf⟩
  | error e => cases hf.1

end Yields

namespace Observes

variable {env : List (Moment S C R) → S → S → Prop} {sem : S → (c : C) → R c → S → Prop}
  {s s' : S} {past past' : List (Moment S C R)} {a : α} {b : β}

theorem bind {x : Fallible C R ε α} {f : α → Fallible C R ε β}
    (h : Observes env sem (x >>= f) s past b s' past') :
    ∃ a s₁ past₁, Observes env sem x s past a s₁ past₁ ∧
      Observes env sem (f a) s₁ past₁ b s' past' := by
  obtain ⟨t, t', h⟩ := h
  obtain ⟨a, ⟨s₁, past₁⟩, t₁, hx, hf⟩ := h.of_bind
  exact ⟨a, s₁, past₁, ⟨t, t₁, hx⟩, ⟨t₁, t', hf⟩⟩

theorem pure {b : α} (h : Observes env sem (pure b : Fallible C R ε α) s past a s' past') :
    b = a ∧ s' = s ∧ past' = past := by
  obtain ⟨t, t', hvalue, hstate, _⟩ := h
  cases hvalue
  cases hstate
  exact ⟨rfl, rfl, rfl⟩

theorem throw {e : ε} (h : Observes env sem (throw e : Fallible C R ε α) s past a s' past') :
    False := by
  obtain ⟨t, t', hvalue, _⟩ := h
  cases hvalue

theorem throwIf {c : Prop} [Decidable c] {e : ε} {u : Unit}
    (h : Observes env sem (Fallible.throwIf c e) s past u s' past') :
    ¬ c ∧ s' = s ∧ past' = past := by
  unfold Fallible.throwIf at h
  by_cases hc : c
  · rw [if_pos hc] at h
    exact h.throw.elim
  · rw [if_neg hc] at h
    exact ⟨hc, h.pure.2⟩

/-- A check in front of the rest. -/
theorem bindThrowIf {c : Prop} [Decidable c] {e : ε} {f : Unit → Fallible C R ε α}
    (h : Observes env sem (Fallible.throwIf c e >>= f) s past a s' past') :
    ¬ c ∧ Observes env sem (f ()) s past a s' past' := by
  obtain ⟨u, s₁, past₁, hcheck, hrest⟩ := h.bind
  obtain ⟨hc, rfl, rfl⟩ := hcheck.throwIf
  exact ⟨hc, hrest⟩

section

variable {E V : C → Type}
  {env : List (Moment S C fun c => Except (E c) (V c)) → S → S → Prop}
  {sem : S → (c : C) → Except (E c) (V c) → S → Prop}
  {past past' : List (Moment S C fun c => Except (E c) (V c))}

/-- A call that has succeeded. -/
theorem attempt {c : C} {wrap : E c → ε} {v : V c}
    (h : Observes env sem (Fallible.attempt c wrap) s past v s' past') :
    ∃ s₁, env past s s₁ ∧ sem s₁ c (.ok v) s' ∧ past' = past ++ [⟨s₁, ⟨c, .ok v⟩⟩] := by
  obtain ⟨t, t', r, ⟨s₂, past₂⟩, ⟨s₁, henv, hcall, hpast⟩, hvalue, hstate, _⟩ := h
  cases hstate
  cases r with
  | ok w =>
      cases hvalue
      exact ⟨s₁, henv, hcall, hpast⟩
  | error e => cases hvalue

theorem bindAttempt {c : C} {wrap : E c → ε}
    {f : V c → Fallible C (fun c => Except (E c) (V c)) ε α}
    (h : Observes env sem (Fallible.attempt c wrap >>= f) s past a s' past') :
    ∃ v s₁ s₂, env past s s₁ ∧ sem s₁ c (.ok v) s₂ ∧
      Observes env sem (f v) s₂ (past ++ [⟨s₁, ⟨c, .ok v⟩⟩]) a s' past' := by
  obtain ⟨v, s₂, past₁, hcall, hrest⟩ := h.bind
  obtain ⟨s₁, henv, hsem, rfl⟩ := hcall.attempt
  exact ⟨v, s₁, s₂, henv, hsem, hrest⟩

end

end Observes

/-! ## Runs with chosen interference -/

/-- The environment acts as `act` says before every call, which is answered as `react` says. -/
def interfere (act : List (Moment S C R) → S → S) (react : S → (c : C) → Option (R c × S))
    (s : S × List (Moment S C R)) (c : C) : Option (R c × S × List (Moment S C R)) :=
  (react (act s.2 s.1) c).map fun reply =>
    (reply.1, reply.2, s.2 ++ [⟨act s.2 s.1, ⟨c, reply.1⟩⟩])

theorem observes_of_play {env : List (Moment S C R) → S → S → Prop}
    {sem : S → (c : C) → R c → S → Prop} {act : List (Moment S C R) → S → S}
    {react : S → (c : C) → Option (R c × S)} (hact : ∀ past s, env past s (act past s))
    (hreact : ∀ s c r s', react s c = some (r, s') → sem s c r s') {x : Fallible C R ε α} {s s' : S}
    {past past' : List (Moment S C R)} {t t' : List (Event C R)} {a : α}
    (h : play (interfere act react) (s, past) t x.run = some (.ok a, (s', past'), t')) :
    Observes env sem x s past a s' past' := by
  refine ⟨t, t', play_yields ?_ h⟩
  rintro ⟨s, past⟩ c r ⟨s', past'⟩ hr
  obtain ⟨⟨r', s₁⟩, hreply, hsame⟩ := Option.map_eq_some_iff.mp hr
  cases hsame
  exact ⟨act past s, hact past s, hreact _ c _ _ hreply, rfl⟩

end Invokrum.Programs
