import Invokrum.Base.Safety

/-!
# Programs with the same outcomes

`Runs` relates a program to its results and final states, whatever calls it
makes. Programs are the same from a state on when they have the same outcomes
there, which sequencing preserves.
-/

namespace Invokrum.Programs

variable {C : Type} {R : C → Type} {S α β ε ε' : Type}

/-- `result.map_err(wrap)` into another error type. -/
def Fallible.withError (wrap : ε → ε') (x : Fallible C R ε α) : Fallible C R ε' α :=
  ExceptT.mk (x.run >>= fun result => .done (result.mapError wrap))

/-- Some run from `s` ends with `a` in `s'`. -/
def Runs (sem : S → (c : C) → R c → S → Prop) (a : α) (s' : S) : S → Program C R α → Prop
  | s, .done b => b = a ∧ s = s'
  | s, .call c next => ∃ r s₁, sem s c r s₁ ∧ Runs sem a s' s₁ (next r)

variable {sem : S → (c : C) → R c → S → Prop} {s s' : S}

theorem Yields.runs {sem' : S → (c : C) → R c → S → Prop}
    (hsem : ∀ s c r s', sem s c r s' → sem' s c r s') {a : α} {t t' : List (Event C R)}
    {p : Program C R α} (h : Yields sem a s' t' s t p) : Runs sem' a s' s p := by
  induction p generalizing s t with
  | done b => exact ⟨h.1, h.2.1⟩
  | call c next ih =>
      obtain ⟨r, s₁, hcall, hrest⟩ := h
      exact ⟨r, s₁, hsem s c r s₁ hcall, ih r hrest⟩

theorem runs_andThen {b : β} {p : Program C R α} {f : α → Program C R β} :
    Runs sem b s' s (p >>= f) ↔ ∃ a s₁, Runs sem a s₁ s p ∧ Runs sem b s' s₁ (f a) := by
  induction p generalizing s with
  | done a =>
      constructor
      · exact fun h => ⟨a, s, ⟨rfl, rfl⟩, h⟩
      · rintro ⟨_, _, ⟨rfl, rfl⟩, h⟩
        exact h
  | call c next ih =>
      constructor
      · rintro ⟨r, s₁, hcall, hrest⟩
        obtain ⟨a, s₂, hfirst, hlast⟩ := (ih r).mp hrest
        exact ⟨a, s₂, ⟨r, s₁, hcall, hfirst⟩, hlast⟩
      · rintro ⟨a, s₂, ⟨r, s₁, hcall, hfirst⟩, hlast⟩
        exact ⟨r, s₁, hcall, (ih r).mpr ⟨a, s₂, hfirst, hlast⟩⟩

theorem Runs.of_ofExcept {x : Except ε α} {result : Except ε α}
    (h : Runs sem result s' s (Fallible.ofExcept x : Fallible C R ε α).run) : x = result := h.1

/-- Both programs have the same results and effects from `s` on. -/
def Same (sem : S → (c : C) → R c → S → Prop) (s : S) (x y : Fallible C R ε α) : Prop :=
  ∀ result s', Runs sem result s' s x.run ↔ Runs sem result s' s y.run

namespace Same

theorem refl (x : Fallible C R ε α) : Same sem s x x := fun _ _ => Iff.rfl

/-- What follows is compared only where the first parts end. -/
theorem bind {x y : Fallible C R ε α} {f g : α → Fallible C R ε β} (h : Same sem s x y)
    (hf : ∀ a s₁, Runs sem (.ok a) s₁ s x.run → Same sem s₁ (f a) (g a)) :
    Same sem s (x >>= f) (y >>= g) := by
  intro result s'
  have hside : ∀ (z : Fallible C R ε α) (k : α → Fallible C R ε β),
      Runs sem result s' s (z >>= k).run ↔ ∃ a s₁, Runs sem a s₁ s z.run ∧
        Runs sem result s' s₁ (ExceptT.bindCont k a) := by
    intro z k
    show Runs sem result s' s (z.run >>= _) ↔ _
    rw [runs_andThen]
  rw [hside, hside]
  constructor
  · rintro ⟨a, s₁, hfirst, hlast⟩
    refine ⟨a, s₁, (h a s₁).mp hfirst, ?_⟩
    cases a with
    | ok a => exact (hf a s₁ hfirst result s').mp hlast
    | error e => exact hlast
  · rintro ⟨a, s₁, hfirst, hlast⟩
    have hfirst' := (h a s₁).mpr hfirst
    refine ⟨a, s₁, hfirst', ?_⟩
    cases a with
    | ok a => exact (hf a s₁ hfirst' result s').mpr hlast
    | error e => exact hlast

theorem withError {x y : Fallible C R ε α} {wrap : ε → ε'} (h : Same sem s x y) :
    Same sem s (Fallible.withError wrap x) (Fallible.withError wrap y) := by
  intro result s'
  show Runs sem result s' s (x.run >>= _) ↔ Runs sem result s' s (y.run >>= _)
  rw [runs_andThen, runs_andThen]
  constructor
  · rintro ⟨a, s₁, hfirst, hlast⟩
    exact ⟨a, s₁, (h a s₁).mp hfirst, hlast⟩
  · rintro ⟨a, s₁, hfirst, hlast⟩
    exact ⟨a, s₁, (h a s₁).mpr hfirst, hlast⟩

end Same

end Invokrum.Programs
