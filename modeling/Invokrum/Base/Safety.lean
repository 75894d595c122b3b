import Invokrum.Base.Program

/-!
# Safety of a single run

`Safe` follows a program over every answer its calls may get: all states on the
way keep the invariant, and the end is as promised. `Ends` is the same for
programs that end in a value or an error. The rules below take a program apart
along its structure, with the state and the events so far at hand.
-/

namespace Invokrum.Programs

variable {C : Type} {R : C → Type} {S α β ε : Type}

/-- From `s`, behind the events `t`, the program passes states of `Inv` only and ends as `Post`
says. -/
def Safe (sem : S → (c : C) → R c → S → Prop) (Inv : S → Prop)
    (Post : α → S → List (Event C R) → Prop) : S → List (Event C R) → Program C R α → Prop
  | s, t, .done a => Inv s ∧ Post a s t
  | s, t, .call c next =>
      Inv s ∧ ∀ r s', sem s c r s' → Safe sem Inv Post s' (t ++ [⟨c, r⟩]) (next r)

variable {sem : S → (c : C) → R c → S → Prop} {Inv : S → Prop} {s : S} {t : List (Event C R)}

namespace Safe

variable {Post Post' : α → S → List (Event C R) → Prop} {p : Program C R α}

theorem inv (h : Safe sem Inv Post s t p) : Inv s := by
  cases p <;> exact h.1

theorem mono (hpost : ∀ a s t, Post a s t → Post' a s t) (h : Safe sem Inv Post s t p) :
    Safe sem Inv Post' s t p := by
  induction p generalizing s t with
  | done a => exact ⟨h.1, hpost a s t h.2⟩
  | call c next ih => exact ⟨h.1, fun r s' hcall => ih r (h.2 r s' hcall)⟩

/-- The invariant holds at the end as well. -/
theorem with_inv (h : Safe sem Inv Post s t p) :
    Safe sem Inv (fun a s t => Inv s ∧ Post a s t) s t p := by
  induction p generalizing s t with
  | done a => exact ⟨h.1, h⟩
  | call c next ih => exact ⟨h.1, fun r s' hcall => ih r (h.2 r s' hcall)⟩

theorem andThen {Mid : α → S → List (Event C R) → Prop} {Post : β → S → List (Event C R) → Prop}
    {f : α → Program C R β} (h : Safe sem Inv Mid s t p)
    (hf : ∀ a s t, Mid a s t → Safe sem Inv Post s t (f a)) : Safe sem Inv Post s t (p >>= f) := by
  induction p generalizing s t with
  | done a => exact hf a s t h.2
  | call c next ih => exact ⟨h.1, fun r s' hcall => ih r (h.2 r s' hcall)⟩

/-- A safe program stays safe on the way. -/
theorem reaches {program : Unit → Program C R α} {σ : Config Unit C R S α}
    (h : Safe sem Inv Post s [] (program ())) (hreaches : Reaches sem (Config.start s program) σ) :
    Inv σ.state ∧ ∀ rest, σ.thread () = .running rest →
      Safe sem Inv Post σ.state (σ.trace ()) rest := by
  induction hreaches with
  | refl =>
      refine ⟨h.inv, ?_⟩
      intro rest hrest
      cases hrest
      exact h
  | @tail σ σ' _ hstep ih =>
      cases hstep with
      | @call i c next r s' hthread hcall =>
          have hsafe := (ih.2 _ hthread).2 r s' hcall
          refine ⟨hsafe.inv, ?_⟩
          intro rest hrest
          simp only [Function.update_self, Thread.running.injEq] at hrest
          rw [← hrest]
          show Safe sem Inv Post s' (Function.update σ.trace i (σ.trace i ++ [⟨c, r⟩]) ()) (next r)
          rw [Function.update_self]
          exact hsafe
      | crash i hthread =>
          refine ⟨ih.1, ?_⟩
          intro rest hrest
          simp at hrest

end Safe

/-! ## Single runs -/

/-- Some run from `s`, behind the events `t`, ends with `a` in `s'` behind `t'`. -/
def Yields (sem : S → (c : C) → R c → S → Prop) (a : α) (s' : S) (t' : List (Event C R)) :
    S → List (Event C R) → Program C R α → Prop
  | s, t, .done b => b = a ∧ s = s' ∧ t = t'
  | s, t, .call c next => ∃ r s₁, sem s c r s₁ ∧ Yields sem a s' t' s₁ (t ++ [⟨c, r⟩]) (next r)

namespace Yields

variable {a : α} {s' s₁ : S} {t' t₁ : List (Event C R)}

theorem reaches {program : Program C R α} (h : Yields sem a s' t' s t program) :
    Reaches sem ⟨s, fun _ : Unit => .running program, fun _ => t⟩
      ⟨s', fun _ => .running (.done a), fun _ => t'⟩ := by
  induction program generalizing s t with
  | done b =>
      obtain ⟨rfl, rfl, rfl⟩ := h
      exact .refl
  | call c next ih =>
      obtain ⟨r, s₁, hcall, hrest⟩ := h
      have hstep : Step sem ⟨s, fun _ : Unit => .running (.call c next), fun _ => t⟩ _ :=
        .call () rfl hcall
      have hthread : Function.update (fun _ : Unit => Thread.running (.call c next)) ()
          (.running (next r)) = fun _ => .running (next r) := by
        funext u
        rfl
      have htrace : Function.update (fun _ : Unit => t) () (t ++ [⟨c, r⟩]) =
          fun _ => t ++ [⟨c, r⟩] := by
        funext u
        rfl
      rw [hthread, htrace] at hstep
      exact .head hstep (ih r hrest)

theorem andThen {b : β} {p : Program C R α} {f : α → Program C R β}
    (h : Yields sem a s₁ t₁ s t p) (hf : Yields sem b s' t' s₁ t₁ (f a)) :
    Yields sem b s' t' s t (p >>= f) := by
  induction p generalizing s t with
  | done c =>
      obtain ⟨rfl, rfl, rfl⟩ := h
      exact hf
  | call c next ih =>
      obtain ⟨r, s₂, hcall, hrest⟩ := h
      exact ⟨r, s₂, hcall, ih r hrest⟩

end Yields

/-- Some calls lead from one program to what is left of it. -/
inductive Goes (sem : S → (c : C) → R c → S → Prop) (s' : S) (t' : List (Event C R))
    (p' : Program C R α) : S → List (Event C R) → Program C R α → Prop where
  | refl : Goes sem s' t' p' s' t' p'
  | call {s s₁ : S} {t : List (Event C R)} {c : C} {r : R c} {next : R c → Program C R α}
      (hcall : sem s c r s₁) (hrest : Goes sem s' t' p' s₁ (t ++ [⟨c, r⟩]) (next r)) :
      Goes sem s' t' p' s t (.call c next)

namespace Goes

variable {s' s₁ : S} {t' t₁ : List (Event C R)} {p p' p₁ : Program C R α}

theorem trans (h : Goes sem s₁ t₁ p₁ s t p) (h' : Goes sem s' t' p' s₁ t₁ p₁) :
    Goes sem s' t' p' s t p := by
  induction h with
  | refl => exact h'
  | call hcall _ ih => exact .call hcall ih

theorem andThen {f : α → Program C R β} (h : Goes sem s' t' p' s t p) :
    Goes sem s' t' (p' >>= f) s t (p >>= f) := by
  induction h with
  | refl => exact .refl
  | call hcall _ ih => exact .call hcall ih

/-- A run goes on with what is left. -/
theorem yields {a : α} (h : Goes sem s₁ t₁ p₁ s t p) (hrest : Yields sem a s' t' s₁ t₁ p₁) :
    Yields sem a s' t' s t p := by
  induction h with
  | refl => exact hrest
  | call hcall _ ih => exact ⟨_, _, hcall, ih⟩

/-- What a program can do alone, a run of it can do while the others wait. -/
theorem reaches {ι : Type} [DecidableEq ι] {σ : Config ι C R S α} {i : ι}
    (h : Goes sem s' t' p' s t p) (hstate : σ.state = s) (hthread : σ.thread i = .running p) :
    ∃ σ', Reaches sem σ σ' ∧ σ'.state = s' ∧ σ'.thread i = .running p' ∧
      ∀ j, j ≠ i → σ'.thread j = σ.thread j ∧ σ'.trace j = σ.trace j := by
  induction h generalizing σ with
  | refl => exact ⟨σ, .refl, hstate, hthread, fun _ _ => ⟨rfl, rfl⟩⟩
  | @call s s₁ t c r next hcall hrest ih =>
      subst hstate
      have hstep := Step.call i hthread hcall
      obtain ⟨σ', hreaches, hstate', hthread', hothers⟩ := ih
        (σ := ⟨s₁, Function.update σ.thread i (.running (next r)),
          Function.update σ.trace i (σ.trace i ++ [⟨c, r⟩])⟩) rfl (Function.update_self i _ _)
      refine ⟨σ', .head hstep hreaches, hstate', hthread', ?_⟩
      intro j hj
      obtain ⟨hthreadj, htracej⟩ := hothers j hj
      rw [hthreadj, htracej]
      exact ⟨Function.update_of_ne hj _ _, Function.update_of_ne hj _ _⟩

end Goes

/-- A run leads to its end. -/
theorem Executes.goes {p : Program C R α} {a : α} {s' : S} {trace : List (Event C R)}
    (h : Executes sem s p trace a s') : Goes sem s' (t ++ trace) (.done a) s t p := by
  induction h generalizing t with
  | done =>
      rw [List.append_nil]
      exact .refl
  | call hcall _ ih =>
      rw [List.append_cons]
      exact .call hcall ih

/-- A run of a part leads to the rest. -/
theorem Yields.goes {a : α} {s' : S} {t' : List (Event C R)} {p : Program C R α}
    {f : α → Program C R β} (h : Yields sem a s' t' s t p) :
    Goes sem s' t' (f a) s t (p >>= f) := by
  induction p generalizing s t with
  | done b =>
      obtain ⟨rfl, rfl, rfl⟩ := h
      exact .refl
  | call c next ih =>
      obtain ⟨r, s₁, hcall, hrest⟩ := h
      exact .call hcall (ih r hrest)

/-- The run in which every call is answered as `react` says. -/
def play (react : S → (c : C) → Option (R c × S)) :
    S → List (Event C R) → Program C R α → Option (α × S × List (Event C R))
  | s, t, .done a => some (a, s, t)
  | s, t, .call c next =>
      match react s c with
      | some (r, s') => play react s' (t ++ [⟨c, r⟩]) (next r)
      | none => none

/-- What is played is a run. -/
theorem play_yields {react : S → (c : C) → Option (R c × S)}
    (hreact : ∀ s c r s', react s c = some (r, s') → sem s c r s') {program : Program C R α}
    {a : α} {s' : S} {t' : List (Event C R)} (h : play react s t program = some (a, s', t')) :
    Yields sem a s' t' s t program := by
  induction program generalizing s t with
  | done b =>
      cases h
      exact ⟨rfl, rfl, rfl⟩
  | call c next ih =>
      rw [play] at h
      split at h
      · next r s₁ hr => exact ⟨r, s₁, hreact s c r s₁ hr, ih r h⟩
      · cases h

/-! ## Fallible programs -/

/-- From `s` the program passes states of `Inv` only, and ends as `Ok` says with a value and as
`Err` says with an error. -/
def Ends (sem : S → (c : C) → R c → S → Prop) (Inv : S → Prop)
    (Ok : α → S → List (Event C R) → Prop) (Err : S → List (Event C R) → Prop) (s : S)
    (t : List (Event C R)) (x : Fallible C R ε α) : Prop :=
  Safe sem Inv (fun result s t =>
    match result with
    | .ok a => Ok a s t
    | .error _ => Err s t) s t x.run

namespace Ends

variable {Ok Ok' : α → S → List (Event C R) → Prop} {Err Err' : S → List (Event C R) → Prop}
  {x : Fallible C R ε α}

theorem safe (h : Ends sem Inv Ok Err s t x) : Safe sem Inv (fun result s t =>
    match result with
    | .ok a => Ok a s t
    | .error _ => Err s t) s t x.run := h

theorem mono (hok : ∀ a s t, Ok a s t → Ok' a s t) (herror : ∀ s t, Err s t → Err' s t)
    (h : Ends sem Inv Ok Err s t x) : Ends sem Inv Ok' Err' s t x := by
  apply Safe.mono _ h
  intro result s t hresult
  cases result with
  | ok a => exact hok a s t hresult
  | error e => exact herror s t hresult

theorem pure {a : α} (hinv : Inv s) (h : Ok a s t) :
    Ends sem Inv Ok Err s t (pure a : Fallible C R ε α) := ⟨hinv, h⟩

theorem throw {e : ε} (hinv : Inv s) (h : Err s t) :
    Ends sem Inv Ok Err s t (throw e : Fallible C R ε α) := ⟨hinv, h⟩

theorem bind {Mid : α → S → List (Event C R) → Prop} {MidErr : S → List (Event C R) → Prop}
    {Ok : β → S → List (Event C R) → Prop} {f : α → Fallible C R ε β}
    (h : Ends sem Inv Mid MidErr s t x)
    (hf : ∀ a s t, Inv s → Mid a s t → Ends sem Inv Ok Err s t (f a))
    (herror : ∀ s t, MidErr s t → Err s t) : Ends sem Inv Ok Err s t (x >>= f) := by
  apply Safe.andThen h.with_inv
  intro result s t hresult
  cases result with
  | ok a => exact hf a s t hresult.1 hresult.2
  | error e => exact ⟨hresult.1, herror s t hresult.2⟩

theorem throwIf {c : Prop} [Decidable c] {e : ε} {Ok : Unit → S → List (Event C R) → Prop}
    (hinv : Inv s) (hok : ¬ c → Ok () s t) (herror : c → Err s t) :
    Ends sem Inv Ok Err s t (Fallible.throwIf c e : Fallible C R ε Unit) := by
  unfold Fallible.throwIf
  by_cases hc : c
  · rw [if_pos hc]
    exact throw hinv (herror hc)
  · rw [if_neg hc]
    exact pure hinv (hok hc)

theorem bindThrowIf {c : Prop} [Decidable c] {e : ε} {f : Unit → Fallible C R ε α} (hinv : Inv s)
    (herror : c → Err s t) (hf : ¬ c → Ends sem Inv Ok Err s t (f ())) :
    Ends sem Inv Ok Err s t (Fallible.throwIf c e >>= f) := by
  unfold Fallible.throwIf
  by_cases hc : c
  · rw [if_pos hc]
    exact ⟨hinv, herror hc⟩
  · rw [if_neg hc]
    exact hf hc

theorem bindExcept {y : Except ε β} {f : β → Fallible C R ε α} (hinv : Inv s) (herror : Err s t)
    (hf : ∀ b, y = .ok b → Ends sem Inv Ok Err s t (f b)) :
    Ends sem Inv Ok Err s t (Fallible.ofExcept y >>= f) := by
  cases y with
  | ok b => exact hf b rfl
  | error e => exact ⟨hinv, herror⟩

/-- A call the program inspects the answer of. -/
theorem bindReply {c : C} {f : R c → Fallible C R ε α} (hinv : Inv s)
    (hf : ∀ r s', sem s c r s' → Ends sem Inv Ok Err s' (t ++ [⟨c, r⟩]) (f r)) :
    Ends sem Inv Ok Err s t (Fallible.reply c >>= f) :=
  ⟨hinv, fun r s' hcall => hf r s' hcall⟩

/-- Cleanup after an error; its own errors are dropped. -/
theorem onError {MidErr : S → List (Event C R) → Prop} {cleanup : Fallible C R ε Unit}
    (h : Ends sem Inv Ok MidErr s t x)
    (hcleanup : ∀ s t, Inv s → MidErr s t → Ends sem Inv (fun _ => Err) Err s t cleanup) :
    Ends sem Inv Ok Err s t (x.onError cleanup) := by
  apply Safe.andThen h.with_inv
  intro result s t hresult
  cases result with
  | ok a => exact hresult
  | error e =>
      apply Safe.andThen (hcleanup s t hresult.1 hresult.2).with_inv
      intro done s t hdone
      cases done <;> exact hdone

section

variable {E V : C → Type} {sem : S → (c : C) → Except (E c) (V c) → S → Prop}

/-- A call whose error ends the program. -/
theorem bindAttempt {c : C} {wrap : E c → ε}
    {Ok : α → S → List (Event C fun c => Except (E c) (V c)) → Prop}
    {Err : S → List (Event C fun c => Except (E c) (V c)) → Prop}
    {t : List (Event C fun c => Except (E c) (V c))}
    {f : V c → Fallible C (fun c => Except (E c) (V c)) ε α} (hinv : Inv s)
    (hf : ∀ v s', sem s c (.ok v) s' → Ends sem Inv Ok Err s' (t ++ [⟨c, .ok v⟩]) (f v))
    (herror : ∀ e s', sem s c (.error e) s' → Inv s' ∧ Err s' (t ++ [⟨c, .error e⟩])) :
    Ends sem Inv Ok Err s t (Fallible.attempt c wrap >>= f) := by
  refine ⟨hinv, ?_⟩
  intro r s' hcall
  cases r with
  | ok v => exact hf v s' hcall
  | error e => exact herror e s' hcall

end

end Ends

namespace Yields

variable {x : Fallible C R ε α} {s' s₁ : S} {t' t₁ : List (Event C R)}

theorem bind {f : α → Fallible C R ε β} {a : α} {result : Except ε β}
    (h : Yields sem (.ok a) s₁ t₁ s t x.run) (hf : Yields sem result s' t' s₁ t₁ (f a).run) :
    Yields sem result s' t' s t (x >>= f).run := h.andThen hf

theorem bind_error {f : α → Fallible C R ε β} {e : ε}
    (h : Yields sem (.error e) s' t' s t x.run) :
    Yields sem (.error e) s' t' s t (x >>= f).run := h.andThen ⟨rfl, rfl, rfl⟩

/-- A run that passes a check. -/
theorem bind_throwIf {c : Prop} [Decidable c] {e : ε} {f : Unit → Fallible C R ε β}
    {result : Except ε β} (hc : ¬ c) (hf : Yields sem result s' t' s t (f ()).run) :
    Yields sem result s' t' s t (Fallible.throwIf c e >>= f).run := by
  rw [Fallible.throwIf, if_neg hc]
  exact hf

theorem onError_error {cleanup : Fallible C R ε Unit} {done : Except ε Unit} {e : ε}
    (h : Yields sem (.error e) s₁ t₁ s t x.run) (hcleanup : Yields sem done s' t' s₁ t₁ cleanup.run) :
    Yields sem (.error e) s' t' s t (x.onError cleanup).run :=
  h.andThen (hcleanup.andThen ⟨rfl, rfl, rfl⟩)

end Yields

namespace Goes

variable {x : Fallible C R ε α} {s' s₁ : S} {t' t₁ : List (Event C R)}
  {p : Program C R (Except ε β)}

/-- A part that arrives at a value, in front of the rest. -/
theorem bind {f : α → Fallible C R ε β} {a : α} (h : Yields sem (.ok a) s₁ t₁ s t x.run)
    (hf : Goes sem s' t' p s₁ t₁ (f a).run) : Goes sem s' t' p s t (x >>= f).run :=
  h.goes.trans hf

/-- What a part can do first, the whole can. -/
theorem part {q : Program C R (Except ε α)} (h : Goes sem s' t' q s t x.run)
    (f : α → Fallible C R ε β) : ∃ rest, Goes sem s' t' rest s t (x >>= f).run :=
  ⟨_, h.andThen⟩

theorem onError {q : Program C R (Except ε α)} (h : Goes sem s' t' q s t x.run)
    (cleanup : Fallible C R ε Unit) : ∃ rest, Goes sem s' t' rest s t (x.onError cleanup).run :=
  ⟨_, h.andThen⟩

end Goes

end Invokrum.Programs
