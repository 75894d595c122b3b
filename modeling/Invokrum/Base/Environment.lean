import Invokrum.Base.Program

/-!
# Programs in a deterministic environment

An environment answers every call with one reply and one new state, so a
program has one outcome. The outcome of a composed program is computed from the
outcomes of its parts; `Keeps` says what holds of the state from end to end.
-/

namespace Invokrum.Programs

variable {C : Type} {R : C → Type} {S α β ε : Type}

/-- The reply to a call and the state after it. -/
abbrev Environment (C : Type) (R : C → Type) (S : Type) : Type := S → (c : C) → R c × S

def Program.run (env : Environment C R S) : Program C R α → S → α × S
  | .done a, s => (a, s)
  | .call c next, s => (next (env s c).1).run env (env s c).2

theorem Program.run_bind (env : Environment C R S) (p : Program C R α) (f : α → Program C R β)
    (s : S) : (p >>= f).run env s = (f (p.run env s).1).run env (p.run env s).2 := by
  induction p generalizing s with
  | done a => rfl
  | call c next ih => exact ih _ _

namespace Environment

/-- How a fallible program ends. -/
def outcome (env : Environment C R S) (x : Fallible C R ε α) (s : S) : Except ε α × S :=
  x.run.run env s

variable {env : Environment C R S} {x : Fallible C R ε α} {f : α → Fallible C R ε β} {s s' : S}
  {a : α} {e : ε}

/-! ## Outcomes of composed programs -/

theorem outcome_pure : env.outcome (pure a : Fallible C R ε α) s = (.ok a, s) := rfl

theorem outcome_ofExcept {y : Except ε α} :
    env.outcome (Fallible.ofExcept y : Fallible C R ε α) s = (y, s) := rfl

theorem outcome_throwIf {c : Prop} [Decidable c] :
    env.outcome (Fallible.throwIf c e : Fallible C R ε Unit) s =
      (if c then .error e else .ok (), s) := by
  unfold Fallible.throwIf
  split <;> rfl

theorem outcome_reply {c : C} :
    env.outcome (Fallible.reply c : Fallible C R ε (R c)) s = (.ok (env s c).1, (env s c).2) := rfl

theorem outcome_bind : env.outcome (x >>= f) s =
    match env.outcome x s with
    | (.ok a, s') => env.outcome (f a) s'
    | (.error e, s') => (.error e, s') := by
  have hrun : (x >>= f).run = x.run >>= ExceptT.bindCont f := rfl
  rw [outcome, hrun, Program.run_bind]
  unfold outcome
  cases x.run.run env s with
  | mk result s' =>
      cases result with
      | ok a => rfl
      | error e => rfl

theorem bind_of_ok (h : env.outcome x s = (.ok a, s')) :
    env.outcome (x >>= f) s = env.outcome (f a) s' := by
  rw [outcome_bind, h]

theorem bind_of_error (h : env.outcome x s = (.error e, s')) :
    env.outcome (x >>= f) s = (.error e, s') := by
  rw [outcome_bind, h]

theorem outcome_mapError {wrap : ε → ε} :
    env.outcome (x.mapError wrap) s =
      ((env.outcome x s).1.mapError wrap, (env.outcome x s).2) := by
  rw [outcome, Fallible.mapError, ExceptT.run_mk, Program.run_bind]
  rfl

theorem outcome_guarded {release : Fallible C R ε Unit} :
    env.outcome (x.guarded release) s =
      ((env.outcome x s).1, (env.outcome release (env.outcome x s).2).2) := by
  rw [outcome, Fallible.guarded, ExceptT.run_mk, Program.run_bind, Program.run_bind]
  rfl

theorem onError_of_ok {cleanup : Fallible C R ε Unit} (h : env.outcome x s = (.ok a, s')) :
    env.outcome (x.onError cleanup) s = (.ok a, s') := by
  rw [outcome] at h
  rw [outcome, Fallible.onError, ExceptT.run_mk, Program.run_bind, h]
  rfl

theorem onError_of_error {cleanup : Fallible C R ε Unit} (h : env.outcome x s = (.error e, s')) :
    env.outcome (x.onError cleanup) s = (.error e, (env.outcome cleanup s').2) := by
  rw [outcome] at h
  rw [outcome, Fallible.onError, ExceptT.run_mk, Program.run_bind, h]
  show (Program.run env (_ >>= _) s') = _
  rw [Program.run_bind]
  rfl

/-- A sequence that ends with a value went through its first part. -/
theorem outcome_bind_eq_ok {b : β} (h : env.outcome (x >>= f) s = (.ok b, s')) :
    ∃ a s₁, env.outcome x s = (.ok a, s₁) ∧ env.outcome (f a) s₁ = (.ok b, s') := by
  rw [outcome_bind] at h
  cases hx : env.outcome x s with
  | mk result s₁ =>
      rw [hx] at h
      cases result with
      | ok a => exact ⟨a, s₁, rfl, h⟩
      | error e => cases h

/-- A program that leaves the state alone hands on its value. -/
theorem outcome_bind_still {b : β} (hx : (env.outcome x s).2 = s) :
    (env.outcome (x >>= f) s).1 = .ok b ↔
      ∃ a, (env.outcome x s).1 = .ok a ∧ (env.outcome (f a) s).1 = .ok b := by
  rw [outcome_bind]
  cases houtcome : env.outcome x s with
  | mk result s₁ =>
      rw [houtcome] at hx
      obtain rfl : s₁ = s := hx
      cases result with
      | ok a => simp
      | error e => simp

theorem outcome_forM_still {g : β → Fallible C R ε PUnit} {ys : List β}
    (hg : ∀ y ∈ ys, (env.outcome (g y) s).2 = s) :
    (env.outcome (ys.forM g) s).1 = .ok ⟨⟩ ↔ ∀ y ∈ ys, (env.outcome (g y) s).1 = .ok ⟨⟩ := by
  induction ys with
  | nil =>
      constructor
      · intro _ y hy
        cases hy
      · intro _
        rfl
  | cons y ys ih =>
      show (env.outcome (g y >>= fun _ => ys.forM g) s).1 = _ ↔ _
      rw [outcome_bind_still (hg y List.mem_cons_self), List.forall_mem_cons,
        ← ih fun z hz => hg z (List.mem_cons_of_mem y hz)]
      exact ⟨fun ⟨_, hy, hys⟩ => ⟨hy, hys⟩, fun ⟨hy, hys⟩ => ⟨_, hy, hys⟩⟩

section

variable {E V : C → Type} {env : Environment C (fun c => Except (E c) (V c)) S}

theorem outcome_attempt {c : C} {wrap : E c → ε} :
    env.outcome (Fallible.attempt c wrap) s = ((env s c).1.mapError wrap, (env s c).2) := rfl

end

/-! ## State properties -/

/-- Whatever the program returns, the state property is kept, and values are as `Post` says. -/
def Keeps (env : Environment C R S) (K : S → Prop) (Post : α → Prop) (x : Fallible C R ε α) :
    Prop :=
  ∀ s, K s → K (env.outcome x s).2 ∧ ∀ a, (env.outcome x s).1 = .ok a → Post a

variable {K : S → Prop} {Post : α → Prop}

theorem Keeps.pure (h : Post a) : env.Keeps K Post (pure a : Fallible C R ε α) := by
  intro s hs
  refine ⟨hs, ?_⟩
  intro b hb
  cases hb
  exact h

theorem Keeps.throw : env.Keeps K Post (throw e : Fallible C R ε α) := by
  intro s hs
  exact ⟨hs, fun _ hb => nomatch hb⟩

theorem Keeps.throwIf {c : Prop} [Decidable c] {Post : Unit → Prop} (h : ¬ c → Post ()) :
    env.Keeps K Post (Fallible.throwIf c e : Fallible C R ε Unit) := by
  unfold Fallible.throwIf
  by_cases hc : c
  · rw [if_pos hc]
    exact Keeps.throw
  · rw [if_neg hc]
    exact Keeps.pure (h hc)

theorem Keeps.ofExcept {y : Except ε α} (h : ∀ a, y = .ok a → Post a) :
    env.Keeps K Post (Fallible.ofExcept y : Fallible C R ε α) := by
  intro s hs
  exact ⟨hs, h⟩

theorem Keeps.bind {Mid : α → Prop} {Post : β → Prop} (hx : env.Keeps K Mid x)
    (hf : ∀ a, Mid a → env.Keeps K Post (f a)) : env.Keeps K Post (x >>= f) := by
  intro s hs
  obtain ⟨hmid, hvalue⟩ := hx s hs
  cases houtcome : env.outcome x s with
  | mk result s₁ =>
      rw [houtcome] at hmid hvalue
      cases result with
      | ok a =>
          rw [bind_of_ok houtcome]
          exact hf a (hvalue a rfl) s₁ hmid
      | error e =>
          rw [bind_of_error houtcome]
          exact ⟨hmid, fun _ hb => nomatch hb⟩

theorem Keeps.reply {c : C} {Post : R c → Prop} (h : ∀ s, K s → K (env s c).2)
    (hpost : ∀ r, Post r) : env.Keeps K Post (Fallible.reply c : Fallible C R ε (R c)) := by
  intro s hs
  exact ⟨h s hs, fun r _ => hpost r⟩

theorem Keeps.onError {cleanup : Fallible C R ε Unit} {Post' : Unit → Prop}
    (hx : env.Keeps K Post x) (hcleanup : env.Keeps K Post' cleanup) :
    env.Keeps K Post (x.onError cleanup) := by
  intro s hs
  obtain ⟨hmid, hvalue⟩ := hx s hs
  cases houtcome : env.outcome x s with
  | mk result s₁ =>
      rw [houtcome] at hmid hvalue
      cases result with
      | ok a =>
          rw [onError_of_ok houtcome]
          exact ⟨hmid, hvalue⟩
      | error e =>
          rw [onError_of_error houtcome]
          exact ⟨(hcleanup s₁ hmid).1, fun _ hb => nomatch hb⟩

theorem Keeps.forM {g : β → Fallible C R ε PUnit} {xs : List β} {Post : PUnit → Prop}
    (hpost : Post ⟨⟩) (h : ∀ y ∈ xs, env.Keeps K (fun _ => True) (g y)) :
    env.Keeps K Post (xs.forM g) := by
  induction xs with
  | nil => exact Keeps.pure hpost
  | cons y ys ih =>
      exact (h y List.mem_cons_self).bind fun _ _ => ih fun z hz => h z (List.mem_cons_of_mem y hz)

section

variable {E V : C → Type} {env : Environment C (fun c => Except (E c) (V c)) S}

theorem Keeps.attempt {c : C} {wrap : E c → ε} (h : ∀ s, K s → K (env s c).2) :
    env.Keeps K (fun _ => True) (Fallible.attempt c wrap) := by
  intro s hs
  exact ⟨h s hs, fun _ _ => trivial⟩

end

/-! ## Programs that only read -/

/-- The program leaves the state alone, and states with the same view give the same result. -/
def Reads {V : Type} (env : Environment C R S) (view : S → V) (x : Fallible C R ε α) : Prop :=
  ∀ s, (env.outcome x s).2 = s ∧ ∀ t, view t = view s → (env.outcome x t).1 = (env.outcome x s).1

variable {V : Type} {view : S → V}

theorem Reads.pure : env.Reads view (pure a : Fallible C R ε α) :=
  fun _ => ⟨rfl, fun _ _ => rfl⟩

theorem Reads.throw : env.Reads view (throw e : Fallible C R ε α) :=
  fun _ => ⟨rfl, fun _ _ => rfl⟩

theorem Reads.ofExcept {y : Except ε α} :
    env.Reads view (Fallible.ofExcept y : Fallible C R ε α) :=
  fun _ => ⟨rfl, fun _ _ => rfl⟩

theorem Reads.throwIf {c : Prop} [Decidable c] :
    env.Reads view (Fallible.throwIf c e : Fallible C R ε Unit) := by
  unfold Fallible.throwIf
  split
  · exact Reads.throw
  · exact Reads.pure

theorem Reads.bind (hx : env.Reads view x) (hf : ∀ a, env.Reads view (f a)) :
    env.Reads view (x >>= f) := by
  intro s
  obtain ⟨hstate, hsame⟩ := hx s
  cases houtcome : env.outcome x s with
  | mk result s₁ =>
      rw [houtcome] at hstate hsame
      obtain rfl : s = s₁ := hstate.symm
      cases result with
      | ok a =>
          rw [bind_of_ok houtcome]
          refine ⟨(hf a s).1, ?_⟩
          intro t ht
          have hother : env.outcome x t = (.ok a, t) := Prod.ext (hsame t ht) (hx t).1
          rw [bind_of_ok hother]
          exact (hf a s).2 t ht
      | error e =>
          rw [bind_of_error houtcome]
          refine ⟨rfl, ?_⟩
          intro t ht
          have hother : env.outcome x t = (.error e, t) := Prod.ext (hsame t ht) (hx t).1
          rw [bind_of_error hother]

section

variable {E V : C → Type} {env : Environment C (fun c => Except (E c) (V c)) S}

theorem Reads.attempt {c : C} {wrap : E c → ε} (hstate : ∀ s, (env s c).2 = s)
    (hsame : ∀ s t, view t = view s → (env t c).1.mapError wrap = (env s c).1.mapError wrap) :
    env.Reads view (Fallible.attempt c wrap) :=
  fun s => ⟨hstate s, fun t ht => hsame s t ht⟩

end

theorem Reads.keeps (hx : env.Reads view x) (K : S → Prop) :
    env.Keeps K (fun _ => True) x := by
  intro s hs
  rw [(hx s).1]
  exact ⟨hs, fun _ _ => trivial⟩

theorem Reads.mapError {wrap : ε → ε} (hx : env.Reads view x) :
    env.Reads view (x.mapError wrap) := by
  intro s
  rw [outcome_mapError]
  refine ⟨(hx s).1, ?_⟩
  intro t ht
  rw [outcome_mapError, (hx s).2 t ht]

theorem Reads.forM {g : β → Fallible C R ε PUnit} {xs : List β}
    (h : ∀ y ∈ xs, env.Reads view (g y)) : env.Reads view (xs.forM g) := by
  induction xs with
  | nil => exact Reads.pure
  | cons y ys ih =>
      exact (h y List.mem_cons_self).bind fun _ => ih fun z hz => h z (List.mem_cons_of_mem y hz)

end Environment

end Invokrum.Programs
