import Mathlib.Tactic

/-!
# Programs over calls

A program ends in a value or makes a call and goes on with the reply. A protocol
says which calls are allowed in a phase and which phase a reply leads to.
`Obeys` checks a program against a protocol for all replies, without a state;
runs of obedient programs, alone or interleaved with crashes, then keep every
invariant that the allowed calls keep.
-/

namespace Invokrum.Programs

variable {C : Type} {R : C → Type} {S G ι α β ε : Type}

inductive Program (C : Type) (R : C → Type) (α : Type) where
  | done (a : α)
  | call (c : C) (next : R c → Program C R α)

namespace Program

def andThen : Program C R α → (α → Program C R β) → Program C R β
  | .done a, f => f a
  | .call c next, f => .call c fun r => (next r).andThen f

instance : Monad (Program C R) where
  pure := .done
  bind := .andThen

end Program

/-- A program that ends in a value or an error. -/
abbrev Fallible (C : Type) (R : C → Type) (ε α : Type) : Type := ExceptT ε (Program C R) α

namespace Fallible

/-- A call whose reply the program inspects. -/
def reply (c : C) : Fallible C R ε (R c) := ExceptT.mk (.call c fun r => .done (.ok r))

/-- A call whose error ends the program, as in `call().map_err(wrap)?`. -/
def attempt {E V : C → Type} (c : C) (wrap : E c → ε) :
    Fallible C (fun c => Except (E c) (V c)) ε (V c) :=
  ExceptT.mk (.call c fun r => .done (r.mapError wrap))

/-- `if c { return Err(e) }`. -/
def throwIf (c : Prop) [Decidable c] (e : ε) : Fallible C R ε Unit :=
  if c then throw e else pure ()

/-- A pure computation. -/
def ofExcept (x : Except ε α) : Fallible C R ε α := ExceptT.mk (.done x)

/-- `result.map_err(wrap)`. -/
def mapError (wrap : ε → ε) (x : Fallible C R ε α) : Fallible C R ε α :=
  ExceptT.mk (x.run >>= fun result => .done (result.mapError wrap))

/-- A body followed by the release of a guard, whatever the outcome of the body. -/
def guarded (body : Fallible C R ε α) (release : Fallible C R ε Unit) : Fallible C R ε α :=
  ExceptT.mk (body.run >>= fun result => release.run >>= fun _ => .done result)

/-- A body that is cleaned up after when it fails. -/
def onError (body : Fallible C R ε α) (cleanup : Fallible C R ε Unit) : Fallible C R ε α :=
  ExceptT.mk (body.run >>= fun result =>
    match result with
    | .ok a => .done (.ok a)
    | .error e => cleanup.run >>= fun _ => .done (.error e))

end Fallible

/-- A call with the reply it got. -/
structure Event (C : Type) (R : C → Type) where
  call : C
  reply : R call

/-! ## Protocols -/

structure Protocol (C : Type) (R : C → Type) (G : Type) where
  allowed : G → C → Prop
  advance : G → (c : C) → R c → G

namespace Protocol

variable (P : Protocol C R G)

/-- The phase after some events. -/
def after (g : G) (trace : List (Event C R)) : G :=
  trace.foldl (fun g e => P.advance g e.call e.reply) g

theorem after_concat (g : G) (trace : List (Event C R)) (e : Event C R) :
    P.after g (trace ++ [e]) = P.advance (P.after g trace) e.call e.reply := by
  simp [after]

/-- A flag that marked events set has been set by one of them. -/
theorem after_flag {flag : G → Bool} {mark : Event C R → Bool}
    (h : ∀ g e, flag (P.advance g e.call e.reply) = (flag g || mark e)) (g : G)
    (trace : List (Event C R)) : flag (P.after g trace) = (flag g || trace.any mark) := by
  induction trace generalizing g with
  | nil => simp [after]
  | cons e trace ih =>
      show flag (P.after (P.advance g e.call e.reply) trace) = _
      rw [ih, h, List.any_cons, Bool.or_assoc]

/-- From this phase the program makes allowed calls only and ends as `Post` says. -/
def Obeys (Post : G → α → Prop) : G → Program C R α → Prop
  | g, .done a => Post g a
  | g, .call c next => P.allowed g c ∧ ∀ r, Obeys Post (P.advance g c r) (next r)

variable {P}

theorem Obeys.mono {Post Post' : G → α → Prop} (h : ∀ g a, Post g a → Post' g a) {g : G}
    {p : Program C R α} (hp : P.Obeys Post g p) : P.Obeys Post' g p := by
  induction p generalizing g with
  | done a => exact h g a hp
  | call c next ih => exact ⟨hp.1, fun r => ih r (hp.2 r)⟩

theorem Obeys.andThen {Mid : G → α → Prop} {Post : G → β → Prop} {g : G} {p : Program C R α}
    {f : α → Program C R β} (hp : P.Obeys Mid g p)
    (hf : ∀ g a, Mid g a → P.Obeys Post g (f a)) : P.Obeys Post g (p >>= f) := by
  induction p generalizing g with
  | done a => exact hf g a hp
  | call c next ih => exact ⟨hp.1, fun r => ih r (hp.2 r)⟩

/-! ## Rules for fallible programs -/

/-- From `g` the program obeys, and ends as `Ok` says with a value and as `Err` says with an
error. -/
def Meets (P : Protocol C R G) (Ok : G → α → Prop) (Err : G → Prop) (g : G)
    (x : Fallible C R ε α) : Prop :=
  P.Obeys (fun g result =>
    match result with
    | .ok a => Ok g a
    | .error _ => Err g) g x.run

/-- The phase does not change. -/
def Quiet (P : Protocol C R G) (g : G) (x : Fallible C R ε α) : Prop :=
  P.Meets (fun g' _ => g' = g) (fun g' => g' = g) g x

variable {Ok Ok' : G → α → Prop} {Err Err' : G → Prop} {g : G} {x : Fallible C R ε α}

theorem Meets.obeys (hx : P.Meets Ok Err g x) :
    P.Obeys (fun g result =>
      match result with
      | .ok a => Ok g a
      | .error _ => Err g) g x.run := hx

theorem Meets.mono (hok : ∀ g a, Ok g a → Ok' g a) (herror : ∀ g, Err g → Err' g)
    (hx : P.Meets Ok Err g x) : P.Meets Ok' Err' g x := by
  apply Obeys.mono _ hx
  intro g result h
  cases result with
  | ok a => exact hok g a h
  | error e => exact herror g h

theorem Meets.pure {a : α} (h : Ok g a) : P.Meets Ok Err g (pure a : Fallible C R ε α) := h

theorem Meets.throw {e : ε} (h : Err g) : P.Meets Ok Err g (throw e : Fallible C R ε α) := h

theorem Meets.bind {Mid : G → α → Prop} {Ok : G → β → Prop} {f : α → Fallible C R ε β}
    (hx : P.Meets Mid Err g x) (hf : ∀ g a, Mid g a → P.Meets Ok Err g (f a)) :
    P.Meets Ok Err g (x >>= f) := by
  apply Obeys.andThen hx
  intro g result h
  cases result with
  | ok a => exact hf g a h
  | error e => exact h

theorem Meets.reply {c : C} {Ok : G → R c → Prop} (hallowed : P.allowed g c)
    (hok : ∀ r, Ok (P.advance g c r) r) :
    P.Meets Ok Err g (Fallible.reply c : Fallible C R ε (R c)) :=
  ⟨hallowed, hok⟩

theorem Meets.throwIf {c : Prop} [Decidable c] {e : ε} {Ok : G → Unit → Prop}
    (hok : ¬ c → Ok g ()) (herror : c → Err g) :
    P.Meets Ok Err g (Fallible.throwIf c e : Fallible C R ε Unit) := by
  unfold Fallible.throwIf
  by_cases hc : c
  · rw [if_pos hc]
    exact Meets.throw (herror hc)
  · rw [if_neg hc]
    exact Meets.pure (hok hc)

theorem Meets.ofExcept {y : Except ε α} (hok : ∀ a, y = .ok a → Ok g a)
    (herror : ∀ e, y = .error e → Err g) :
    P.Meets Ok Err g (Fallible.ofExcept y : Fallible C R ε α) := by
  cases y with
  | ok a => exact hok a rfl
  | error e => exact herror e rfl

theorem Meets.bindThrowIf {c : Prop} [Decidable c] {e : ε} {Ok : G → β → Prop}
    {f : Unit → Fallible C R ε β} (herror : c → Err g) (hf : ¬ c → P.Meets Ok Err g (f ())) :
    P.Meets Ok Err g (Fallible.throwIf c e >>= f) := by
  unfold Fallible.throwIf
  by_cases hc : c
  · rw [if_pos hc]
    exact herror hc
  · rw [if_neg hc]
    exact hf hc

/-- What follows a pure computation knows its value. -/
theorem Meets.bindExcept {y : Except ε α} {Ok : G → β → Prop} {f : α → Fallible C R ε β}
    (herror : Err g) (hf : ∀ a, y = .ok a → P.Meets Ok Err g (f a)) :
    P.Meets Ok Err g (Fallible.ofExcept y >>= f) := by
  cases y with
  | ok a => exact hf a rfl
  | error e => exact herror

theorem Meets.mapError {wrap : ε → ε} (hx : P.Meets Ok Err g x) :
    P.Meets Ok Err g (x.mapError wrap) := by
  apply Obeys.andThen hx
  intro g result h
  cases result with
  | ok a => exact h
  | error e => exact h

theorem Meets.guarded {Mid : G → α → Prop} {MidErr : G → Prop} {release : Fallible C R ε Unit}
    (hx : P.Meets Mid MidErr g x)
    (hok : ∀ g a, Mid g a → P.Meets (fun g _ => Ok g a) (fun g => Ok g a) g release)
    (herror : ∀ g, MidErr g → P.Meets (fun g _ => Err g) Err g release) :
    P.Meets Ok Err g (x.guarded release) := by
  apply Obeys.andThen hx
  intro g result h
  cases result with
  | ok a =>
      apply Obeys.andThen (hok g a h)
      intro g result h
      cases result <;> exact h
  | error e =>
      apply Obeys.andThen (herror g h)
      intro g result h
      cases result <;> exact h

theorem Meets.onError {MidErr : G → Prop} {cleanup : Fallible C R ε Unit}
    (hx : P.Meets Ok MidErr g x)
    (herror : ∀ g, MidErr g → P.Meets (fun g _ => Err g) Err g cleanup) :
    P.Meets Ok Err g (x.onError cleanup) := by
  apply Obeys.andThen hx
  intro g result h
  cases result with
  | ok a => exact h
  | error e =>
      apply Obeys.andThen (herror g h)
      intro g result h
      cases result <;> exact h

/-- A loop keeps its invariant, which may speak about what is left of the list. -/
theorem Meets.forM {Inv : List β → G → Prop} {f : β → Fallible C R ε PUnit} {xs : List β}
    (hstart : Inv xs g)
    (hbody : ∀ g y ys, y ∈ xs → Inv (y :: ys) g → P.Meets (fun g _ => Inv ys g) Err g (f y)) :
    P.Meets (fun g _ => Inv [] g) Err g (xs.forM f) := by
  induction xs generalizing g with
  | nil => exact Meets.pure hstart
  | cons y ys ih =>
      apply Meets.bind (hbody g y ys List.mem_cons_self hstart)
      intro g _ hg
      exact ih hg fun g z zs hz => hbody g z zs (List.mem_cons_of_mem y hz)

theorem Quiet.pure {a : α} : P.Quiet g (pure a : Fallible C R ε α) := Meets.pure rfl

theorem Quiet.throw {e : ε} : P.Quiet g (throw e : Fallible C R ε α) := Meets.throw rfl

theorem Quiet.throwIf {c : Prop} [Decidable c] {e : ε} :
    P.Quiet g (Fallible.throwIf c e : Fallible C R ε Unit) :=
  Meets.throwIf (fun _ => rfl) fun _ => rfl

theorem Quiet.ofExcept {y : Except ε α} :
    P.Quiet g (Fallible.ofExcept y : Fallible C R ε α) :=
  Meets.ofExcept (fun _ _ => rfl) fun _ _ => rfl

theorem Quiet.meets (hx : P.Quiet g x) (hok : ∀ a, Ok g a) (herror : Err g) :
    P.Meets Ok Err g x := by
  apply Meets.mono _ _ hx
  · intro g' a h
    exact h.symm ▸ hok a
  · intro g' h
    exact h.symm ▸ herror

/-- After a quiet part the rest starts in the same phase. -/
theorem Quiet.followed {Ok : G → β → Prop} {f : α → Fallible C R ε β} (hx : P.Quiet g x)
    (herror : Err g) (hf : ∀ a, P.Meets Ok Err g (f a)) : P.Meets Ok Err g (x >>= f) := by
  have hx' : P.Meets (fun g' _ => g' = g) Err g x :=
    Meets.mono (fun _ _ h => h) (fun g' (h : g' = g) => h ▸ herror) hx
  apply Meets.bind hx'
  intro g' a h
  exact h ▸ hf a

theorem Quiet.bind {f : α → Fallible C R ε β} (hx : P.Quiet g x) (hf : ∀ a, P.Quiet g (f a)) :
    P.Quiet g (x >>= f) :=
  Quiet.followed hx rfl hf

theorem Quiet.forM {f : β → Fallible C R ε PUnit} {xs : List β}
    (h : ∀ y ∈ xs, P.Quiet g (f y)) : P.Quiet g (xs.forM f) := by
  induction xs with
  | nil => exact Quiet.pure
  | cons y ys ih =>
      exact (h y List.mem_cons_self).bind fun _ => ih fun z hz => h z (List.mem_cons_of_mem y hz)

section

variable {E V : C → Type} {P : Protocol C (fun c => Except (E c) (V c)) G}

theorem Meets.attempt {c : C} {wrap : E c → ε} {Ok : G → V c → Prop} (hallowed : P.allowed g c)
    (hok : ∀ v, Ok (P.advance g c (.ok v)) v) (herror : ∀ e, Err (P.advance g c (.error e))) :
    P.Meets Ok Err g (Fallible.attempt c wrap) := by
  refine ⟨hallowed, fun r => ?_⟩
  cases r with
  | ok v => exact hok v
  | error e => exact herror e

end

-- Programs are evaluated by the rules above, never by unfolding.
attribute [irreducible] Meets

end Protocol

/-! ## A run on its own -/

/-- Runs of a program, with their events, over the effects that `sem` allows a call. -/
inductive Executes (sem : S → (c : C) → R c → S → Prop) :
    S → Program C R α → List (Event C R) → α → S → Prop where
  | done {s : S} {a : α} : Executes sem s (.done a) [] a s
  | call {s s' s'' : S} {c : C} {r : R c} {next : R c → Program C R α}
      {trace : List (Event C R)} {a : α} (hcall : sem s c r s')
      (hnext : Executes sem s' (next r) trace a s'') :
      Executes sem s (.call c next) (⟨c, r⟩ :: trace) a s''

/-- An obedient run keeps what the allowed calls keep and ends as promised. -/
theorem Executes.obeys {sem : S → (c : C) → R c → S → Prop} {P : Protocol C R G}
    {Inv : S → G → Prop}
    (hstep : ∀ s g c r s', Inv s g → P.allowed g c → sem s c r s' → Inv s' (P.advance g c r))
    {Post : G → α → Prop} {s s' : S} {p : Program C R α} {trace : List (Event C R)} {a : α}
    (hrun : Executes sem s p trace a s') {g : G} (hinv : Inv s g) (hp : P.Obeys Post g p) :
    Inv s' (P.after g trace) ∧ Post (P.after g trace) a := by
  induction hrun generalizing g with
  | done => exact ⟨hinv, hp⟩
  | call hcall _ ih => exact ih (hstep _ _ _ _ _ hinv hp.1 hcall) (hp.2 _)

/-! ## Interleaved runs with crashes -/

inductive Thread (C : Type) (R : C → Type) (α : Type) where
  | running (rest : Program C R α)
  | crashed

/-- The shared state, what is left of every run, and the events of every run so far. -/
structure Config (ι : Type) (C : Type) (R : C → Type) (S α : Type) where
  state : S
  thread : ι → Thread C R α
  trace : ι → List (Event C R)

variable [DecidableEq ι]

/-- One run makes its next call, or crashes. -/
inductive Step (sem : S → (c : C) → R c → S → Prop) :
    Config ι C R S α → Config ι C R S α → Prop where
  | call {σ : Config ι C R S α} (i : ι) {c : C} {next : R c → Program C R α} {r : R c} {s' : S}
      (hthread : σ.thread i = .running (.call c next)) (hcall : sem σ.state c r s') :
      Step sem σ ⟨s', Function.update σ.thread i (.running (next r)),
        Function.update σ.trace i (σ.trace i ++ [⟨c, r⟩])⟩
  | crash {σ : Config ι C R S α} (i : ι) {rest : Program C R α}
      (hthread : σ.thread i = .running rest) :
      Step sem σ { σ with thread := Function.update σ.thread i .crashed }

/-- The configurations that interleavings reach. -/
def Reaches (sem : S → (c : C) → R c → S → Prop) :
    Config ι C R S α → Config ι C R S α → Prop :=
  Relation.ReflTransGen (Step sem)

/-- No run has made a call yet. -/
def Config.start (s : S) (program : ι → Program C R α) : Config ι C R S α where
  state := s
  thread i := .running (program i)
  trace _ := []

/-- The phases of all runs. -/
def phases (P : ι → Protocol C R G) (g : G) (σ : Config ι C R S α) : ι → G :=
  fun i => (P i).after g (σ.trace i)

/-- What holds of every reachable configuration: the invariant of the protocol, and what is
left of a run still obeys. -/
structure Kept (P : ι → Protocol C R G) (g : G) (Inv : S → (ι → G) → Prop)
    (Post : ι → G → α → Prop) (σ : Config ι C R S α) : Prop where
  inv : Inv σ.state (phases P g σ)
  obeys : ∀ i rest, σ.thread i = .running rest → (P i).Obeys (Post i) (phases P g σ i) rest

section

variable {sem : S → (c : C) → R c → S → Prop} {P : ι → Protocol C R G} {g : G}
  {Inv : S → (ι → G) → Prop} {Post : ι → G → α → Prop} {σ σ' : Config ι C R S α}

theorem phases_update (i : ι) (e : Event C R) (s : S) (thread : ι → Thread C R α) :
    phases P g ⟨s, thread, Function.update σ.trace i (σ.trace i ++ [e])⟩ =
      Function.update (phases P g σ) i ((P i).advance (phases P g σ i) e.call e.reply) := by
  funext j
  by_cases hj : j = i
  · subst hj
    simp [phases, Protocol.after_concat]
  · simp [phases, hj]

theorem Kept.step
    (hinv : ∀ s γ i c r s', Inv s γ → (P i).allowed (γ i) c → sem s c r s' →
      Inv s' (Function.update γ i ((P i).advance (γ i) c r)))
    (h : Kept P g Inv Post σ) (hstep : Step sem σ σ') : Kept P g Inv Post σ' := by
  cases hstep with
  | call i hthread hcall =>
      have hobeys := h.obeys i _ hthread
      constructor
      · rw [phases_update]
        exact hinv _ _ i _ _ _ h.inv hobeys.1 hcall
      · intro j rest hj
        rw [phases_update]
        by_cases hji : j = i
        · subst hji
          simp only [Function.update_self, Thread.running.injEq] at hj ⊢
          exact hj ▸ hobeys.2 _
        · simp only [Function.update_of_ne hji] at hj ⊢
          exact h.obeys j rest hj
  | crash i hthread =>
      refine ⟨h.inv, fun j rest hj => ?_⟩
      by_cases hji : j = i
      · subst hji
        simp at hj
      · simp only [Function.update_of_ne hji] at hj
        exact h.obeys j rest hj

/-- Obedient runs keep, in every reachable configuration, what the allowed calls keep. -/
theorem Kept.reaches
    (hinv : ∀ s γ i c r s', Inv s γ → (P i).allowed (γ i) c → sem s c r s' →
      Inv s' (Function.update γ i ((P i).advance (γ i) c r)))
    (h : Kept P g Inv Post σ) (hreaches : Reaches sem σ σ') : Kept P g Inv Post σ' := by
  induction hreaches with
  | refl => exact h
  | tail _ hstep ih => exact ih.step hinv hstep

/-- What every allowed call relates, an interleaving relates from end to end. -/
theorem Kept.reaches_rel {Rel : S → S → Prop} (hrefl : ∀ s, Rel s s)
    (htrans : ∀ s s' s'', Rel s s' → Rel s' s'' → Rel s s'')
    (hinv : ∀ s γ i c r s', Inv s γ → (P i).allowed (γ i) c → sem s c r s' →
      Inv s' (Function.update γ i ((P i).advance (γ i) c r)))
    (hrel : ∀ s γ i c r s', Inv s γ → (P i).allowed (γ i) c → sem s c r s' → Rel s s')
    (h : Kept P g Inv Post σ) (hreaches : Reaches sem σ σ') : Rel σ.state σ'.state := by
  induction hreaches with
  | refl => exact hrefl _
  | tail hreaches hstep ih =>
      have hkept := h.reaches hinv hreaches
      apply htrans _ _ _ ih
      cases hstep with
      | call i hthread hcall => exact hrel _ _ i _ _ _ hkept.inv (hkept.obeys i _ hthread).1 hcall
      | crash i hthread => exact hrefl _

omit [DecidableEq ι] in
theorem Kept.start {s : S} {program : ι → Program C R α} (hs : Inv s fun _ => g)
    (hp : ∀ i, (P i).Obeys (Post i) g (program i)) :
    Kept P g Inv Post (Config.start s program) := by
  refine ⟨hs, fun i rest hi => ?_⟩
  cases hi
  exact hp i

end

/-! ## Runs by a schedule -/

/-- Run `i` makes its next call, answered as `react` says. -/
def Config.turn (react : S → (c : C) → Option (R c × S)) (σ : Config ι C R S α) (i : ι) :
    Option (Config ι C R S α) :=
  match σ.thread i with
  | .running (.call c next) => (react σ.state c).map fun reply =>
      ⟨reply.2, Function.update σ.thread i (.running (next reply.1)),
        Function.update σ.trace i (σ.trace i ++ [⟨c, reply.1⟩])⟩
  | _ => none

/-- The runs take turns. -/
def Config.turns (react : S → (c : C) → Option (R c × S)) (σ : Config ι C R S α) :
    List ι → Option (Config ι C R S α)
  | [] => some σ
  | i :: schedule =>
      match σ.turn react i with
      | some σ' => σ'.turns react schedule
      | none => none

section

variable {sem : S → (c : C) → R c → S → Prop} {react : S → (c : C) → Option (R c × S)}
  {σ σ' : Config ι C R S α}

theorem turn_eq_some {i : ι} (h : σ.turn react i = some σ') :
    ∃ c next r, σ.thread i = .running (.call c next) ∧ react σ.state c = some (r, σ'.state) ∧
      σ' = ⟨σ'.state, Function.update σ.thread i (.running (next r)),
        Function.update σ.trace i (σ.trace i ++ [⟨c, r⟩])⟩ := by
  unfold Config.turn at h
  split at h
  · next c next hthread =>
      obtain ⟨⟨r, s'⟩, hreact, rfl⟩ := Option.map_eq_some_iff.mp h
      exact ⟨c, next, r, hthread, hreact, rfl⟩
  · cases h

theorem reaches_of_turns (hreact : ∀ s c r s', react s c = some (r, s') → sem s c r s')
    {schedule : List ι} (h : σ.turns react schedule = some σ') : Reaches sem σ σ' := by
  induction schedule generalizing σ with
  | nil =>
      cases h
      exact .refl
  | cons i schedule ih =>
      rw [Config.turns] at h
      split at h
      · next σ₁ hturn =>
          obtain ⟨c, next, r, hthread, hcall, hσ₁⟩ := turn_eq_some hturn
          have hstep := Step.call i hthread (hreact _ _ _ _ hcall)
          rw [← hσ₁] at hstep
          exact .head hstep (ih h)
      · cases h

end

end Invokrum.Programs
