import Mathlib.Tactic

/-!
# Early-return programs over `Except`

A body that returns early on a failed check is a sequence of `rejectIf` steps.
The inversion lemmas below say exactly when such a sequence, a loop of checks or
a fallible map returns normally, so that no later proof unfolds a bind.
-/

namespace Invokrum.Outcome

variable {ε ε' α β : Type}

/-- `if c { return Err(e) }` followed by the rest of the body. -/
def rejectIf (c : Prop) [Decidable c] (e : ε) : Except ε Unit :=
  if c then .error e else .ok ()

@[simp] theorem rejectIf_eq_ok {c : Prop} [Decidable c] {e : ε} {u : Unit} :
    rejectIf c e = .ok u ↔ ¬ c := by
  unfold rejectIf
  by_cases h : c <;> simp [h]

@[simp] theorem rejectIf_eq_error {c : Prop} [Decidable c] {e e' : ε} :
    rejectIf c e = .error e' ↔ c ∧ e = e' := by
  unfold rejectIf
  by_cases h : c <;> simp [h]

theorem rejectIf_of_not {c : Prop} [Decidable c] (e : ε) (h : ¬ c) :
    rejectIf c e = .ok () := by
  simp [h]

theorem rejectIf_of {c : Prop} [Decidable c] (e : ε) (h : c) :
    rejectIf c e = .error e := by
  simp [h]

@[simp] theorem bind_eq_ok {x : Except ε α} {f : α → Except ε β} {b : β} :
    (x >>= f) = .ok b ↔ ∃ a, x = .ok a ∧ f a = .ok b := by
  cases x <;> simp [bind, Except.bind]

theorem bind_eq_error {x : Except ε α} {f : α → Except ε β} {e : ε} :
    (x >>= f) = .error e ↔ x = .error e ∨ ∃ a, x = .ok a ∧ f a = .error e := by
  cases x <;> simp [bind, Except.bind]

@[simp] theorem ok_bind (a : α) (f : α → Except ε β) : ((.ok a : Except ε α) >>= f) = f a := rfl

@[simp] theorem error_bind (e : ε) (f : α → Except ε β) :
    ((.error e : Except ε α) >>= f) = .error e := rfl

@[simp] theorem mapError_eq_ok {x : Except ε α} {g : ε → ε'} {a : α} :
    x.mapError g = .ok a ↔ x = .ok a := by
  cases x <;> simp [Except.mapError]

@[simp] theorem mapError_eq_error {x : Except ε α} {g : ε → ε'} {e' : ε'} :
    x.mapError g = .error e' ↔ ∃ e, x = .error e ∧ g e = e' := by
  cases x <;> simp [Except.mapError]

/-- `option.ok_or(e)?`. -/
def okOr (x : Option α) (e : ε) : Except ε α :=
  match x with
  | some a => .ok a
  | none => .error e

@[simp] theorem okOr_eq_ok {x : Option α} {e : ε} {a : α} :
    okOr x e = .ok a ↔ x = some a := by
  cases x <;> simp [okOr]

@[simp] theorem okOr_eq_error {x : Option α} {e e' : ε} :
    okOr x e = .error e' ↔ x = none ∧ e = e' := by
  cases x <;> simp [okOr]

@[simp] theorem toOption_eq_some {x : Except ε α} {a : α} : x.toOption = some a ↔ x = .ok a := by
  cases x <;> simp [Except.toOption]

/-! ## Loops of checks -/

/-- A `for` loop whose body either continues or returns early. -/
def forEach (f : α → Except ε Unit) : List α → Except ε Unit
  | [] => .ok ()
  | x :: xs => do f x; forEach f xs

@[simp] theorem forEach_eq_ok {f : α → Except ε Unit} {xs : List α} {u : Unit} :
    forEach f xs = .ok u ↔ ∀ x ∈ xs, f x = .ok () := by
  induction xs with
  | nil => simp [forEach]
  | cons x xs ih =>
      simp only [forEach, bind_eq_ok, ih, List.mem_cons, forall_eq_or_imp]
      exact ⟨fun ⟨_, hx, hrest⟩ => ⟨hx, hrest⟩, fun ⟨hx, hrest⟩ => ⟨(), hx, hrest⟩⟩

/-- A failing loop fails with the error of one of its elements. -/
theorem forEach_eq_error {f : α → Except ε Unit} {xs : List α} {e : ε}
    (h : forEach f xs = .error e) : ∃ x ∈ xs, f x = .error e := by
  induction xs with
  | nil => simp [forEach] at h
  | cons x xs ih =>
      rcases bind_eq_error.mp h with hx | ⟨_, _, hrest⟩
      · exact ⟨x, List.mem_cons_self, hx⟩
      · obtain ⟨y, hy, hfy⟩ := ih hrest
        exact ⟨y, List.mem_cons_of_mem x hy, hfy⟩

/-- A loop that refuses an element whose key it has already seen. -/
def rejectDuplicatesFrom {κ : Type} [DecidableEq κ] (key : α → κ) (error : α → ε) :
    List κ → List α → Except ε Unit
  | _, [] => .ok ()
  | seen, x :: xs => do
      rejectIf (key x ∈ seen) (error x)
      rejectDuplicatesFrom key error (key x :: seen) xs

theorem rejectDuplicatesFrom_eq_ok {κ : Type} [DecidableEq κ] {key : α → κ} {error : α → ε}
    {seen : List κ} {xs : List α} {u : Unit} :
    rejectDuplicatesFrom key error seen xs = .ok u ↔
      (∀ x ∈ xs, key x ∉ seen) ∧ (xs.map key).Nodup := by
  induction xs generalizing seen with
  | nil => simp [rejectDuplicatesFrom]
  | cons x xs ih =>
      simp only [rejectDuplicatesFrom, bind_eq_ok, rejectIf_eq_ok, exists_const, ih,
        List.mem_cons, not_or, forall_eq_or_imp, List.map_cons, List.nodup_cons, List.mem_map,
        not_exists, not_and]
      constructor
      · intro h
        obtain ⟨hx, hrest, hnodup⟩ := h
        exact ⟨⟨hx, fun y hy => (hrest y hy).2⟩, fun y hy => (hrest y hy).1, hnodup⟩
      · intro h
        obtain ⟨⟨hx, hrest⟩, hne, hnodup⟩ := h
        exact ⟨hx, fun y hy => ⟨hne y hy, hrest y hy⟩, hnodup⟩

/-! ## Fallible maps -/

/-- `iter.map(f).collect::<Result<Vec<_>, _>>()`. -/
def collect (f : α → Except ε β) : List α → Except ε (List β)
  | [] => .ok []
  | x :: xs => do
      let y ← f x
      let ys ← collect f xs
      pure (y :: ys)

theorem collect_eq_ok {f : α → Except ε β} {xs : List α} {ys : List β} :
    collect f xs = .ok ys ↔ List.Forall₂ (fun x y => f x = .ok y) xs ys := by
  induction xs generalizing ys with
  | nil => simp [collect, eq_comm]
  | cons x xs ih =>
      simp only [collect, bind_eq_ok, ih, List.forall₂_cons_left_iff, pure, Except.pure,
        Except.ok.injEq]
      constructor
      · rintro ⟨y, hy, zs, hzs, rfl⟩
        exact ⟨y, zs, hy, hzs, rfl⟩
      · rintro ⟨y, zs, hy, hzs, rfl⟩
        exact ⟨y, hy, zs, hzs, rfl⟩

theorem exists_of_forall₂ {r : α → β → Prop} {xs : List α} {ys : List β}
    (h : List.Forall₂ r xs ys) {x : α} (hx : x ∈ xs) : ∃ y ∈ ys, r x y := by
  induction h with
  | nil => cases hx
  | cons hhead _ ih =>
      rcases List.mem_cons.mp hx with rfl | hx
      · exact ⟨_, List.mem_cons_self, hhead⟩
      · obtain ⟨y, hy, hxy⟩ := ih hx
        exact ⟨y, List.mem_cons_of_mem _ hy, hxy⟩

/-- A fallible map that succeeds everywhere is the ordinary map. -/
theorem collect_eq_map {f : α → Except ε β} {g : α → β} {xs : List α}
    (h : ∀ x ∈ xs, f x = .ok (g x)) : collect f xs = .ok (xs.map g) := by
  rw [collect_eq_ok, List.forall₂_map_right_iff, List.forall₂_same]
  exact h

theorem collect_congr {f : α → Except ε β} {xs ys : List α} {r : α → α → Prop}
    (h : List.Forall₂ r xs ys) (hf : ∀ x y, r x y → f x = f y) : collect f xs = collect f ys := by
  induction h with
  | nil => rfl
  | cons hxy _ ih => rw [collect, collect, hf _ _ hxy, ih]

/-- The results of a fallible map that succeeds. -/
theorem mem_of_collect {f : α → Except ε β} {xs : List α} {ys : List β}
    (h : collect f xs = .ok ys) {y : β} : y ∈ ys ↔ ∃ x ∈ xs, f x = .ok y := by
  rw [collect_eq_ok] at h
  induction h with
  | nil => simp
  | cons hhead _ ih =>
      simp only [List.mem_cons, ih, exists_eq_or_imp, hhead, Except.ok.injEq, eq_comm (a := y)]

theorem collect_exists_ok {f : α → Except ε β} {xs : List α} :
    (∃ ys, collect f xs = .ok ys) ↔ ∀ x ∈ xs, ∃ y, f x = .ok y := by
  induction xs with
  | nil => simp [collect]
  | cons x xs ih =>
      simp only [collect, bind_eq_ok, List.mem_cons, forall_eq_or_imp, ← ih, pure, Except.pure,
        Except.ok.injEq]
      constructor
      · rintro ⟨_, y, hy, ys, hys, _⟩
        exact ⟨⟨y, hy⟩, ys, hys⟩
      · rintro ⟨⟨y, hy⟩, ys, hys⟩
        exact ⟨y :: ys, y, hy, ys, hys, rfl⟩

end Invokrum.Outcome
