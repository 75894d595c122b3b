import Mathlib.Tactic

/-!
# Codes that show where they end

A code is delimited when its word can be cut off the front of any text in one
way only: behind a separator that no word contains, or by a fixed length. Words
of such a code can be followed by anything, and a list of them by nothing, and
stay readable.
-/

namespace Invokrum.Coding

variable {α β γ : Type}

/-- A word of the code, followed by anything, determines its value and what follows. -/
def Delimited (code : α → List γ) : Prop :=
  ∀ (a a' : α) (rest rest' : List γ), code a ++ rest = code a' ++ rest' → a = a' ∧ rest = rest'

/-- A code that can be read back off the front of a text. -/
theorem Delimited.of_reader {code : α → List γ} {read : List γ → Option (α × List γ)}
    (h : ∀ a rest, read (code a ++ rest) = some (a, rest)) : Delimited code := by
  intro a a' rest rest' heq
  have hread := h a rest
  rw [heq, h a' rest'] at hread
  exact ⟨(Prod.mk.inj (Option.some.inj hread)).1.symm, (Prod.mk.inj (Option.some.inj hread)).2.symm⟩

/-- What stands before the first separator. -/
theorem append_cons_inj {c : γ} {xs xs' rest rest' : List γ} (h : c ∉ xs) (h' : c ∉ xs')
    (heq : xs ++ c :: rest = xs' ++ c :: rest') : xs = xs' ∧ rest = rest' := by
  induction xs generalizing xs' with
  | nil =>
      cases xs' with
      | nil => exact ⟨rfl, (List.cons.inj heq).2⟩
      | cons x xs' =>
          rw [(List.cons.inj heq).1] at h'
          exact absurd List.mem_cons_self h'
  | cons x xs ih =>
      cases xs' with
      | nil =>
          rw [← (List.cons.inj heq).1] at h
          exact absurd List.mem_cons_self h
      | cons y xs' =>
          obtain ⟨rfl, htail⟩ := List.cons.inj heq
          obtain ⟨rfl, hrest⟩ := ih (fun hc => h (List.mem_cons_of_mem x hc))
            (fun hc => h' (List.mem_cons_of_mem x hc)) htail
          exact ⟨rfl, hrest⟩

/-- Words without the separator, ended by it. -/
theorem Delimited.separated {code : α → List γ} (c : γ) (hinj : Function.Injective code)
    (hfree : ∀ a, c ∉ code a) : Delimited fun a => code a ++ [c] := by
  intro a a' rest rest' h
  rw [List.append_assoc, List.append_assoc] at h
  obtain ⟨hcode, hrest⟩ := append_cons_inj (hfree a) (hfree a') h
  exact ⟨hinj hcode, hrest⟩

/-- Words of one length. -/
theorem Delimited.fixed {code : α → List γ} (hinj : Function.Injective code) {n : Nat}
    (hlength : ∀ a, (code a).length = n) : Delimited code := by
  intro a a' rest rest' h
  obtain ⟨hcode, hrest⟩ := List.append_inj h ((hlength a).trans (hlength a').symm)
  exact ⟨hinj hcode, hrest⟩

/-- One word behind another. -/
theorem Delimited.pair {first : α → List γ} {second : β → List γ} (hfirst : Delimited first)
    (hsecond : Delimited second) : Delimited fun ab : α × β => first ab.1 ++ second ab.2 := by
  intro ab ab' rest rest' h
  rw [List.append_assoc, List.append_assoc] at h
  obtain ⟨hone, htail⟩ := hfirst _ _ _ _ h
  obtain ⟨htwo, hrest⟩ := hsecond _ _ _ _ htail
  exact ⟨Prod.ext hone htwo, hrest⟩

/-- A word with a fixed end. -/
theorem Delimited.ended {code : α → List γ} (h : Delimited code) (tail : List γ) :
    Delimited fun a => code a ++ tail := by
  intro a a' rest rest' heq
  rw [List.append_assoc, List.append_assoc] at heq
  obtain ⟨ha, htail⟩ := h _ _ _ _ heq
  exact ⟨ha, List.append_cancel_left htail⟩

/-- What follows some words of a list of words is made of the words that are left. -/
theorem Delimited.flatMap_append {code : α → List γ} (h : Delimited code) (hne : ∀ a, code a ≠ [])
    {xs ys : List α} {rest : List γ} (heq : xs.flatMap code = ys.flatMap code ++ rest) :
    ∃ zs, xs = ys ++ zs ∧ rest = zs.flatMap code := by
  induction ys generalizing xs with
  | nil => exact ⟨xs, rfl, heq.symm⟩
  | cons y ys ih =>
      cases xs with
      | nil =>
          rw [List.flatMap_nil, List.flatMap_cons, List.append_assoc] at heq
          exact absurd (List.append_eq_nil_iff.mp heq.symm).1 (hne y)
      | cons x xs =>
          rw [List.flatMap_cons, List.flatMap_cons, List.append_assoc] at heq
          obtain ⟨rfl, hrest⟩ := h _ _ _ _ heq
          obtain ⟨zs, rfl, hzs⟩ := ih hrest
          exact ⟨zs, rfl, hzs⟩

/-- A list of words determines its values, if no word is empty. -/
theorem Delimited.flatMap_injective {code : α → List γ} (h : Delimited code)
    (hne : ∀ a, code a ≠ []) : Function.Injective (List.flatMap code) := by
  intro xs ys heq
  rw [← List.append_nil (ys.flatMap code)] at heq
  obtain ⟨zs, rfl, hnil⟩ := h.flatMap_append hne heq
  cases zs with
  | nil => exact List.append_nil ys
  | cons z zs =>
      rw [List.flatMap_cons] at hnil
      exact absurd (List.append_eq_nil_iff.mp hnil.symm).1 (hne z)

end Invokrum.Coding
