import Mathlib.Tactic

/-!
# Lists grouped by key

A list of groups, each a key with its values, and the flat list of key-value
pairs it stands for. Nonempty groups of distinct keys are determined by their
pairs.
-/

namespace Invokrum.Grouped

variable {α β : Type}

/-- The key-value pairs of some groups, in order. -/
def pairs (groups : List (α × List β)) : List (α × β) :=
  groups.flatMap fun group => group.2.map fun value => (group.1, value)

theorem pairs_cons (group : α × List β) (groups : List (α × List β)) :
    pairs (group :: groups) = (group.2.map fun value => (group.1, value)) ++ pairs groups :=
  List.flatMap_cons

theorem mem_pairs {groups : List (α × List β)} {key : α} {value : β} :
    (key, value) ∈ pairs groups ↔ ∃ group ∈ groups, group.1 = key ∧ value ∈ group.2 := by
  simp only [pairs, List.mem_flatMap, List.mem_map, Prod.mk.injEq]
  constructor
  · intro h
    obtain ⟨group, hgroup, value', hvalue, hkey, rfl⟩ := h
    exact ⟨group, hgroup, hkey, hvalue⟩
  · intro h
    obtain ⟨group, hgroup, hkey, hvalue⟩ := h
    exact ⟨group, hgroup, value, hvalue, hkey, rfl⟩

/-- Empty groups have no pairs. -/
theorem pairs_filter (groups : List (α × List β)) :
    pairs (groups.filter fun group => !group.2.isEmpty) = pairs groups := by
  induction groups with
  | nil => rfl
  | cons group groups ih =>
      cases hvalues : group.2 with
      | nil => rw [List.filter_cons, hvalues, pairs_cons, hvalues, ← ih]; rfl
      | cons value values =>
          rw [List.filter_cons, hvalues, pairs_cons group groups, ← ih]
          exact pairs_cons group _

/-- The values of the first key, taken out of all pairs. -/
theorem pairs_filter_key [DecidableEq α] {group : α × List β} {groups : List (α × List β)}
    (h : group.1 ∉ groups.map Prod.fst) :
    (pairs (group :: groups)).filter (fun pair => pair.1 = group.1) =
      group.2.map fun value => (group.1, value) := by
  have hrest : (pairs groups).filter (fun pair => pair.1 = group.1) = [] := by
    rw [List.filter_eq_nil_iff]
    intro pair hpair
    obtain ⟨other, hother, hkey, _⟩ := mem_pairs.mp hpair
    simp only [decide_eq_true_eq]
    intro heq
    exact h (List.mem_map.mpr ⟨other, hother, hkey.trans heq⟩)
  rw [pairs_cons, List.filter_append, hrest, List.append_nil, List.filter_eq_self]
  intro pair hpair
  obtain ⟨value, _, rfl⟩ := List.mem_map.mp hpair
  simp

/-- Nonempty groups of distinct keys are determined by their pairs. -/
theorem pairs_injective {xs ys : List (α × List β)} (hx : ∀ group ∈ xs, group.2 ≠ [])
    (hy : ∀ group ∈ ys, group.2 ≠ []) (hxkeys : (xs.map Prod.fst).Nodup)
    (hykeys : (ys.map Prod.fst).Nodup) (h : pairs xs = pairs ys) : xs = ys := by
  classical
  have hempty : ∀ {group : α × List β} {groups : List (α × List β)}, group.2 ≠ [] →
      pairs (group :: groups) ≠ [] := by
    intro group groups hvalues hnil
    rw [pairs_cons, List.append_eq_nil_iff, List.map_eq_nil_iff] at hnil
    exact hvalues hnil.1
  induction xs generalizing ys with
  | nil =>
      cases ys with
      | nil => rfl
      | cons group groups => exact absurd h.symm (hempty (hy group List.mem_cons_self))
  | cons group groups ih =>
      cases ys with
      | nil => exact absurd h (hempty (hx group List.mem_cons_self))
      | cons group' groups' =>
          rw [List.map_cons, List.nodup_cons] at hxkeys hykeys
          have hkey : group.1 = group'.1 := by
            have hhead := congrArg List.head? h
            obtain ⟨value, values, hvalues⟩ :=
              List.exists_cons_of_ne_nil (hx group List.mem_cons_self)
            obtain ⟨value', values', hvalues'⟩ :=
              List.exists_cons_of_ne_nil (hy group' List.mem_cons_self)
            rw [pairs_cons, pairs_cons, hvalues, hvalues'] at hhead
            simp only [List.map_cons, List.cons_append, List.head?_cons, Option.some.injEq,
              Prod.mk.injEq] at hhead
            exact hhead.1
          have hvalues : group.2 = group'.2 := by
            have hfilter := pairs_filter_key hxkeys.1
            rw [h, hkey, pairs_filter_key hykeys.1] at hfilter
            have hinjective : Function.Injective fun value : β => (group'.1, value) :=
              fun _ _ heq => (Prod.mk.inj heq).2
            exact (hinjective.list_map hfilter).symm
          have hgroup : group = group' := Prod.ext hkey hvalues
          subst hgroup
          rw [pairs_cons, pairs_cons] at h
          rw [ih (fun g hg => hx g (List.mem_cons_of_mem _ hg))
            (fun g hg => hy g (List.mem_cons_of_mem _ hg)) hxkeys.2 hykeys.2
            (List.append_cancel_left h)]

end Invokrum.Grouped
