import Mathlib.Tactic

/-!
# Sorted sets, sorted maps and sorting by key

The ordered collections carry their strict order as a field, so two of them are
equal exactly when they have the same elements. Sorting by a key is stable, and
is insensitive to the order of its input as soon as the keys are distinct.
-/

namespace Invokrum.Ordered

variable {α κ ν : Type}

/-! ## Sorting by key -/

/-- A stable sort that compares two elements by their keys only. -/
def sortByKey [LinearOrder κ] (key : α → κ) (xs : List α) : List α :=
  xs.insertionSort (fun a b => key a ≤ key b)

section SortByKey

variable [LinearOrder κ] (key : α → κ)

instance instTotalKeyLe : Std.Total (fun a b : α => key a ≤ key b) :=
  ⟨fun a b => le_total (key a) (key b)⟩

instance instTransKeyLe : IsTrans α (fun a b : α => key a ≤ key b) :=
  ⟨fun _ _ _ => le_trans⟩

theorem sortByKey_perm (xs : List α) : (sortByKey key xs).Perm xs :=
  List.perm_insertionSort _ xs

@[simp] theorem mem_sortByKey {xs : List α} {x : α} : x ∈ sortByKey key xs ↔ x ∈ xs :=
  (sortByKey_perm key xs).mem_iff

@[simp] theorem length_sortByKey (xs : List α) : (sortByKey key xs).length = xs.length :=
  (sortByKey_perm key xs).length_eq

theorem sortByKey_sorted (xs : List α) :
    (sortByKey key xs).Pairwise (fun a b => key a ≤ key b) :=
  List.pairwise_insertionSort _ xs

/-- Distinct keys make the sorted list strictly increasing. -/
theorem sortByKey_strict {xs : List α} (h : (xs.map key).Nodup) :
    (sortByKey key xs).Pairwise (fun a b => key a < key b) := by
  have hnodup : ((sortByKey key xs).map key).Nodup :=
    ((sortByKey_perm key xs).map key).nodup_iff.mpr h
  have hne : (sortByKey key xs).Pairwise (fun a b => key a ≠ key b) :=
    List.pairwise_map.mp hnodup
  exact ((sortByKey_sorted key xs).and hne).imp fun hab => lt_of_le_of_ne hab.1 hab.2

theorem sortByKey_of_sorted {xs : List α} (h : xs.Pairwise (fun a b => key a ≤ key b)) :
    sortByKey key xs = xs :=
  h.insertionSort_eq

theorem sortByKey_of_strict {xs : List α} (h : xs.Pairwise (fun a b => key a < key b)) :
    sortByKey key xs = xs :=
  sortByKey_of_sorted key (h.imp le_of_lt)

/-- Strictly sorted lists with the same elements are the same list. -/
theorem eq_of_perm_of_strict {xs ys : List α} (hp : xs.Perm ys)
    (hx : xs.Pairwise (fun a b => key a < key b)) (hy : ys.Pairwise (fun a b => key a < key b)) :
    xs = ys :=
  hp.eq_of_pairwise (fun _ _ _ _ hab hba => absurd hab (lt_asymm hba)) hx hy

/-- Input order does not matter once the keys are distinct. -/
theorem sortByKey_eq_of_perm {xs ys : List α} (hp : xs.Perm ys) (h : (xs.map key).Nodup) :
    sortByKey key xs = sortByKey key ys := by
  have hy : (ys.map key).Nodup := (hp.map key).nodup_iff.mp h
  exact eq_of_perm_of_strict key
    ((sortByKey_perm key xs).trans (hp.trans (sortByKey_perm key ys).symm))
    (sortByKey_strict key h) (sortByKey_strict key hy)

theorem nodup_map_of_strict {xs : List α} (h : xs.Pairwise (fun a b => key a < key b)) :
    (xs.map key).Nodup :=
  List.pairwise_map.mpr (h.imp ne_of_lt)

omit [LinearOrder κ] in
/-- In a list with distinct keys an element is determined by its key. -/
theorem eq_of_key_eq {xs : List α} (h : (xs.map key).Nodup) {a b : α} (ha : a ∈ xs)
    (hb : b ∈ xs) (hab : key a = key b) : a = b :=
  List.inj_on_of_nodup_map h ha hb hab

/-- A strictly sorted list has two equal neighbours nowhere. -/
theorem sortByKey_nodup_iff {xs : List α} :
    (sortByKey key xs).Pairwise (fun a b => key a < key b) ↔ (xs.map key).Nodup := by
  constructor
  · intro h
    exact ((sortByKey_perm key xs).map key).nodup_iff.mp (nodup_map_of_strict key h)
  · exact sortByKey_strict key

end SortByKey

/-- `slice.windows(2)`: the pairs of neighbours, in order. -/
def windows : List α → List (α × α)
  | a :: b :: rest => (a, b) :: windows (b :: rest)
  | _ => []

theorem windows_map {β : Type} (f : α → β) (xs : List α) :
    windows (xs.map f) = (windows xs).map fun w => (f w.1, f w.2) := by
  induction xs with
  | nil => rfl
  | cons a xs ih =>
      cases xs with
      | nil => rfl
      | cons b rest =>
          simp only [List.map_cons, windows] at ih ⊢
          rw [ih]

/-- In a sorted list, distinct neighbours already mean distinct keys throughout. -/
theorem windows_ne_iff [LinearOrder κ] (key : α → κ) {xs : List α}
    (h : xs.Pairwise (fun a b => key a ≤ key b)) :
    (∀ w ∈ windows xs, key w.1 ≠ key w.2) ↔ xs.Pairwise (fun a b => key a < key b) := by
  induction xs with
  | nil => simp [windows]
  | cons a xs ih =>
      cases xs with
      | nil => simp [windows]
      | cons b rest =>
          have htail := ih h.of_cons
          constructor
          · intro hne
            have hab : key a < key b :=
              lt_of_le_of_ne (List.rel_of_pairwise_cons h List.mem_cons_self)
                (hne (a, b) List.mem_cons_self)
            have hrest := htail.mp fun w hw => hne w (List.mem_cons_of_mem _ hw)
            refine List.pairwise_cons.mpr ⟨fun c hc => ?_, hrest⟩
            rcases List.mem_cons.mp hc with rfl | hc
            · exact hab
            · exact hab.trans (List.rel_of_pairwise_cons hrest hc)
          · intro hlt w hw
            rcases List.mem_cons.mp hw with rfl | hw
            · exact ne_of_lt (List.rel_of_pairwise_cons hlt List.mem_cons_self)
            · exact htail.mpr hlt.of_cons w hw

/-! ## Sorted sets -/

/-- A set kept as its strictly increasing list of elements. -/
structure SortedSet (α : Type) [LinearOrder α] where
  toList : List α
  sorted : toList.Pairwise (· < ·)
deriving DecidableEq

namespace SortedSet

variable [LinearOrder α]

instance : Membership α (SortedSet α) := ⟨fun s a => a ∈ s.toList⟩

instance (a : α) (s : SortedSet α) : Decidable (a ∈ s) :=
  inferInstanceAs (Decidable (a ∈ s.toList))

theorem mem_def {a : α} {s : SortedSet α} : a ∈ s ↔ a ∈ s.toList := Iff.rfl

@[ext] theorem ext {s t : SortedSet α} (h : s.toList = t.toList) : s = t := by
  cases s; cases t; cases h; rfl

/-- Sets with the same elements are the same set. -/
theorem ext_mem {s t : SortedSet α} (h : ∀ a, a ∈ s ↔ a ∈ t) : s = t := by
  have hperm : s.toList.Perm t.toList := by
    rw [List.perm_ext_iff_of_nodup (s.sorted.imp ne_of_lt) (t.sorted.imp ne_of_lt)]
    exact h
  exact ext (eq_of_perm_of_strict id hperm s.sorted t.sorted)

/-- The set of the elements of a list. -/
def ofList (xs : List α) : SortedSet α where
  toList := sortByKey id xs.dedup
  sorted := sortByKey_strict id (by simpa using xs.nodup_dedup)

@[simp] theorem mem_ofList {a : α} {xs : List α} : a ∈ ofList xs ↔ a ∈ xs := by
  simp [mem_def, ofList, List.mem_dedup]

end SortedSet

/-! ## Sorted maps -/

/-- A map kept as its list of entries, strictly increasing by key. -/
structure SortedMap (κ ν : Type) [LinearOrder κ] where
  entries : List (κ × ν)
  sorted : entries.Pairwise (fun a b => a.1 < b.1)
deriving DecidableEq

namespace SortedMap

variable [LinearOrder κ]

@[ext] theorem ext {m m' : SortedMap κ ν} (h : m.entries = m'.entries) : m = m' := by
  cases m; cases m'; cases h; rfl

def keys (m : SortedMap κ ν) : List κ := m.entries.map Prod.fst

def get (m : SortedMap κ ν) (k : κ) : Option ν := m.entries.lookup k

theorem keys_nodup (m : SortedMap κ ν) : m.keys.Nodup :=
  nodup_map_of_strict Prod.fst m.sorted

/-- Under distinct keys, lookup finds exactly the entries. -/
theorem lookup_eq_some_iff {entries : List (κ × ν)} (h : (entries.map Prod.fst).Nodup)
    {k : κ} {v : ν} : entries.lookup k = some v ↔ (k, v) ∈ entries := by
  induction entries with
  | nil => simp
  | cons entry rest ih =>
      obtain ⟨k', v'⟩ := entry
      rw [List.map_cons, List.nodup_cons] at h
      by_cases hk : k = k'
      · subst hk
        have hnot : (k, v) ∉ rest := fun hm => h.1 (List.mem_map.mpr ⟨(k, v), hm, rfl⟩)
        simp [hnot, eq_comm]
      · simp [List.lookup_cons, hk, ih h.2, beq_eq_false_iff_ne.mpr hk]

theorem get_eq_some_iff {m : SortedMap κ ν} {k : κ} {v : ν} :
    m.get k = some v ↔ (k, v) ∈ m.entries :=
  lookup_eq_some_iff m.keys_nodup

theorem mem_keys_iff {m : SortedMap κ ν} {k : κ} : k ∈ m.keys ↔ ∃ v, m.get k = some v := by
  simp [keys, get_eq_some_iff]

theorem get_eq_none_iff {m : SortedMap κ ν} {k : κ} : m.get k = none ↔ k ∉ m.keys := by
  rw [mem_keys_iff, ← Option.isSome_iff_exists, Option.not_isSome_iff_eq_none]

def empty : SortedMap κ ν := ⟨[], List.Pairwise.nil⟩

/-- An insertion replaces the value of a key that is present. -/
def insert (m : SortedMap κ ν) (k : κ) (v : ν) : SortedMap κ ν where
  entries := sortByKey Prod.fst ((k, v) :: m.entries.filter fun e => e.1 ≠ k)
  sorted := by
    apply sortByKey_strict
    rw [List.map_cons, List.nodup_cons]
    constructor
    · simp
    · exact m.keys_nodup.sublist (List.filter_sublist.map Prod.fst)

/-- The entries inserted one after another: of two entries with one key the last stays. -/
def ofEntries (es : List (κ × ν)) : SortedMap κ ν := es.foldl (fun m e => m.insert e.1 e.2) empty

theorem get_insert (m : SortedMap κ ν) (k k' : κ) (v : ν) :
    (m.insert k v).get k' = if k' = k then some v else m.get k' := by
  apply Option.ext
  intro w
  rw [get_eq_some_iff, insert, mem_sortByKey, List.mem_cons, List.mem_filter]
  by_cases hk : k' = k
  · simp [hk, eq_comm]
  · simp [hk, get_eq_some_iff]

theorem get_foldl_insert (es : List (κ × ν)) (m : SortedMap κ ν) (k : κ) :
    (es.foldl (fun m e => m.insert e.1 e.2) m).get k = (es.reverse.lookup k).or (m.get k) := by
  induction es generalizing m with
  | nil => simp
  | cons e es ih =>
      obtain ⟨k', v⟩ := e
      rw [List.foldl_cons, ih, get_insert, List.reverse_cons, List.lookup_append, Option.or_assoc]
      by_cases hk : k = k'
      · simp [hk]
      · simp [hk, List.lookup_cons, beq_eq_false_iff_ne.mpr hk]

theorem get_ofEntries (es : List (κ × ν)) (k : κ) :
    (ofEntries es).get k = es.reverse.lookup k := by
  rw [ofEntries, get_foldl_insert]
  simp [get, empty]

/-- Under distinct keys no insertion replaces another. -/
theorem mem_ofEntries {es : List (κ × ν)} (h : (es.map Prod.fst).Nodup) {k : κ} {v : ν} :
    (k, v) ∈ (ofEntries es).entries ↔ (k, v) ∈ es := by
  have hreverse : (es.reverse.map Prod.fst).Nodup := by
    rw [List.map_reverse]
    exact List.nodup_reverse.mpr h
  rw [← get_eq_some_iff, get_ofEntries, lookup_eq_some_iff hreverse, List.mem_reverse]

theorem ofEntries_perm {es : List (κ × ν)} (h : (es.map Prod.fst).Nodup) :
    (ofEntries es).entries.Perm es := by
  rw [List.perm_ext_iff_of_nodup ((ofEntries es).keys_nodup.of_map _) (h.of_map _)]
  intro e
  exact mem_ofEntries h

theorem ofEntries_entries (m : SortedMap κ ν) : ofEntries m.entries = m :=
  ext (eq_of_perm_of_strict Prod.fst (ofEntries_perm m.keys_nodup)
    (ofEntries m.entries).sorted m.sorted)

end SortedMap

end Invokrum.Ordered
