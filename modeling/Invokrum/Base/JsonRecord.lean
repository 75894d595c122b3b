import Invokrum.Base.JsonFields

/-!
# Structures with optional fields

The fields that may be left out come last. By position they may be missing from
the end of an array; by name they may be missing from an object. An array may
leave out nothing else, and an object names no field twice.
-/

namespace Invokrum.Json

open Ordered

/-- The field values of a structure in declaration order, absent ones included. -/
def record (required optional : List String) : Json → Option (List (Option Json))
  | .array items =>
      if required.length ≤ items.length ∧ items.length ≤ (required ++ optional).length then
        some (items.map some ++
          List.replicate ((required ++ optional).length - items.length) none)
      else none
  | .object members =>
      if (members.map Prod.fst).Nodup ∧ (∀ name ∈ members.map Prod.fst, name ∈ required ++ optional)
          ∧ ∀ name ∈ required, name ∈ members.map Prod.fst then
        some ((required ++ optional).map fun name => members.lookup name)
      else none
  | _ => none

/-- A `u32`. -/
def asUInt32 : Json → Option UInt32
  | .unsigned n => if n < 2 ^ 32 then some (UInt32.ofNat n) else none
  | _ => none

/-- An `Option<u32>`, absent or null for `None`. -/
def asOptionUInt32 : Option Json → Option (Option UInt32)
  | none => some none
  | some .null => some none
  | some j => (asUInt32 j).map some

def asObject : Json → Option (List (String × Json))
  | .object members => some members
  | _ => none

/-- A list that defaults to the empty one. -/
def asDefaultArray : Option Json → Option (List Json)
  | none => some []
  | some j => asArray j

def ofUInt32 (n : UInt32) : Json := .unsigned n.toNat

def ofOptionUInt32 : Option UInt32 → Json
  | none => .null
  | some n => ofUInt32 n

@[simp] theorem asUInt32_ofUInt32 (n : UInt32) : asUInt32 (ofUInt32 n) = some n := by
  simp [asUInt32, ofUInt32, n.toNat_lt]

@[simp] theorem asOptionUInt32_ofOptionUInt32 (n : Option UInt32) :
    asOptionUInt32 (some (ofOptionUInt32 n)) = some n := by
  cases n with
  | none => rfl
  | some n =>
      have h := asUInt32_ofUInt32 n
      rw [ofUInt32] at h
      simp [asOptionUInt32, ofOptionUInt32, ofUInt32, h]

/-- A fallible map over a list, element by element. -/
theorem mapM_eq_some {α β : Type} {f : α → Option β} {xs : List α} {ys : List β} :
    xs.mapM f = some ys ↔ List.Forall₂ (fun x y => f x = some y) xs ys := by
  induction xs generalizing ys with
  | nil => simp [eq_comm]
  | cons x xs ih =>
      rw [List.mapM_cons, List.forall₂_cons_left_iff]
      cases hx : f x with
      | none => simp
      | some y =>
          cases hxs : xs.mapM f with
          | none => simp [← ih, hxs]
          | some zs =>
              simp only [bind, Option.bind, pure, ← ih, hxs, Option.some.injEq]
              exact ⟨fun h => ⟨y, zs, rfl, rfl, h.symm⟩, fun ⟨y', zs', hy, hzs, h⟩ => by
                rw [h, hy, hzs]⟩

/-- A structure printed with all its fields reads back their values. -/
theorem record_object {required optional : List String} {members : List (String × Json)}
    (hnames : members.map Prod.fst = required ++ optional) (h : (required ++ optional).Nodup) :
    record required optional (.object members) = some (members.map fun member => some member.2) := by
  have hnodup : (members.map Prod.fst).Nodup := hnames ▸ h
  rw [record, hnames, if_pos ⟨h, fun _ hname => hname, fun _ hname =>
    List.mem_append_left optional hname⟩, ← hnames, List.map_map, Option.some.injEq]
  apply List.map_congr_left
  intro member hmember
  exact (SortedMap.lookup_eq_some_iff hnodup).mpr hmember

/-- A structure read by name holds every member of the object at its name. -/
theorem mem_of_record {required optional : List String} {members : List (String × Json)}
    {values : List (Option Json)}
    (h : record required optional (.object members) = some values) {member : String × Json}
    (hmember : member ∈ members) :
    (member.1, some member.2) ∈ (required ++ optional).zip values := by
  rw [record] at h
  split at h
  · next hvalid =>
      have hname := hvalid.2.1 member.1 (List.mem_map_of_mem hmember)
      have hlookup : members.lookup member.1 = some member.2 :=
        (SortedMap.lookup_eq_some_iff hvalid.1).mpr hmember
      rw [← Option.some.inj h, List.zip_map_right, List.zip_eq_zipWith, List.zipWith_self,
        List.map_map, List.mem_map]
      exact ⟨member.1, hname, by simp [hlookup]⟩
  · cases h

/-- What a structure is read from stands in the structure. -/
theorem mem_of_record_value {required optional : List String} {j value : Json}
    {values : List (Option Json)} (h : record required optional j = some values)
    (hvalue : some value ∈ values) :
    (∃ items, j = .array items ∧ value ∈ items) ∨
      ∃ members member, j = .object members ∧ member ∈ members ∧ member.2 = value := by
  cases j with
  | array items =>
      rw [record] at h
      split at h
      · rw [← Option.some.inj h, List.mem_append] at hvalue
        rcases hvalue with hvalue | hvalue
        · simp only [List.mem_map, Option.some.injEq, exists_eq_right] at hvalue
          exact .inl ⟨items, rfl, hvalue⟩
        · exact absurd (List.eq_of_mem_replicate hvalue) (by simp)
      · cases h
  | object members =>
      rw [record] at h
      split at h
      · next hvalid =>
          rw [← Option.some.inj h, List.mem_map] at hvalue
          obtain ⟨name, _, hlookup⟩ := hvalue
          exact .inr ⟨members, (name, value), rfl,
            (SortedMap.lookup_eq_some_iff hvalid.1).mp hlookup, rfl⟩
      · cases h
  | _ => cases h

/-! ## Structures without optional fields -/

theorem asString_eq_some {j : Json} {s : String} : j.asString = some s ↔ j = .string s := by
  cases j <;> simp [asString, eq_comm]

/-- A structure is read by position, or from an object with its members in any order. -/
theorem fields_eq_some {names : List String} (hnames : names.Nodup) {j : Json}
    {values : List Json} : j.fields names = some values ↔ values.length = names.length ∧
      (j = .array values ∨ ∃ members, j = .object members ∧ members.Perm (names.zip values)) := by
  cases j with
  | array items =>
      rw [fields]
      split
      · next hlength =>
          constructor
          · intro h
            cases h
            exact ⟨hlength, .inl rfl⟩
          · rintro ⟨_, h | ⟨_, h, _⟩⟩
            · cases h
              rfl
            · cases h
      · next hlength =>
          constructor
          · intro h
            cases h
          · rintro ⟨hvalues, h | ⟨_, h, _⟩⟩
            · cases h
              exact absurd hvalues hlength
            · cases h
  | object members =>
      have hzip : ∀ values : List Json, values.length = names.length →
          (names.zip values).map Prod.fst = names :=
        fun values hlength => List.map_fst_zip (Nat.le_of_eq hlength.symm)
      constructor
      · intro h
        rw [fields] at h
        split at h
        · next hvalid =>
            obtain ⟨hsame, hall⟩ := List.forall₂_iff_zip.mp (mapM_eq_some.mp h)
            have hlength := hsame.symm
            have hpairs : ((names.zip values).map Prod.fst).Nodup := by rwa [hzip values hlength]
            refine ⟨hlength, .inr ⟨members, rfl, ?_⟩⟩
            rw [List.perm_ext_iff_of_nodup hvalid.1.of_map hpairs.of_map]
            rintro ⟨name, value⟩
            rw [← SortedMap.lookup_eq_some_iff hvalid.1]
            constructor
            · intro hlookup
              have hname : name ∈ (names.zip values).map Prod.fst := by
                rw [hzip values hlength]
                exact hvalid.2 name (List.mem_map_of_mem
                  ((SortedMap.lookup_eq_some_iff hvalid.1).mp hlookup))
              obtain ⟨⟨_, value'⟩, hmem, rfl⟩ := List.mem_map.mp hname
              have heq := (hall hmem).symm.trans hlookup
              cases heq
              exact hmem
            · exact fun hmem => hall hmem
        · cases h
      · rintro ⟨hlength, h | ⟨_, h, hperm⟩⟩
        · cases h
        · cases h
          have hfst : (members.map Prod.fst).Perm names := hzip values hlength ▸ hperm.map Prod.fst
          have hnodup : (members.map Prod.fst).Nodup := hfst.nodup_iff.mpr hnames
          rw [fields, if_pos ⟨hnodup, fun name hname => hfst.mem_iff.mp hname⟩, mapM_eq_some,
            List.forall₂_iff_zip]
          exact ⟨hlength.symm, fun hmem =>
            (SortedMap.lookup_eq_some_iff hnodup).mpr (hperm.mem_iff.mpr hmem)⟩
  | _ => simp [fields]

end Invokrum.Json
