import Invokrum.Base.Json
import Invokrum.Base.Ordered

/-!
# Reading structures from JSON trees

A structure is read from an object with exactly its field names, in any order,
or from an array with exactly its fields by position. Unknown, repeated and
missing names are refused.
-/

namespace Invokrum.Json

open Ordered

/-- The field values of a structure, in declaration order. -/
def fields (names : List String) : Json → Option (List Json)
  | .array items => if items.length = names.length then some items else none
  | .object members =>
      if (members.map Prod.fst).Nodup ∧ ∀ name ∈ members.map Prod.fst, name ∈ names then
        names.mapM fun name => members.lookup name
      else none
  | _ => none

def asString : Json → Option String
  | .string s => some s
  | _ => none

/-- A `u64` or `usize`. -/
def asUInt64 : Json → Option UInt64
  | .unsigned n => if n < 2 ^ 64 then some (UInt64.ofNat n) else none
  | _ => none

def asArray : Json → Option (List Json)
  | .array items => some items
  | _ => none

/-- `Json.unsigned` of a machine word. -/
def ofUInt64 (n : UInt64) : Json := .unsigned n.toNat

@[simp] theorem asUInt64_ofUInt64 (n : UInt64) : asUInt64 (ofUInt64 n) = some n := by
  simp [asUInt64, ofUInt64, n.toNat_lt]

@[simp] theorem printable_ofUInt64 (n : UInt64) (depth : Nat) :
    (ofUInt64 n).printable depth = true := by
  simp [ofUInt64, printable, n.toNat_lt]

private theorem mapM_lookup {members : List (String × Json)} {es : List (String × Json)}
    (h : ∀ e ∈ es, members.lookup e.1 = some e.2) :
    ((es.map Prod.fst).mapM fun name => members.lookup name) = some (es.map Prod.snd) := by
  induction es with
  | nil => rfl
  | cons e es ih =>
      rw [List.map_cons, List.mapM_cons, h e List.mem_cons_self,
        ih fun e' he' => h e' (List.mem_cons_of_mem e he')]
      rfl

/-- A structure printed with its own distinct names reads back its values. -/
theorem fields_object {members : List (String × Json)} (h : (members.map Prod.fst).Nodup) :
    fields (members.map Prod.fst) (.object members) = some (members.map Prod.snd) := by
  rw [fields, if_pos ⟨h, fun _ hname => hname⟩]
  exact mapM_lookup fun e he => (SortedMap.lookup_eq_some_iff h).mpr he

/-- Reading back a printed list. -/
theorem mapM_map_of_inverse {α : Type} {toJson : α → Json} {ofJson : Json → Option α}
    (h : ∀ a, ofJson (toJson a) = some a) (xs : List α) :
    (xs.map toJson).mapM ofJson = some xs := by
  induction xs with
  | nil => rfl
  | cons x xs ih =>
      rw [List.map_cons, List.mapM_cons, h x, ih]
      rfl

end Invokrum.Json
