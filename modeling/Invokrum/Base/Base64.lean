import Invokrum.Base.Bits

/-!
# Base64 over bit strings

The canonical encoding: the bits are cut into groups of six, zeros complete the
last group, every group is one character, and `=` completes the text to a
multiple of four characters.
-/

namespace Invokrum.Base64

open Bits (bigEndian value)

/-- The character of a group of six bits. -/
def symbol (n : Nat) : Char :=
  if n < 26 then Char.ofNat (65 + n)
  else if n < 52 then Char.ofNat (97 + (n - 26))
  else if n < 62 then Char.ofNat (48 + (n - 52))
  else if n = 62 then '+' else '/'

/-- The number of groups of six that hold some bits. -/
def groupCount (length : Nat) : Nat := (length + 5) / 6

/-- A group of six bits, completed with zeros. -/
def group (bits : List Bool) (index : Nat) : List Bool :=
  ((bits ++ List.replicate 5 false).drop (6 * index)).take 6

def encode (bits : List Bool) : List Char :=
  let count := groupCount bits.length
  (List.range count).map (fun index => symbol (value (group bits index))) ++
    List.replicate ((4 - count % 4) % 4) '='

theorem group_append {xs : List Bool} {count : Nat} (hxs : xs.length = 6 * count)
    (ys : List Bool) (index : Nat) : group (xs ++ ys) (count + index) = group ys index := by
  unfold group
  rw [List.append_assoc, Nat.mul_add, ← List.drop_drop, List.drop_left' hxs]

/-- Four groups are encoded apart from the rest. -/
theorem encode_append {xs : List Bool} (hxs : xs.length = 24) (ys : List Bool) :
    encode (xs ++ ys) = encode xs ++ encode ys := by
  have hcount : groupCount (xs ++ ys).length = 4 + groupCount ys.length := by
    unfold groupCount
    rw [List.length_append, hxs]
    omega
  have hfour : groupCount xs.length = 4 := by
    rw [hxs]
    rfl
  have hfirst : ∀ index ∈ List.range 4, symbol (value (group (xs ++ ys) index)) =
      symbol (value (group xs index)) := by
    intro index hindex
    have hlt := List.mem_range.mp hindex
    have hinside : ∀ zs : List Bool, ((xs ++ zs).drop (6 * index)).take 6 =
        (xs.drop (6 * index)).take 6 := by
      intro zs
      rw [List.drop_append_of_le_length (by omega), List.take_append_of_le_length (by
        rw [List.length_drop]
        omega)]
    unfold group
    rw [List.append_assoc, hinside, hinside]
  have hnone : List.replicate ((4 - 4 % 4) % 4) '=' = [] := rfl
  unfold encode
  simp only [hcount, hfour]
  rw [List.range_add, List.map_append, List.map_congr_left hfirst, List.map_map, hnone,
    List.append_nil, List.append_assoc, Nat.add_mod_left]
  simp only [Function.comp_def, @group_append xs 4 hxs]

/-- The groups of a string of sextets. -/
theorem map_group_sextets (xs : List Nat) (hxs : ∀ x ∈ xs, x < 2 ^ 6) (ys : List Bool) :
    (List.range xs.length).map (fun index =>
      value (((xs.flatMap (bigEndian 6) ++ ys).drop (6 * index)).take 6)) = xs := by
  induction xs with
  | nil => rfl
  | cons x xs ih =>
      have hx : (bigEndian 6 x).length = 6 := Bits.bigEndian_length 6 x
      have hrest := ih fun y hy => hxs y (List.mem_cons_of_mem x hy)
      rw [List.length_cons, List.range_succ_eq_map, List.map_cons, List.map_map, List.flatMap_cons,
        List.append_assoc, Nat.mul_zero, List.drop_zero, List.take_left' hx, Bits.value_bigEndian,
        Nat.mod_eq_of_lt (hxs x List.mem_cons_self)]
      simp only [Function.comp_def, Nat.succ_eq_add_one, Nat.mul_add, Nat.mul_one,
        Nat.add_comm _ 6, ← List.drop_drop, List.drop_left' hx]
      rw [hrest]

/-- The characters of bits that some zeros complete to sextets. -/
theorem encode_sextets {bits : List Bool} {zeros : Nat} (hzeros : zeros ≤ 5) {xs : List Nat}
    (hxs : ∀ x ∈ xs, x < 2 ^ 6)
    (h : bits ++ List.replicate zeros false = xs.flatMap (bigEndian 6)) :
    encode bits = xs.map symbol ++ List.replicate ((4 - xs.length % 4) % 4) '=' := by
  have hcount : groupCount bits.length = xs.length := by
    have hlength := congrArg List.length h
    simp only [List.length_append, List.length_replicate, List.length_flatMap,
      Bits.bigEndian_length, List.map_const', List.sum_replicate, smul_eq_mul] at hlength
    unfold groupCount
    omega
  have hpadded : bits ++ List.replicate 5 false =
      xs.flatMap (bigEndian 6) ++ List.replicate (5 - zeros) false := by
    rw [← h, List.append_assoc, ← List.replicate_add, Nat.add_sub_of_le hzeros]
  have hgroups := map_group_sextets xs hxs (List.replicate (5 - zeros) false)
  unfold encode group
  simp only [hcount, hpadded]
  conv_rhs => rw [← hgroups]
  rw [List.map_map, List.length_map, List.length_range]
  rfl

end Invokrum.Base64
