import Invokrum.Base.Text

/-!
# Bit strings

Numbers and byte strings as strings of bits, the most significant bit first.
-/

namespace Invokrum.Bits

open Text (Bytes)

/-! ## Numbers -/

/-- The lowest `width` bits of a number, most significant bit first. -/
def bigEndian : Nat → Nat → List Bool
  | 0, _ => []
  | width + 1, n => bigEndian width (n / 2) ++ [n % 2 == 1]

/-- The number a bit string denotes, most significant bit first. -/
def value (bits : List Bool) : Nat := bits.foldl (fun n bit => 2 * n + bit.toNat) 0

@[simp] theorem bigEndian_length (width n : Nat) : (bigEndian width n).length = width := by
  induction width generalizing n with
  | zero => rfl
  | succ width ih => simp [bigEndian, ih]

/-- Splitting the digits splits the number. -/
theorem bigEndian_add (high low n : Nat) :
    bigEndian (high + low) n = bigEndian high (n / 2 ^ low) ++ bigEndian low n := by
  induction low generalizing n with
  | zero => simp [bigEndian]
  | succ low ih =>
      have hdiv : n / 2 / 2 ^ low = n / 2 ^ (low + 1) := by
        rw [Nat.div_div_eq_div_mul, pow_succ, Nat.mul_comm]
      rw [← Nat.add_assoc, bigEndian, ih, hdiv, bigEndian, List.append_assoc]

/-- Higher bits do not show. -/
theorem bigEndian_mod (width n : Nat) : bigEndian width (n % 2 ^ width) = bigEndian width n := by
  induction width generalizing n with
  | zero => rfl
  | succ width ih =>
      have hdiv : n % 2 ^ (width + 1) / 2 = n / 2 % 2 ^ width := by
        rw [pow_succ, Nat.mul_comm, Nat.mod_mul_right_div_self]
      have hmod : n % 2 ^ (width + 1) % 2 = n % 2 := by
        rw [pow_succ]
        exact Nat.mod_mul_left_mod n _ 2
      rw [bigEndian, bigEndian, hdiv, hmod, ih]

theorem bigEndian_append {low y : Nat} (hy : y < 2 ^ low) (high x : Nat) :
    bigEndian high x ++ bigEndian low y = bigEndian (high + low) (x * 2 ^ low + y) := by
  have hdiv : (x * 2 ^ low + y) / 2 ^ low = x := by
    rw [Nat.mul_comm, Nat.mul_add_div (Nat.two_pow_pos low), Nat.div_eq_of_lt hy, Nat.add_zero]
  rw [bigEndian_add, hdiv, ← bigEndian_mod low (x * 2 ^ low + y), Nat.mul_comm, Nat.mul_add_mod,
    Nat.mod_eq_of_lt hy]

theorem foldl_bits (bits : List Bool) (start : Nat) :
    bits.foldl (fun n bit => 2 * n + bit.toNat) start = start * 2 ^ bits.length + value bits := by
  unfold value
  induction bits generalizing start with
  | nil => simp
  | cons bit bits ih =>
      rw [List.foldl_cons, List.foldl_cons, ih, ih (2 * 0 + bit.toNat), List.length_cons, pow_succ]
      ring

theorem value_append (xs ys : List Bool) :
    value (xs ++ ys) = value xs * 2 ^ ys.length + value ys := by
  unfold value
  rw [List.foldl_append, foldl_bits]
  rfl

theorem value_bigEndian (width n : Nat) : value (bigEndian width n) = n % 2 ^ width := by
  induction width generalizing n with
  | zero => simp [bigEndian, value, Nat.mod_one]
  | succ width ih =>
      have hbit : value [n % 2 == 1] = n % 2 := by
        have hcases := Nat.mod_two_eq_zero_or_one n
        cases hcases with
        | inl h => simp [value, h]
        | inr h => simp [value, h]
      have hsplit : n % 2 ^ (width + 1) = n % 2 + 2 * (n / 2 % 2 ^ width) := by
        rw [pow_succ, Nat.mul_comm, Nat.mod_mul]
      rw [bigEndian, value_append, ih, hbit, hsplit, List.length_singleton, pow_one]
      omega

/-- Joining two bit ranges that do not overlap. -/
theorem or_shifted {high low width : Nat} (shift : Nat) (hlow : low < 2 ^ width) :
    high * 2 ^ (shift + width) ||| low * 2 ^ shift = (high * 2 ^ width + low) * 2 ^ shift := by
  have hfits : low * 2 ^ shift < 2 ^ (shift + width) := by
    rw [pow_add, Nat.mul_comm]
    exact Nat.mul_lt_mul_of_pos_left hlow (Nat.two_pow_pos shift)
  have hor := Nat.two_pow_add_eq_or_of_lt hfits high
  rw [Nat.mul_comm high, ← hor, pow_add]
  ring

/-! ## Bytes -/

/-- A byte string as a bit string, the most significant bit of a byte first. -/
def ofBytes (input : Bytes) : List Bool := input.flatMap fun byte => bigEndian 8 byte.toNat

theorem ofBytes_cons (byte : UInt8) (input : Bytes) :
    ofBytes (byte :: input) = bigEndian 8 byte.toNat ++ ofBytes input := rfl

theorem ofBytes_append (xs ys : Bytes) : ofBytes (xs ++ ys) = ofBytes xs ++ ofBytes ys :=
  List.flatMap_append

@[simp] theorem ofBytes_length (input : Bytes) : (ofBytes input).length = 8 * input.length := by
  induction input with
  | nil => rfl
  | cons byte input ih =>
      rw [ofBytes_cons, List.length_append, bigEndian_length, ih, List.length_cons]
      omega

theorem ofBytes_zeros (count : Nat) :
    ofBytes (List.replicate count 0) = List.replicate (8 * count) false := by
  induction count with
  | zero => rfl
  | succ count ih =>
      rw [List.replicate_succ, ofBytes_cons, ih, Nat.mul_succ, Nat.add_comm, List.replicate_add]
      rfl

end Invokrum.Bits
