import Invokrum.Base.Bits
import Mathlib.Data.Nat.Nth

/-!
# SHA-256 over bit strings

The definition of the secure hash standard. A word is a vector of 32 bits and a
message a string of bits, which is padded to whole blocks of 512 bits; each
block then updates the hash value. There are no bytes and no buffers here, and
the constants are given by the roots of the primes they come from.
-/

namespace Invokrum.Sha2

open Bits (bigEndian value)

abbrev Word := BitVec 32

/-! ## Functions and constants -/

def rotr (count : Nat) (x : Word) : Word := x >>> count ||| x <<< (32 - count)

def ch (x y z : Word) : Word := (x &&& y) ^^^ (~~~x &&& z)

def maj (x y z : Word) : Word := (x &&& y) ^^^ (x &&& z) ^^^ (y &&& z)

def bigSigma0 (x : Word) : Word := rotr 2 x ^^^ rotr 13 x ^^^ rotr 22 x

def bigSigma1 (x : Word) : Word := rotr 6 x ^^^ rotr 11 x ^^^ rotr 25 x

def smallSigma0 (x : Word) : Word := rotr 7 x ^^^ rotr 18 x ^^^ x >>> 3

def smallSigma1 (x : Word) : Word := rotr 17 x ^^^ rotr 19 x ^^^ x >>> 10

/-- The first 32 bits of the fractional part of a root of `n`: the root of
`n * 2 ^ (32 * degree)` is the root of `n` shifted left by 32 bits. -/
def rootFraction (degree n : Nat) : Word :=
  BitVec.ofNat 32
    (Nat.findGreatest (fun root => root ^ degree ≤ n * 2 ^ (32 * degree)) (n * 2 ^ 32))

theorem rootFraction_eq {degree n root : Nat} (hbound : root ≤ n * 2 ^ 32)
    (hle : root ^ degree ≤ n * 2 ^ (32 * degree))
    (hlt : n * 2 ^ (32 * degree) < (root + 1) ^ degree) :
    rootFraction degree n = BitVec.ofNat 32 root := by
  have hgreatest : Nat.findGreatest (fun root => root ^ degree ≤ n * 2 ^ (32 * degree))
      (n * 2 ^ 32) = root := by
    rw [Nat.findGreatest_eq_iff]
    refine ⟨hbound, fun _ => hle, ?_⟩
    intro other hother _ hroot
    have hmono : (root + 1) ^ degree ≤ other ^ degree := Nat.pow_le_pow_left hother degree
    omega
  unfold rootFraction
  rw [hgreatest]

/-- The prime of an index, counted from zero. -/
noncomputable def prime (index : Nat) : Nat := Nat.nth Nat.Prime index

/-- The constant of a round. -/
noncomputable def roundConstant (t : Nat) : Word := rootFraction 3 (prime t)

/-! ## Padding -/

theorem exists_zeroBits (length : Nat) : ∃ k, (length + 1 + k) % 512 = 448 :=
  ⟨(959 - length % 512) % 512, by omega⟩

/-- The smallest number of zeros that leaves 64 bits of the last block. -/
def zeroBits (length : Nat) : Nat := Nat.find (exists_zeroBits length)

theorem zeroBits_eq {length k : Nat} (hmod : (length + 1 + k) % 512 = 448) (hk : k < 512) :
    zeroBits length = k := by
  unfold zeroBits
  rw [Nat.find_eq_iff]
  refine ⟨hmod, ?_⟩
  intro other hother hfits
  omega

/-- The message, a one, the zeros and the length of the message as 64 bits. -/
def pad (message : List Bool) : List Bool :=
  message ++ true :: (List.replicate (zeroBits message.length) false ++ bigEndian 64 message.length)

/-! ## Compression -/

/-- The words `M_0 … M_15` of a block. -/
def blockWord (block : List Bool) (j : Nat) : Word :=
  BitVec.ofNat 32 (value ((block.drop (32 * j)).take 32))

/-- The words `W_0 … W_63` of the message schedule. -/
def schedule (m : Nat → Word) (t : Nat) : Word :=
  if t < 16 then m t
  else smallSigma1 (schedule m (t - 2)) + schedule m (t - 7) + smallSigma0 (schedule m (t - 15)) +
    schedule m (t - 16)
termination_by t

theorem schedule_of_lt (m : Nat → Word) {t : Nat} (h : t < 16) : schedule m t = m t := by
  rw [schedule, if_pos h]

theorem schedule_of_le (m : Nat → Word) {t : Nat} (h : 16 ≤ t) :
    schedule m t = smallSigma1 (schedule m (t - 2)) + schedule m (t - 7) +
      smallSigma0 (schedule m (t - 15)) + schedule m (t - 16) := by
  rw [schedule, if_neg (by omega)]

/-- The hash value between blocks, and the working variables within one. -/
structure Registers where
  (a b c d e f g h : Word)

/-- The initial hash value. -/
noncomputable def initial : Registers :=
  ⟨rootFraction 2 (prime 0), rootFraction 2 (prime 1), rootFraction 2 (prime 2),
    rootFraction 2 (prime 3), rootFraction 2 (prime 4), rootFraction 2 (prime 5),
    rootFraction 2 (prime 6), rootFraction 2 (prime 7)⟩

def round (r : Registers) (k w : Word) : Registers :=
  let t1 := r.h + bigSigma1 r.e + ch r.e r.f r.g + k + w
  let t2 := bigSigma0 r.a + maj r.a r.b r.c
  ⟨t1 + t2, r.a, r.b, r.c, r.d + t1, r.e, r.f, r.g⟩

/-- The hash value after one more block. -/
noncomputable def compress (hash : Registers) (block : List Bool) : Registers :=
  let r := (List.range 64).foldl
    (fun r t => round r (roundConstant t) (schedule (blockWord block) t)) hash
  ⟨r.a + hash.a, r.b + hash.b, r.c + hash.c, r.d + hash.d,
    r.e + hash.e, r.f + hash.f, r.g + hash.g, r.h + hash.h⟩

/-- The hash value after the blocks of a padded message. -/
noncomputable def iterate (hash : Registers) (padded : List Bool) : Registers :=
  (List.range (padded.length / 512)).foldl
    (fun hash i => compress hash ((padded.drop (512 * i)).take 512)) hash

noncomputable def digest (message : List Bool) : List Bool :=
  let hash := iterate initial (pad message)
  [hash.a, hash.b, hash.c, hash.d, hash.e, hash.f, hash.g, hash.h].flatMap
    fun word => bigEndian 32 word.toNat

/-- The first block first. -/
theorem iterate_block (hash : Registers) {block : List Bool} (hblock : block.length = 512)
    (rest : List Bool) : iterate hash (block ++ rest) = iterate (compress hash block) rest := by
  have hcount : (block ++ rest).length / 512 = rest.length / 512 + 1 := by
    rw [List.length_append, hblock]
    omega
  have hfirst : ((block ++ rest).drop (512 * 0)).take 512 = block := by
    rw [Nat.mul_zero, List.drop_zero, ← hblock, List.take_left]
  have hnext : ∀ i, (block ++ rest).drop (512 * (i + 1)) = rest.drop (512 * i) := by
    intro i
    rw [Nat.mul_add, Nat.mul_one, Nat.add_comm, ← List.drop_drop]
    congr 1
    rw [← hblock, List.drop_left]
  unfold iterate
  rw [hcount, List.range_succ_eq_map, List.foldl_cons, hfirst, List.foldl_map]
  simp only [Nat.succ_eq_add_one, hnext]

theorem iterate_append (hash : Registers) (count : Nat) {xs : List Bool}
    (hxs : xs.length = 512 * count) (ys : List Bool) :
    iterate hash (xs ++ ys) = iterate (iterate hash xs) ys := by
  induction count generalizing hash xs with
  | zero =>
      rw [List.length_eq_zero_iff.mp hxs]
      rfl
  | succ count ih =>
      have hblock : (xs.take 512).length = 512 := by
        rw [List.length_take]
        omega
      have hrest : (xs.drop 512).length = 512 * count := by
        rw [List.length_drop]
        omega
      rw [← List.take_append_drop 512 xs, List.append_assoc, iterate_block _ hblock, ih _ hrest,
        iterate_block _ hblock]

end Invokrum.Sha2
