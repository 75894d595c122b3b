import Invokrum.Base.Json

/-!
# SHA-256 and lowercase hexadecimal

The digest is computed on byte lists with wrapping 32-bit words. Only its shape
is proved here: 32 bytes, hence 64 lowercase hexadecimal digits.
-/

namespace Invokrum.Digest

open Text (Bytes)

def sha256Algorithm : String := "sha256"

/-! ## Words -/

/-- The eight words of the chaining state and of a round. -/
structure State where
  (a b c d e f g h : UInt32)

def initialState : State :=
  ⟨0x6a09e667, 0xbb67ae85, 0x3c6ef372, 0xa54ff53a, 0x510e527f, 0x9b05688c, 0x1f83d9ab, 0x5be0cd19⟩

def roundConstants : List UInt32 := [
  0x428a2f98, 0x71374491, 0xb5c0fbcf, 0xe9b5dba5, 0x3956c25b, 0x59f111f1, 0x923f82a4, 0xab1c5ed5,
  0xd807aa98, 0x12835b01, 0x243185be, 0x550c7dc3, 0x72be5d74, 0x80deb1fe, 0x9bdc06a7, 0xc19bf174,
  0xe49b69c1, 0xefbe4786, 0x0fc19dc6, 0x240ca1cc, 0x2de92c6f, 0x4a7484aa, 0x5cb0a9dc, 0x76f988da,
  0x983e5152, 0xa831c66d, 0xb00327c8, 0xbf597fc7, 0xc6e00bf3, 0xd5a79147, 0x06ca6351, 0x14292967,
  0x27b70a85, 0x2e1b2138, 0x4d2c6dfc, 0x53380d13, 0x650a7354, 0x766a0abb, 0x81c2c92e, 0x92722c85,
  0xa2bfe8a1, 0xa81a664b, 0xc24b8b70, 0xc76c51a3, 0xd192e819, 0xd6990624, 0xf40e3585, 0x106aa070,
  0x19a4c116, 0x1e376c08, 0x2748774c, 0x34b0bcb5, 0x391c0cb3, 0x4ed8aa4a, 0x5b9cca4f, 0x682e6ff3,
  0x748f82ee, 0x78a5636f, 0x84c87814, 0x8cc70208, 0x90befffa, 0xa4506ceb, 0xbef9a3f7, 0xc67178f2]

/-- `word.rotate_right(count)`, for `0 < count < 32`. -/
def rotateRight (word count : UInt32) : UInt32 := word >>> count ||| word <<< (32 - count)

/-- `u32::from_be_bytes`. -/
def fromBeBytes (b0 b1 b2 b3 : UInt8) : UInt32 :=
  b0.toUInt32 <<< 24 ||| b1.toUInt32 <<< 16 ||| b2.toUInt32 <<< 8 ||| b3.toUInt32

/-- `word.to_be_bytes()`. -/
def toBeBytes (word : UInt32) : Bytes :=
  [(word >>> 24).toUInt8, (word >>> 16).toUInt8, (word >>> 8).toUInt8, word.toUInt8]

/-- `length.to_be_bytes()` of a 64-bit length. -/
def lengthToBeBytes (length : UInt64) : Bytes :=
  toBeBytes (length >>> 32).toUInt32 ++ toBeBytes length.toUInt32

/-! ## Blocks -/

/-- The big-endian words of a block. -/
def blockWords : Bytes → List UInt32
  | b0 :: b1 :: b2 :: b3 :: rest => fromBeBytes b0 b1 b2 b3 :: blockWords rest
  | _ => []

/-- One more word of the message schedule, computed from the sixteen before it. -/
def extendSchedule (schedule : List UInt32) (index : Nat) : List UInt32 :=
  let w15 := schedule.getD (index - 15) 0
  let w2 := schedule.getD (index - 2) 0
  let sigma0 := rotateRight w15 7 ^^^ rotateRight w15 18 ^^^ w15 >>> 3
  let sigma1 := rotateRight w2 17 ^^^ rotateRight w2 19 ^^^ w2 >>> 10
  schedule ++ [schedule.getD (index - 16) 0 + sigma0 + schedule.getD (index - 7) 0 + sigma1]

def messageSchedule (block : Bytes) : List UInt32 :=
  (List.range' 16 48).foldl extendSchedule (blockWords block)

/-- One round on its constant and schedule word. -/
def round (w : State) (input : UInt32 × UInt32) : State :=
  let sum1 := rotateRight w.e 6 ^^^ rotateRight w.e 11 ^^^ rotateRight w.e 25
  let choose := (w.e &&& w.f) ^^^ (~~~ w.e &&& w.g)
  let temporary1 := w.h + sum1 + choose + input.1 + input.2
  let sum0 := rotateRight w.a 2 ^^^ rotateRight w.a 13 ^^^ rotateRight w.a 22
  let majority := (w.a &&& w.b) ^^^ (w.a &&& w.c) ^^^ (w.b &&& w.c)
  let temporary2 := sum0 + majority
  ⟨temporary1 + temporary2, w.a, w.b, w.c, w.d + temporary1, w.e, w.f, w.g⟩

def processBlock (state : State) (block : Bytes) : State :=
  let w := (roundConstants.zip (messageSchedule block)).foldl round state
  ⟨state.a + w.a, state.b + w.b, state.c + w.c, state.d + w.d,
    state.e + w.e, state.f + w.f, state.g + w.g, state.h + w.h⟩

/-- The first `count` blocks of 64 bytes, absorbed in order. -/
def processBlocks : Nat → State → Bytes → State
  | 0, state, _ => state
  | count + 1, state, input =>
      processBlocks count (processBlock state (input.take 64)) (input.drop 64)

/-! ## Digest -/

/-- The remainder, the end marker, zeros and the bit length: one or two blocks. -/
def padding (remainder : Bytes) (length : Nat) : Bytes :=
  let paddedLength := if remainder.length < 56 then 64 else 128
  remainder ++ 0x80 :: (List.replicate (paddedLength - remainder.length - 9) 0
    ++ lengthToBeBytes (UInt64.ofNat length * 8))

def sha256 (input : Bytes) : Bytes :=
  let chunks := input.length / 64
  let remainder := input.drop (64 * chunks)
  let state := processBlocks chunks initialState input
  let blocks := if remainder.length < 56 then 1 else 2
  let w := processBlocks blocks state (padding remainder input.length)
  [w.a, w.b, w.c, w.d, w.e, w.f, w.g, w.h].flatMap toBeBytes

@[simp] theorem sha256_length (input : Bytes) : (sha256 input).length = 32 := rfl

/-! ## Hexadecimal -/

def lowerHex (bytes : Bytes) : String :=
  String.ofList (bytes.flatMap fun (byte : UInt8) =>
    [Nat.digitChar (byte >>> 4).toNat, Nat.digitChar (byte &&& 0x0f).toNat])

def sha256LowerHex (input : Bytes) : String := lowerHex (sha256 input)

/-- The ASCII byte of a hexadecimal digit. -/
theorem utf8EncodeChar_digitChar {n : Nat} (h : n < 16) :
    ∃ byte, String.utf8EncodeChar (Nat.digitChar n) = [byte] ∧ Text.isLowerHexDigit byte = true := by
  have hall : ∀ m < 16, ∃ byte, String.utf8EncodeChar (Nat.digitChar m) = [byte] ∧
      Text.isLowerHexDigit byte = true := by
    intro m hm
    interval_cases m <;> exact ⟨_, rfl, by decide⟩
  exact hall n h

theorem highNibble_lt (byte : UInt8) : (byte >>> 4).toNat < 16 := by
  have := byte.toNat_lt
  rw [UInt8.toNat_shiftRight, Nat.shiftRight_eq_div_pow]
  simp only [UInt8.reduceToNat, Nat.reduceMod, Nat.reducePow]
  omega

theorem lowNibble_lt (byte : UInt8) : (byte &&& 0x0f).toNat < 16 := by
  rw [UInt8.toNat_and]
  exact lt_of_le_of_lt Nat.and_le_right (by decide)

/-- Hexadecimal text has two digits a byte, all of them lowercase. -/
theorem lowerHex_bytes (bytes : Bytes) :
    (Text.bytes (lowerHex bytes)).length = 2 * bytes.length ∧
      (Text.bytes (lowerHex bytes)).all Text.isLowerHexDigit = true := by
  induction bytes with
  | nil => exact ⟨rfl, rfl⟩
  | cons byte bytes ih =>
      obtain ⟨high, hhigh, hhex⟩ := utf8EncodeChar_digitChar (highNibble_lt byte)
      obtain ⟨low, hlow, hlex⟩ := utf8EncodeChar_digitChar (lowNibble_lt byte)
      simp only [Text.bytes, lowerHex, String.toList_ofList, Text.utf8] at ih
      simp only [Text.bytes, lowerHex, String.toList_ofList, Text.utf8, List.flatMap_cons,
        List.cons_append, List.nil_append, hhigh, hlow, List.length_cons, List.all_cons, hhex,
        hlex, Bool.true_and, ih.1, ih.2]
      exact ⟨by omega, trivial⟩

theorem digitChar_injective {m n : Nat} (hm : m < 16) (hn : n < 16)
    (h : Nat.digitChar m = Nat.digitChar n) : m = n := by
  have hall : ∀ i < 16, ∀ j < 16, Nat.digitChar i = Nat.digitChar j → i = j := by decide
  exact hall m hm n hn h

/-- The two nibbles determine a byte. -/
theorem eq_of_nibbles {x y : UInt8} (hhigh : (x >>> 4).toNat = (y >>> 4).toNat)
    (hlow : (x &&& 0x0f).toNat = (y &&& 0x0f).toNat) : x = y := by
  rw [UInt8.toNat_shiftRight, UInt8.toNat_shiftRight, Nat.shiftRight_eq_div_pow,
    Nat.shiftRight_eq_div_pow] at hhigh
  rw [UInt8.toNat_and, UInt8.toNat_and] at hlow
  have hmask : ∀ n : Nat, n &&& 15 = n % 16 := fun n => Nat.and_two_pow_sub_one_eq_mod n 4
  simp only [UInt8.reduceToNat, Nat.reduceMod, Nat.reducePow, hmask] at hhigh hlow
  exact UInt8.toNat_inj.mp (by omega)

/-- Hexadecimal text determines the bytes. -/
theorem lowerHex_injective {xs ys : Bytes} (h : lowerHex xs = lowerHex ys) : xs = ys := by
  have hchars := String.ofList_injective h
  clear h
  induction xs generalizing ys with
  | nil => cases ys with
    | nil => rfl
    | cons y ys => simp at hchars
  | cons x xs ih => cases ys with
    | nil => simp at hchars
    | cons y ys =>
        simp only [List.flatMap_cons, List.cons_append, List.nil_append, List.cons.injEq] at hchars
        obtain ⟨hhigh, hlow, hrest⟩ := hchars
        rw [eq_of_nibbles (digitChar_injective (highNibble_lt x) (highNibble_lt y) hhigh)
          (digitChar_injective (lowNibble_lt x) (lowNibble_lt y) hlow), ih hrest]

/-- Exactly 64 lowercase hexadecimal digits. -/
def validSha256 (value : String) : Bool :=
  Text.byteLength value == 64 && (Text.bytes value).all Text.isLowerHexDigit

theorem lowerHex_valid {bytes : Bytes} (h : bytes.length = 32) :
    validSha256 (lowerHex bytes) = true := by
  obtain ⟨hlength, hhex⟩ := lowerHex_bytes bytes
  simp [validSha256, Text.byteLength, hlength, hhex, h]

theorem sha256LowerHex_valid (input : Bytes) : validSha256 (sha256LowerHex input) = true :=
  lowerHex_valid (sha256_length input)

/-- No hexadecimal digit is escaped in JSON. -/
theorem quoted_lowerHex_length (bytes : Bytes) :
    (Text.utf8 (Json.quoted (lowerHex bytes))).length = 2 * bytes.length + 2 := by
  have hdigit : ∀ n < 16, Json.escapeChar (Nat.digitChar n) = [Nat.digitChar n] ∧
      (String.utf8EncodeChar (Nat.digitChar n)).length = 1 := by decide
  have hquote : (String.utf8EncodeChar '"').length = 1 := by decide
  have hbody : (Text.utf8 (Json.escape (lowerHex bytes).toList)).length = 2 * bytes.length := by
    simp only [lowerHex, String.toList_ofList, Json.escape]
    induction bytes with
    | nil => rfl
    | cons byte bytes ih =>
        obtain ⟨hhigh, hhighLength⟩ := hdigit _ (highNibble_lt byte)
        obtain ⟨hlow, hlowLength⟩ := hdigit _ (lowNibble_lt byte)
        simp only [List.flatMap_cons, List.flatMap_append, List.flatMap_nil, hhigh, hlow,
          Text.utf8_append, Text.utf8_cons, Text.utf8_nil, List.length_append, hhighLength,
          hlowLength, ih, List.length_cons, List.append_nil]
        omega
  simp only [Json.quoted, Text.utf8_cons, Text.utf8_append, Text.utf8_nil, List.length_append,
    hbody, hquote, List.append_nil]
  omega

example : sha256LowerHex (Text.bytes "abc") =
    "ba7816bf8f01cfea414140de5dae2223b00361a396177a9cb410ff61f20015ad" := by decide +kernel

end Invokrum.Digest
