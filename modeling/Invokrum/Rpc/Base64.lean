import Invokrum.Base.Base64
import Invokrum.Base.Outcome

/-!
# Base64 of lock bytes

The encoder of the resolve response and the decoder of the verify request. The
encoder is the canonical encoding of the bits, and the decoder inverts it and
accepts nothing else.
-/

namespace Invokrum.Rpc

open Bits (ofBytes)
open Outcome
open Text (Bytes)

/-! ## Encoding -/

def base64Alphabet : Bytes :=
  Text.bytes "ABCDEFGHIJKLMNOPQRSTUVWXYZabcdefghijklmnopqrstuvwxyz0123456789+/"

def alphabetByte (index : UInt8) : UInt8 := base64Alphabet.getD index.toNat 0

/-- `char::from(BASE64_ALPHABET[usize::from(index)])`. -/
def alphabetChar (index : UInt8) : Char := Char.ofNat (alphabetByte index).toNat

/-- The four characters of one to three bytes. -/
def encodeBase64Chunk (chunk : Bytes) : List Char :=
  let first := chunk.getD 0 0
  let second := chunk.getD 1 0
  let third := chunk.getD 2 0
  [alphabetChar (first >>> 2),
    alphabetChar ((first &&& 0x03) <<< 4 ||| second >>> 4),
    if chunk.length > 1 then alphabetChar ((second &&& 0x0f) <<< 2 ||| third >>> 6) else '=',
    if chunk.length > 2 then alphabetChar (third &&& 0x3f) else '=']

/-- `bytes.chunks(3)`: only the last chunk may be shorter. -/
def encodeBase64Chunks : Bytes → List Char
  | first :: second :: third :: rest =>
      encodeBase64Chunk [first, second, third] ++ encodeBase64Chunks rest
  | [] => []
  | chunk => encodeBase64Chunk chunk

section

-- Makes the equations here, once, before the proofs that ask for them.
attribute [local simp] encodeBase64Chunks

end

def encodeBase64 (bytes : Bytes) : String := String.ofList (encodeBase64Chunks bytes)

/-! ## Decoding -/

def decodeBase64Character (value : UInt8) : Except String UInt8 :=
  if 65 ≤ value ∧ value ≤ 90 then .ok (value - 65)
  else if 97 ≤ value ∧ value ≤ 122 then .ok (value - 97 + 26)
  else if 48 ≤ value ∧ value ≤ 57 then .ok (value - 48 + 52)
  else if value = 43 then .ok 62
  else if value = 47 then .ok 63
  else .error "expected_lock_base64 contains an invalid character"

/-- The number of `=` a chunk ends with. -/
def chunkPadding (c2 c3 : UInt8) : Except String Nat :=
  if c2 = 61 ∧ c3 = 61 then .ok 2
  else if c3 = 61 then .ok 1
  else if c2 = 61 then .error "expected_lock_base64 has invalid padding"
  else .ok 0

/-- The one to three bytes of four characters. -/
def decodeBase64Chunk (last : Bool) (c0 c1 c2 c3 : UInt8) : Except String Bytes := do
  let padding ← chunkPadding c2 c3
  rejectIf (padding > 0 ∧ last = false) "expected_lock_base64 padding must appear only at the end"
  let first ← decodeBase64Character c0
  let second ← decodeBase64Character c1
  let third ← if padding = 2 then .ok 0 else decodeBase64Character c2
  let fourth ← if padding > 0 then .ok 0 else decodeBase64Character c3
  rejectIf (padding = 2 ∧ second &&& 0x0f ≠ 0) "expected_lock_base64 has noncanonical trailing bits"
  rejectIf (padding = 1 ∧ third &&& 0x03 ≠ 0) "expected_lock_base64 has noncanonical trailing bits"
  .ok ((first <<< 2 ||| second >>> 4) ::
    ((if padding < 2 then [second <<< 4 ||| third >>> 2] else []) ++
      (if padding = 0 then [third <<< 6 ||| fourth] else [])))

/-- `bytes.chunks_exact(4)`: a chunk is the last one when nothing follows it. -/
def decodeBase64Chunks : Bytes → Except String Bytes
  | c0 :: c1 :: c2 :: c3 :: rest => do
      let decoded ← decodeBase64Chunk rest.isEmpty c0 c1 c2 c3
      let others ← decodeBase64Chunks rest
      .ok (decoded ++ others)
  | _ => .ok []

def decodeBase64 (value : String) : Except String Bytes := do
  let bytes := Text.bytes value
  rejectIf (bytes.length % 4 ≠ 0) "expected_lock_base64 length is not a multiple of four"
  decodeBase64Chunks bytes

/-! ## Characters -/

theorem alphabetChar_eq : ∀ index : UInt8, index.toNat < 64 →
    alphabetChar index = Base64.symbol index.toNat := by
  decide +kernel

theorem utf8_alphabetChar : ∀ index : UInt8, index.toNat < 64 →
    String.utf8EncodeChar (alphabetChar index) = [alphabetByte index] := by
  decide +kernel

theorem alphabetByte_ne_padding : ∀ index : UInt8, index.toNat < 64 →
    alphabetByte index ≠ 61 := by
  decide +kernel

/-- A character is decoded to its index in the alphabet. -/
theorem decodeBase64Character_eq_ok {value index : UInt8} :
    decodeBase64Character value = .ok index ↔ index.toNat < 64 ∧ alphabetByte index = value := by
  have hindex : ∀ index : UInt8, index.toNat < 64 →
      decodeBase64Character (alphabetByte index) = .ok index := by
    decide +kernel
  have hvalue : ∀ value : UInt8, decodeBase64Character value =
      .error "expected_lock_base64 contains an invalid character" ∨ ∃ index : UInt8,
        decodeBase64Character value = .ok index ∧ index.toNat < 64 ∧ alphabetByte index = value := by
    decide +kernel
  constructor
  · intro h
    cases hvalue value with
    | inl herror => simp [herror] at h
    | inr hok =>
        obtain ⟨other, hother, hlt, hbyte⟩ := hok
        rw [hother, Except.ok.injEq] at h
        rw [← h]
        exact ⟨hlt, hbyte⟩
  · intro h
    rw [← h.2]
    exact hindex index h.1

/-! ## Shifts -/

theorem shiftRight_toNat (byte : UInt8) {count : Nat} (h : count < 8) :
    (byte >>> UInt8.ofNat count).toNat = byte.toNat / 2 ^ count := by
  rw [UInt8.toNat_shiftRight, UInt8.toNat_ofNat', Nat.shiftRight_eq_div_pow]
  congr 2
  omega

theorem mask_toNat (byte : UInt8) {count : Nat} (h : count < 8) :
    (byte &&& UInt8.ofNat (2 ^ count - 1)).toNat = byte.toNat % 2 ^ count := by
  have hpow : 2 ^ count < 2 ^ 8 := Nat.pow_lt_pow_right (by decide) h
  rw [UInt8.toNat_and, UInt8.toNat_ofNat', Nat.mod_eq_of_lt (by omega),
    Nat.and_two_pow_sub_one_eq_mod]

/-- The low bits of one byte above the bits of another. -/
theorem joined_toNat {high low : UInt8} {count : Nat} (h : count < 8) (hlow : low.toNat < 2 ^ count) :
    (high <<< UInt8.ofNat count ||| low).toNat =
      high.toNat % 2 ^ (8 - count) * 2 ^ count + low.toNat := by
  have hpow : 2 ^ 8 = 2 ^ (8 - count) * 2 ^ count := by
    rw [← pow_add]
    congr 1
    omega
  have hshift : (high <<< UInt8.ofNat count).toNat = high.toNat % 2 ^ (8 - count) * 2 ^ count := by
    rw [UInt8.toNat_shiftLeft, UInt8.toNat_ofNat', Nat.shiftLeft_eq,
      Nat.mod_eq_of_lt (by omega : count < 2 ^ 8), Nat.mod_eq_of_lt h, hpow, Nat.mul_mod_mul_right]
  have hor := @Bits.or_shifted (high.toNat % 2 ^ (8 - count)) _ _ 0 hlow
  rw [Nat.zero_add, pow_zero, Nat.mul_one, Nat.mul_one] at hor
  rw [UInt8.toNat_or, hshift, hor]

section Sextets

variable (a b c : UInt8)

theorem sextet1_toNat : (a >>> 2).toNat = a.toNat / 4 := shiftRight_toNat a (by decide)

theorem sextet2_toNat :
    ((a &&& 0x03) <<< 4 ||| b >>> 4).toNat = a.toNat % 4 * 16 + b.toNat / 16 := by
  have ha : (a &&& 0x03).toNat = a.toNat % 4 := @mask_toNat a 2 (by decide)
  have hb : (b >>> 4).toNat = b.toNat / 16 := shiftRight_toNat b (by decide)
  have hlt := b.toNat_lt
  have hjoined : ((a &&& 0x03) <<< 4 ||| b >>> 4).toNat = (a &&& 0x03).toNat % 16 * 16 + (b >>> 4).toNat :=
    @joined_toNat _ _ 4 (by decide) (by omega)
  omega

theorem sextet3_toNat :
    ((b &&& 0x0f) <<< 2 ||| c >>> 6).toNat = b.toNat % 16 * 4 + c.toNat / 64 := by
  have hb : (b &&& 0x0f).toNat = b.toNat % 16 := @mask_toNat b 4 (by decide)
  have hc : (c >>> 6).toNat = c.toNat / 64 := shiftRight_toNat c (by decide)
  have hlt := c.toNat_lt
  have hjoined : ((b &&& 0x0f) <<< 2 ||| c >>> 6).toNat = (b &&& 0x0f).toNat % 64 * 4 + (c >>> 6).toNat :=
    @joined_toNat _ _ 2 (by decide) (by omega)
  omega

theorem sextet4_toNat : (c &&& 0x3f).toNat = c.toNat % 64 := @mask_toNat c 6 (by decide)

end Sextets

section Octets

variable {x y z w : UInt8}

theorem octet1_toNat (hx : x.toNat < 64) (hy : y.toNat < 64) :
    (x <<< 2 ||| y >>> 4).toNat = x.toNat * 4 + y.toNat / 16 := by
  have hshift : (y >>> 4).toNat = y.toNat / 16 := shiftRight_toNat y (by decide)
  have hjoined : (x <<< 2 ||| y >>> 4).toNat = x.toNat % 64 * 4 + (y >>> 4).toNat :=
    @joined_toNat _ _ 2 (by decide) (by omega)
  omega

theorem octet2_toNat (hz : z.toNat < 64) :
    (y <<< 4 ||| z >>> 2).toNat = y.toNat % 16 * 16 + z.toNat / 4 := by
  have hshift : (z >>> 2).toNat = z.toNat / 4 := shiftRight_toNat z (by decide)
  have hjoined : (y <<< 4 ||| z >>> 2).toNat = y.toNat % 16 * 16 + (z >>> 2).toNat :=
    @joined_toNat _ _ 4 (by decide) (by omega)
  omega

theorem octet3_toNat (hw : w.toNat < 64) :
    (z <<< 6 ||| w).toNat = z.toNat % 4 * 64 + w.toNat :=
  @joined_toNat _ _ 6 (by decide) (by omega)

end Octets

/-- Three bytes put together from four sextets are cut into these again. -/
theorem sextets_of_octets {x y z w p q r : UInt8} (hy : y.toNat < 64)
    (hz : z.toNat < 64) (hw : w.toNat < 64) (hp : p.toNat = x.toNat * 4 + y.toNat / 16)
    (hq : q.toNat = y.toNat % 16 * 16 + z.toNat / 4) (hr : r.toNat = z.toNat % 4 * 64 + w.toNat) :
    p >>> 2 = x ∧ (p &&& 0x03) <<< 4 ||| q >>> 4 = y ∧ (q &&& 0x0f) <<< 2 ||| r >>> 6 = z ∧
      r &&& 0x3f = w := by
  have h1 := sextet1_toNat p
  have h2 := sextet2_toNat p q
  have h3 := sextet3_toNat q r
  have h4 := sextet4_toNat r
  refine ⟨?_, ?_, ?_, ?_⟩ <;> apply UInt8.toNat_inj.mp <;> omega

/-- The sextets of three bytes put them together again. -/
theorem octets_of_sextets {x y z w p q r : UInt8} (hx : p >>> 2 = x)
    (hy : (p &&& 0x03) <<< 4 ||| q >>> 4 = y) (hz : (q &&& 0x0f) <<< 2 ||| r >>> 6 = z)
    (hw : r &&& 0x3f = w) :
    x.toNat < 64 ∧ y.toNat < 64 ∧ z.toNat < 64 ∧ w.toNat < 64 ∧
      x <<< 2 ||| y >>> 4 = p ∧ y <<< 4 ||| z >>> 2 = q ∧ z <<< 6 ||| w = r := by
  have h1 := sextet1_toNat p
  have h2 := sextet2_toNat p q
  have h3 := sextet3_toNat q r
  have h4 := sextet4_toNat r
  have hp := p.toNat_lt
  have hq := q.toNat_lt
  have hr := r.toNat_lt
  rw [hx] at h1
  rw [hy] at h2
  rw [hz] at h3
  rw [hw] at h4
  have hp' := @octet1_toNat x y (by omega) (by omega)
  have hq' := @octet2_toNat y z (by omega)
  have hr' := @octet3_toNat z w (by omega)
  refine ⟨by omega, by omega, by omega, by omega, ?_, ?_, ?_⟩ <;> apply UInt8.toNat_inj.mp <;> omega

/-! ## Chunks -/

theorem utf8_encodeBase64Chunk (chunk : Bytes) :
    Text.utf8 (encodeBase64Chunk chunk) = [
      alphabetByte (chunk.getD 0 0 >>> 2),
      alphabetByte ((chunk.getD 0 0 &&& 0x03) <<< 4 ||| chunk.getD 1 0 >>> 4),
      if chunk.length > 1 then
        alphabetByte ((chunk.getD 1 0 &&& 0x0f) <<< 2 ||| chunk.getD 2 0 >>> 6) else 61,
      if chunk.length > 2 then alphabetByte (chunk.getD 2 0 &&& 0x3f) else 61] := by
  have h0 := (chunk.getD 0 0).toNat_lt
  have h1 := (chunk.getD 1 0).toNat_lt
  have h2 := (chunk.getD 2 0).toNat_lt
  have hpadding : String.utf8EncodeChar '=' = [61] := by decide
  have hsextet1 := sextet1_toNat (chunk.getD 0 0)
  have hsextet2 := sextet2_toNat (chunk.getD 0 0) (chunk.getD 1 0)
  have hsextet3 := sextet3_toNat (chunk.getD 1 0) (chunk.getD 2 0)
  have hsextet4 := sextet4_toNat (chunk.getD 2 0)
  unfold encodeBase64Chunk
  rw [Text.utf8_cons, Text.utf8_cons, Text.utf8_cons, Text.utf8_cons, Text.utf8_nil,
    utf8_alphabetChar _ (by omega), utf8_alphabetChar _ (by omega), apply_ite String.utf8EncodeChar,
    apply_ite String.utf8EncodeChar, utf8_alphabetChar _ (by omega), utf8_alphabetChar _ (by omega),
    hpadding]
  split <;> split <;> rfl

/-- What a chunk is decoded to, by its padding. -/
theorem decodeBase64Chunk_eq_ok {last : Bool} {c0 c1 c2 c3 : UInt8} {block : Bytes} :
    decodeBase64Chunk last c0 c1 c2 c3 = .ok block ↔
      ∃ x y, decodeBase64Character c0 = .ok x ∧ decodeBase64Character c1 = .ok y ∧
        ((c2 = 61 ∧ c3 = 61 ∧ last = true ∧ y &&& 0x0f = 0 ∧ [x <<< 2 ||| y >>> 4] = block) ∨
        (c2 ≠ 61 ∧ c3 = 61 ∧ last = true ∧ ∃ z, decodeBase64Character c2 = .ok z ∧
          z &&& 0x03 = 0 ∧ [x <<< 2 ||| y >>> 4, y <<< 4 ||| z >>> 2] = block) ∨
        (c2 ≠ 61 ∧ c3 ≠ 61 ∧ ∃ z w, decodeBase64Character c2 = .ok z ∧
          decodeBase64Character c3 = .ok w ∧
          [x <<< 2 ||| y >>> 4, y <<< 4 ||| z >>> 2, z <<< 6 ||| w] = block)) := by
  unfold decodeBase64Chunk chunkPadding
  by_cases h3 : c3 = 61
  · by_cases h2 : c2 = 61
    · simp [h2, h3]
      grind
    · simp [h2, h3]
      grind
  · by_cases h2 : c2 = 61
    · simp [h2, h3]
    · simp [h2, h3]

/-- A chunk of characters is accepted exactly when it is the encoding of what
it is decoded to, and padded only at the end. -/
theorem decodeBase64Chunk_iff {last : Bool} {c0 c1 c2 c3 : UInt8} {block : Bytes} :
    decodeBase64Chunk last c0 c1 c2 c3 = .ok block ↔
      (block.length = 3 ∨ last = true ∧ (block.length = 1 ∨ block.length = 2)) ∧
        Text.utf8 (encodeBase64Chunk block) = [c0, c1, c2, c3] := by
  rw [decodeBase64Chunk_eq_ok, utf8_encodeBase64Chunk]
  simp only [decodeBase64Character_eq_ok]
  constructor
  · intro h
    obtain ⟨x, y, hx, hy, h⟩ := h
    have hfirst := octet1_toNat hx.1 hy.1
    rcases h with h | h | h
    · obtain ⟨h2, h3, hlast, htrailing, hblock⟩ := h
      have hlow : (y &&& 0x0f).toNat = y.toNat % 16 := @mask_toNat y 4 (by decide)
      rw [htrailing, UInt8.toNat_zero] at hlow
      have hsextets := @sextets_of_octets x y 0 0 _ 0 0 hy.1 (by decide) (by decide) hfirst
        (by rw [← hlow]; rfl) rfl
      simp only [UInt8.zero_shiftRight, UInt8.or_zero] at hsextets
      subst hblock
      simp [hsextets.1, hsextets.2.1, hx.2, hy.2, h2, h3, hlast]
    · obtain ⟨h2, h3, hlast, z, hz, htrailing, hblock⟩ := h
      have hlow : (z &&& 0x03).toNat = z.toNat % 4 := @mask_toNat z 2 (by decide)
      rw [htrailing, UInt8.toNat_zero] at hlow
      have hsextets := @sextets_of_octets x y z 0 _ _ 0 hy.1 hz.1 (by decide) hfirst
        (octet2_toNat hz.1) (by rw [← hlow]; rfl)
      simp only [UInt8.zero_shiftRight, UInt8.or_zero] at hsextets
      subst hblock
      simp [hsextets.1, hsextets.2.1, hsextets.2.2.1, hx.2, hy.2, hz.2, h3, hlast]
    · obtain ⟨h2, h3, z, w, hz, hw, hblock⟩ := h
      have hsextets := sextets_of_octets hy.1 hz.1 hw.1 hfirst
        (octet2_toNat hz.1) (octet3_toNat hw.1)
      subst hblock
      simp [hsextets.1, hsextets.2.1, hsextets.2.2.1, hsextets.2.2.2, hx.2, hy.2, hz.2, hw.2]
  · intro h
    obtain ⟨hlength, hchars⟩ := h
    simp only [List.cons.injEq, and_true] at hchars
    obtain ⟨h0, h1, h2, h3⟩ := hchars
    obtain ⟨hx, hy, hz, hw, hp, hq, hr⟩ := @octets_of_sextets _ _ _ _ (block.getD 0 0)
      (block.getD 1 0) (block.getD 2 0) rfl rfl rfl rfl
    refine ⟨_, _, ⟨hx, h0⟩, ⟨hy, h1⟩, ?_⟩
    rcases hlength with hthree | ⟨hlast, hone | htwo⟩
    · obtain ⟨p, q, r, rfl⟩ := List.length_eq_three.mp hthree
      rw [if_pos (by simp)] at h2 h3
      apply Or.inr
      apply Or.inr
      refine ⟨?_, ?_, _, _, ⟨hz, h2⟩, ⟨hw, h3⟩, by rw [hp, hq, hr]; rfl⟩
      · rw [← h2]
        exact alphabetByte_ne_padding _ hz
      · rw [← h3]
        exact alphabetByte_ne_padding _ hw
    · obtain ⟨p, rfl⟩ := List.length_eq_one_iff.mp hone
      rw [if_neg (by simp)] at h2 h3
      have htrailing : (((p &&& 0x03) <<< 4 ||| (0 : UInt8) >>> 4) &&& 0x0f).toNat = 0 := by
        have hlow : (((p &&& 0x03) <<< 4 ||| (0 : UInt8) >>> 4) &&& 0x0f).toNat =
            ((p &&& 0x03) <<< 4 ||| (0 : UInt8) >>> 4).toNat % 16 := @mask_toNat _ 4 (by decide)
        have hsecond := sextet2_toNat p 0
        rw [UInt8.toNat_zero] at hsecond
        omega
      exact .inl ⟨h2.symm, h3.symm, hlast, UInt8.toNat_inj.mp htrailing, by rw [hp]; rfl⟩
    · obtain ⟨p, q, rfl⟩ := List.length_eq_two.mp htwo
      rw [if_pos (by simp)] at h2
      rw [if_neg (by simp)] at h3
      have htrailing : (((q &&& 0x0f) <<< 2 ||| (0 : UInt8) >>> 6) &&& 0x03).toNat = 0 := by
        have hlow : (((q &&& 0x0f) <<< 2 ||| (0 : UInt8) >>> 6) &&& 0x03).toNat =
            ((q &&& 0x0f) <<< 2 ||| (0 : UInt8) >>> 6).toNat % 4 := @mask_toNat _ 2 (by decide)
        have hthird := sextet3_toNat q 0
        rw [UInt8.toNat_zero] at hthird
        omega
      refine .inr (.inl ⟨?_, h3.symm, hlast, _, ⟨hz, h2⟩, UInt8.toNat_inj.mp htrailing,
        by rw [hp, hq]; rfl⟩)
      rw [← h2]
      exact alphabetByte_ne_padding _ hz

/-! ## Texts -/

theorem encodeBase64Chunks_short {block : Bytes} (h : block.length = 1 ∨ block.length = 2) :
    encodeBase64Chunks block = encodeBase64Chunk block := by
  cases h with
  | inl hone =>
      obtain ⟨p, rfl⟩ := List.length_eq_one_iff.mp hone
      rfl
  | inr htwo =>
      obtain ⟨p, q, rfl⟩ := List.length_eq_two.mp htwo
      rfl

/-- A full chunk is encoded apart from the bytes after it. -/
theorem encodeBase64Chunks_append {block : Bytes} (h : block.length = 3) (rest : Bytes) :
    encodeBase64Chunks (block ++ rest) = encodeBase64Chunk block ++ encodeBase64Chunks rest := by
  obtain ⟨p, q, r, rfl⟩ := List.length_eq_three.mp h
  rfl

/-- The chunks left over by the two longer patterns. -/
theorem short_chunk {chunk : Bytes}
    (hlong : ∀ first second third rest, chunk = first :: second :: third :: rest → False)
    (hne : chunk = [] → False) : chunk.length = 1 ∨ chunk.length = 2 := by
  match chunk, hlong, hne with
  | [_], _, _ => exact .inl rfl
  | [_, _], _, _ => exact .inr rfl
  | [], _, hne => exact absurd rfl hne
  | _ :: _ :: _ :: _, hlong, _ => exact absurd rfl (hlong _ _ _ _)

@[simp] theorem decodeBase64Chunks_nil : decodeBase64Chunks [] = .ok [] := rfl

/-- The decoder reads one chunk of characters. -/
theorem decodeBase64Chunks_cons {block chars : Bytes} (hlength : block.length = 3 ∨
    chars = [] ∧ (block.length = 1 ∨ block.length = 2)) :
    decodeBase64Chunks (Text.utf8 (encodeBase64Chunk block) ++ chars) =
      decodeBase64Chunks chars >>= fun others => .ok (block ++ others) := by
  have hchars := utf8_encodeBase64Chunk block
  have hlast : block.length = 3 ∨ chars.isEmpty = true ∧ (block.length = 1 ∨ block.length = 2) := by
    rw [List.isEmpty_iff]
    exact hlength
  have hblock := decodeBase64Chunk_iff.mpr ⟨hlast, hchars⟩
  rw [hchars]
  simp only [List.cons_append, List.nil_append, decodeBase64Chunks]
  rw [hblock, ok_bind]

theorem decodeBase64Chunks_encode (bytes : Bytes) :
    decodeBase64Chunks (Text.utf8 (encodeBase64Chunks bytes)) = .ok bytes := by
  induction bytes using encodeBase64Chunks.induct with
  | case1 first second third rest ih =>
      rw [encodeBase64Chunks, Text.utf8_append, decodeBase64Chunks_cons (.inl rfl), ih]
      rfl
  | case2 => rfl
  | case3 chunk hlong hne =>
      have hshort := short_chunk hlong hne
      have hdecoded := @decodeBase64Chunks_cons chunk [] (.inr ⟨rfl, hshort⟩)
      rw [List.append_nil] at hdecoded
      rw [encodeBase64Chunks_short hshort, hdecoded, decodeBase64Chunks_nil, ok_bind,
        List.append_nil]

theorem encode_decodeBase64Chunks {chars decoded : Bytes} (hlength : chars.length % 4 = 0)
    (h : decodeBase64Chunks chars = .ok decoded) :
    Text.utf8 (encodeBase64Chunks decoded) = chars := by
  induction chars using decodeBase64Chunks.induct generalizing decoded with
  | case1 c0 c1 c2 c3 rest ih =>
      rw [decodeBase64Chunks, bind_eq_ok] at h
      obtain ⟨block, hblock, h⟩ := h
      obtain ⟨others, hothers, hdecoded⟩ := bind_eq_ok.mp h
      obtain ⟨hshape, hchars⟩ := decodeBase64Chunk_iff.mp hblock
      have hrest := ih (by simp only [List.length_cons] at hlength; omega) hothers
      rw [Except.ok.injEq] at hdecoded
      cases hshape with
      | inl hthree =>
          rw [← hdecoded, encodeBase64Chunks_append hthree, Text.utf8_append, hchars, hrest]
          rfl
      | inr hshort =>
          have hnil : rest = [] := List.isEmpty_iff.mp hshort.1
          subst hnil
          rw [decodeBase64Chunks_nil, Except.ok.injEq] at hothers
          rw [← hdecoded, ← hothers, List.append_nil, encodeBase64Chunks_short hshort.2, hchars]
  | case2 chars hshort =>
      have hnil : chars = [] := by
        match chars, hlength, hshort with
        | [], _, _ => rfl
        | _ :: _ :: _ :: _ :: _, _, hshort => exact absurd rfl (hshort _ _ _ _ _)
      subst hnil
      rw [decodeBase64Chunks_nil, Except.ok.injEq] at h
      rw [← h]
      rfl

theorem encodeBase64Chunks_length (bytes : Bytes) :
    (Text.utf8 (encodeBase64Chunks bytes)).length % 4 = 0 := by
  induction bytes using encodeBase64Chunks.induct with
  | case1 first second third rest ih =>
      rw [encodeBase64Chunks, Text.utf8_append, utf8_encodeBase64Chunk, List.length_append]
      simp only [List.length_cons, List.length_nil]
      omega
  | case2 => rfl
  | case3 chunk hlong hne =>
      rw [encodeBase64Chunks_short (short_chunk hlong hne), utf8_encodeBase64Chunk]
      simp only [List.length_cons, List.length_nil]

/-- The decoder accepts a text exactly when it encodes the bytes it returns. -/
theorem decodeBase64_iff {value : String} {bytes : Bytes} :
    decodeBase64 value = .ok bytes ↔ encodeBase64 bytes = value := by
  unfold decodeBase64
  simp only [bind_eq_ok, rejectIf_eq_ok, not_not, exists_const]
  constructor
  · intro h
    apply Text.bytes_injective
    rw [Text.bytes, encodeBase64, String.toList_ofList]
    exact encode_decodeBase64Chunks h.1 h.2
  · intro h
    have hbytes : Text.bytes value = Text.utf8 (encodeBase64Chunks bytes) := by
      rw [← h, Text.bytes, encodeBase64, String.toList_ofList]
    rw [hbytes]
    exact ⟨encodeBase64Chunks_length bytes, decodeBase64Chunks_encode bytes⟩

/-! ## The standard encoding -/

/-- The bytes of a chunk are the sextets of its characters, completed with zeros. -/
theorem ofBytes_one (p : UInt8) :
    ofBytes [p] ++ List.replicate 4 false =
      [p.toNat / 4, p.toNat % 4 * 16].flatMap (Bits.bigEndian 6) := by
  have hp := p.toNat_lt
  have hzeros : List.replicate 4 false = Bits.bigEndian 4 0 := rfl
  simp only [ofBytes, List.flatMap_cons, List.flatMap_nil, List.append_nil]
  rw [hzeros, Bits.bigEndian_append (by omega), Bits.bigEndian_append (by omega)]
  exact congrArg (Bits.bigEndian 12) (by omega)

theorem ofBytes_two (p q : UInt8) :
    ofBytes [p, q] ++ List.replicate 2 false =
      [p.toNat / 4, p.toNat % 4 * 16 + q.toNat / 16, q.toNat % 16 * 4].flatMap
        (Bits.bigEndian 6) := by
  have hp := p.toNat_lt
  have hq := q.toNat_lt
  have hzeros : List.replicate 2 false = Bits.bigEndian 2 0 := rfl
  simp only [ofBytes, List.flatMap_cons, List.flatMap_nil, List.append_nil, List.append_assoc]
  rw [hzeros, Bits.bigEndian_append (by omega), Bits.bigEndian_append (by omega),
    Bits.bigEndian_append (by omega), Bits.bigEndian_append (by omega)]
  exact congrArg (Bits.bigEndian 18) (by omega)

theorem ofBytes_three (p q r : UInt8) :
    ofBytes [p, q, r] =
      [p.toNat / 4, p.toNat % 4 * 16 + q.toNat / 16, q.toNat % 16 * 4 + r.toNat / 64,
        r.toNat % 64].flatMap (Bits.bigEndian 6) := by
  have hp := p.toNat_lt
  have hq := q.toNat_lt
  have hr := r.toNat_lt
  simp only [ofBytes, List.flatMap_cons, List.flatMap_nil, List.append_nil]
  rw [Bits.bigEndian_append (by omega), Bits.bigEndian_append (by omega),
    Bits.bigEndian_append (by omega), Bits.bigEndian_append (by omega),
    Bits.bigEndian_append (by omega)]
  exact congrArg (Bits.bigEndian 24) (by omega)

theorem encodeBase64Chunk_indices (chunk : Bytes) :
    encodeBase64Chunk chunk = [
      Base64.symbol ((chunk.getD 0 0).toNat / 4),
      Base64.symbol ((chunk.getD 0 0).toNat % 4 * 16 + (chunk.getD 1 0).toNat / 16),
      if chunk.length > 1 then
        Base64.symbol ((chunk.getD 1 0).toNat % 16 * 4 + (chunk.getD 2 0).toNat / 64) else '=',
      if chunk.length > 2 then Base64.symbol ((chunk.getD 2 0).toNat % 64) else '='] := by
  have h0 := (chunk.getD 0 0).toNat_lt
  have h1 := (chunk.getD 1 0).toNat_lt
  have h2 := (chunk.getD 2 0).toNat_lt
  have hsextet1 := sextet1_toNat (chunk.getD 0 0)
  have hsextet2 := sextet2_toNat (chunk.getD 0 0) (chunk.getD 1 0)
  have hsextet3 := sextet3_toNat (chunk.getD 1 0) (chunk.getD 2 0)
  have hsextet4 := sextet4_toNat (chunk.getD 2 0)
  unfold encodeBase64Chunk
  dsimp only
  rw [alphabetChar_eq _ (by omega), alphabetChar_eq _ (by omega), alphabetChar_eq _ (by omega),
    alphabetChar_eq _ (by omega), hsextet1, hsextet2, hsextet3, hsextet4]

/-- The encoder writes the canonical encoding of the bits. -/
theorem encodeBase64Chunks_eq (bytes : Bytes) :
    encodeBase64Chunks bytes = Base64.encode (ofBytes bytes) := by
  induction bytes using encodeBase64Chunks.induct with
  | case1 p q r rest ih =>
      have hchunk : Base64.encode (ofBytes [p, q, r]) = encodeBase64Chunk [p, q, r] := by
        have hp := p.toNat_lt
        have hq := q.toNat_lt
        have hr := r.toNat_lt
        rw [@Base64.encode_sextets _ 0 (by decide) _ _ ((List.append_nil _).trans (ofBytes_three p q r)),
          encodeBase64Chunk_indices]
        · simp
        · simp only [List.mem_cons, List.not_mem_nil, or_false]
          omega
      have hsplit : ofBytes (p :: q :: r :: rest) = ofBytes [p, q, r] ++ ofBytes rest :=
        Bits.ofBytes_append [p, q, r] rest
      rw [encodeBase64Chunks, hsplit, Base64.encode_append (Bits.ofBytes_length _), ih, hchunk]
  | case2 => rfl
  | case3 chunk hlong hne =>
      have hshort := short_chunk hlong hne
      rw [encodeBase64Chunks_short hshort]
      cases hshort with
      | inl hone =>
          obtain ⟨p, rfl⟩ := List.length_eq_one_iff.mp hone
          have hp := p.toNat_lt
          rw [Base64.encode_sextets (by decide) _ (ofBytes_one p), encodeBase64Chunk_indices]
          · simp
          · simp only [List.mem_cons, List.not_mem_nil, or_false]
            omega
      | inr htwo =>
          obtain ⟨p, q, rfl⟩ := List.length_eq_two.mp htwo
          have hp := p.toNat_lt
          have hq := q.toNat_lt
          rw [Base64.encode_sextets (by decide) _ (ofBytes_two p q), encodeBase64Chunk_indices]
          · simp
          · simp only [List.mem_cons, List.not_mem_nil, or_false]
            omega

/-- The codec is a bijection between byte strings and their canonical texts. -/
theorem base64_bijection :
    (∀ bytes, decodeBase64 (encodeBase64 bytes) = .ok bytes) ∧
      (∀ value bytes, decodeBase64 value = .ok bytes ↔ encodeBase64 bytes = value) ∧
      (∀ bytes, encodeBase64 bytes = String.ofList (Base64.encode (ofBytes bytes))) ∧
      ∀ value, (∃ bytes, decodeBase64 value = .ok bytes) ↔
        ∃ bytes, value = String.ofList (Base64.encode (ofBytes bytes)) := by
  have hstandard : ∀ bytes, encodeBase64 bytes = String.ofList (Base64.encode (ofBytes bytes)) := by
    intro bytes
    rw [encodeBase64, encodeBase64Chunks_eq]
  refine ⟨fun bytes => decodeBase64_iff.mpr rfl, fun value bytes => decodeBase64_iff, hstandard, ?_⟩
  intro value
  apply exists_congr
  intro bytes
  rw [decodeBase64_iff, hstandard, eq_comm]

end Invokrum.Rpc
