import Invokrum.Base.BoundedTotal
import Invokrum.Base.Slice
import Invokrum.Distribution.Bundle

/-!
# ustar header fields

Octal numbers between blanks, and printable text padded with NUL bytes. Each
parser returns on every input, and succeeds exactly on its grammar.
-/

namespace Invokrum.Archive

open Outcome Slice Machine Invokrum.Distribution
open Text (Bytes)

def ustarBlockBytes : Nat := 512

inductive ArchiveCandidateError where
  | archiveTooLarge
  | compressedArchiveUnsupported
  | truncatedArchive
  | trailingData
  | malformedHeader
  | headerChecksumMismatch
  | unsupportedArchiveFormat
  | unsupportedMetadata
  | unsupportedEntryType
  | invalidEntryName
  | logicalPathCollision (path : BundlePath)
  | undeclaredEntry (path : BundlePath)
  | missingDeclaredFile (path : BundlePath)
  | fileTooLarge (path : BundlePath)
  | tooManyEntries
  | metadataLimitExceeded
  | nestingLimitExceeded (path : BundlePath)
  | expandedBytesLimitExceeded
deriving DecidableEq

/-- A parser body: a value, a returned error, or a halt. -/
abbrev Parse (α : Type) := Except (Halt ArchiveCandidateError) α

/-! ## Octal fields -/

/-- NUL or space. -/
def isBlank (b : UInt8) : Bool := b == 0 || b == 32

def isOctalDigit (b : UInt8) : Bool := 48 ≤ b && b ≤ 55

/-- The checked accumulation of octal digits into a 64-bit value. -/
def octalDigits : Nat → Bytes → Parse Nat
  | value, [] => .ok value
  | value, byte :: rest => do
      let next ← okOr ((checkedMul value 8).bind fun next => checkedAdd next (byte.toNat - 48))
        (.returned .unsupportedMetadata)
      octalDigits next rest

/-- The bytes between the leading and the trailing blanks. -/
def trimBlanks (field : Bytes) : Parse Bytes :=
  let bounds := trimBounds (fun b => !isBlank b) field
  indexRange field bounds.1 bounds.2

def parseOctal (field : Bytes) (allowEmpty : Bool) : Parse Nat := do
  let digits ← trimBlanks field
  if digits.isEmpty then
    if allowEmpty then pure 0 else .error (.returned .malformedHeader)
  else do
    rejectIf (digits.all isOctalDigit = false) (.returned .unsupportedMetadata)
    octalDigits 0 digits

/-- The number octal digits denote, after the digits of `value`. -/
def octalFrom (value : Nat) (digits : Bytes) : Nat :=
  digits.foldl (fun value byte => value * 8 + (byte.toNat - 48)) value

/-- Octal digits with blanks around them. -/
structure OctalField (allowEmpty : Bool) (field : Bytes) (value : Nat) : Prop where
  spelled : ∃ lead digits trail, field = lead ++ (digits ++ trail) ∧
    (∀ b ∈ lead, isBlank b = true) ∧ (∀ b ∈ trail, isBlank b = true) ∧
      (∀ b ∈ digits, isOctalDigit b = true) ∧ (digits = [] → allowEmpty = true) ∧
        value = octalFrom 0 digits

theorem octalDigits_eq (digits : Bytes) (hdigits : ∀ b ∈ digits, isOctalDigit b = true)
    (value : Nat) (hvalue : (value + 1) * 8 ^ digits.length ≤ wordSize) :
    octalDigits value digits = .ok (octalFrom value digits) := by
  induction digits generalizing value with
  | nil => rfl
  | cons byte rest ih =>
      rw [List.forall_mem_cons] at hdigits
      have hle : byte.toNat ≤ 55 := by
        have hbyte := hdigits.1
        simp only [isOctalDigit, Bool.and_eq_true, decide_eq_true_eq, UInt8.le_iff_toNat_le]
          at hbyte
        exact hbyte.2
      have hpow : 8 ^ rest.length ≥ 1 := Nat.one_le_pow _ _ (by decide)
      have hnext : (value * 8 + (byte.toNat - 48) + 1) * 8 ^ rest.length ≤ wordSize := by
        calc
          (value * 8 + (byte.toNat - 48) + 1) * 8 ^ rest.length
              ≤ ((value + 1) * 8) * 8 ^ rest.length := by
            apply Nat.mul_le_mul_right
            omega
          _ = (value + 1) * 8 ^ (byte :: rest).length := by
            rw [List.length_cons, Nat.pow_succ]
            ring
          _ ≤ wordSize := hvalue
      have hfits : value * 8 + (byte.toNat - 48) < wordSize := by
        have := Nat.mul_le_mul_left (value * 8 + (byte.toNat - 48) + 1) hpow
        omega
      have hmul : checkedMul value 8 = some (value * 8) :=
        checkedMul_eq_some.mpr ⟨by omega, rfl⟩
      have hadd : checkedAdd (value * 8) (byte.toNat - 48) =
          some (value * 8 + (byte.toNat - 48)) := checkedAdd_eq_some.mpr ⟨hfits, rfl⟩
      rw [octalDigits, hmul, Option.bind_some, hadd, okOr, ok_bind, ih hdigits.2 _ hnext]
      rfl

/-- A field of at most 12 bytes never overflows. -/
theorem octalDigits_eq_of_short {digits : Bytes} (hshort : digits.length ≤ 12)
    (hdigits : ∀ b ∈ digits, isOctalDigit b = true) :
    octalDigits 0 digits = .ok (octalFrom 0 digits) := by
  refine octalDigits_eq digits hdigits 0 ?_
  calc
    (0 + 1) * 8 ^ digits.length ≤ 8 ^ 12 := by
      rw [Nat.zero_add, Nat.one_mul]
      exact Nat.pow_le_pow_right (by decide) hshort
    _ ≤ wordSize := by decide

theorem isBlank_of_isOctalDigit {b : UInt8} (h : isOctalDigit b = true) : isBlank b = false := by
  simp only [isOctalDigit, Bool.and_eq_true, decide_eq_true_eq, UInt8.le_iff_toNat_le] at h
  simp only [isBlank, Bool.or_eq_false_iff, beq_eq_false_iff_ne, ne_eq, ← UInt8.toNat_inj]
  obtain ⟨hlow, _⟩ := h
  have h48 : (48 : UInt8).toNat = 48 := rfl
  have h0 : (0 : UInt8).toNat = 0 := rfl
  have h32 : (32 : UInt8).toNat = 32 := rfl
  omega

theorem trimBlanks_spec (field : Bytes) : ∃ lead digits trail, field = lead ++ (digits ++ trail) ∧
    trimBlanks field = .ok digits ∧ (∀ b ∈ lead, isBlank b = true) ∧
      ∀ b ∈ trail, isBlank b = true := by
  obtain ⟨lead, digits, trail, hfield, hrange, hlead, htrail⟩ :=
    getRange_trimBounds (fun b => !isBlank b) field
  simp only [Bool.not_eq_false'] at hlead htrail
  refine ⟨lead, digits, trail, hfield, ?_, hlead, htrail⟩
  rw [trimBlanks, indexRange, hrange, okOr]

theorem trimBlanks_of_spelled {lead digits trail : Bytes} (hlead : ∀ b ∈ lead, isBlank b = true)
    (hdigits : ∀ b ∈ digits, isOctalDigit b = true) (htrail : ∀ b ∈ trail, isBlank b = true) :
    trimBlanks (lead ++ (digits ++ trail)) = .ok digits := by
  rw [trimBlanks, indexRange, getRange_trimBounds_of, okOr]
  · intro b hb
    simp [hlead b hb]
  · intro b hb
    simp [isBlank_of_isOctalDigit (hdigits b hb)]
  · intro b hb
    simp [htrail b hb]

theorem parseOctal_eq_ok {field : Bytes} (hshort : field.length ≤ 12) {allowEmpty : Bool}
    {value : Nat} :
    parseOctal field allowEmpty = .ok value ↔ OctalField allowEmpty field value := by
  rw [parseOctal]
  constructor
  · intro h
    obtain ⟨lead, digits, trail, hfield, htrim, hlead, htrail⟩ := trimBlanks_spec field
    rw [htrim, ok_bind] at h
    refine ⟨lead, digits, trail, hfield, hlead, htrail, ?_⟩
    cases digits with
    | nil => cases allowEmpty <;> simp_all [octalFrom, pure, Except.pure]
    | cons d ds =>
        simp only [List.isEmpty_cons, Bool.false_eq_true, if_false, bind_eq_ok, rejectIf_eq_ok,
          exists_const, Bool.not_eq_false, List.all_eq_true] at h
        have hlength : (d :: ds).length ≤ 12 := by
          rw [hfield, List.length_append, List.length_append] at hshort
          omega
        rw [octalDigits_eq_of_short hlength h.1, Except.ok.injEq] at h
        exact ⟨h.1, fun hnil => (List.cons_ne_nil d ds hnil).elim, h.2.symm⟩
  · intro h
    obtain ⟨lead, digits, trail, rfl, hlead, htrail, hdigits, hallow, rfl⟩ := h.spelled
    rw [trimBlanks_of_spelled hlead hdigits htrail, ok_bind]
    cases digits with
    | nil => simp [hallow rfl, octalFrom, pure, Except.pure]
    | cons d ds =>
        have hlength : (d :: ds).length ≤ 12 := by
          rw [List.length_append, List.length_append] at hshort
          omega
        simp only [List.isEmpty_cons, Bool.false_eq_true, if_false, bind_eq_ok, rejectIf_eq_ok,
          exists_const, Bool.not_eq_false, List.all_eq_true]
        exact ⟨hdigits, octalDigits_eq_of_short hlength hdigits⟩

theorem parseOctal_returns (field : Bytes) (allowEmpty : Bool) :
    Returns (parseOctal field allowEmpty) := by
  obtain ⟨_, digits, _, _, htrim, _, _⟩ := trimBlanks_spec field
  have hloop : ∀ (digits : Bytes) (value : Nat), Returns (octalDigits value digits) := by
    intro digits
    induction digits with
    | nil => exact fun value => .ok value
    | cons byte rest ih => exact fun value => (Returns.okOr _ _).bind fun next _ => ih next
  unfold parseOctal
  refine Returns.bind ?_ fun digits _ => ?_
  · rw [htrim]
    exact .ok digits
  · split
    · cases allowEmpty
      · exact .error _
      · exact .ok 0
    · exact (Returns.rejectIf _ _).bind fun _ _ => hloop digits 0

/-! ## Text fields -/

def parseTextField (field : Bytes) : Parse Bytes := do
  let stop := field.findIdx (· == 0)
  let tail ← indexRange field stop field.length
  rejectIf (tail.any (· != 0) = true) (.returned .unsupportedMetadata)
  let text ← indexRange field 0 stop
  rejectIf (text.any (fun byte => 128 ≤ byte || Text.isAsciiControl byte) = true)
    (.returned .unsupportedMetadata)
  pure text

/-- Printable ASCII followed by NUL bytes only. -/
structure TextField (field text : Bytes) : Prop where
  padded : ∃ zeros, field = text ++ zeros ∧ ∀ b ∈ zeros, b = 0
  printable : ∀ b ∈ text, b < 128 ∧ Text.isAsciiControl b = false

theorem parseTextField_eq (field : Bytes) :
    parseTextField field = (do
      rejectIf ((field.drop (field.findIdx (· == 0))).any (· != 0) = true)
        (.returned .unsupportedMetadata)
      rejectIf ((field.take (field.findIdx (· == 0))).any
        (fun byte => 128 ≤ byte || Text.isAsciiControl byte) = true)
        (.returned .unsupportedMetadata)
      pure (field.take (field.findIdx (· == 0)))) := by
  have hle : field.findIdx (· == 0) ≤ field.length := List.findIdx_le_length
  rw [parseTextField, indexRange_of_le ⟨hle, le_refl _⟩, ok_bind,
    indexRange_of_le ⟨Nat.zero_le _, hle⟩]
  have htail : Slice.field field (field.findIdx (· == 0)) field.length =
      field.drop (field.findIdx (· == 0)) := by
    rw [Slice.field, List.take_of_length_le]
    rw [List.length_drop]
  rw [htail]
  rfl

theorem parseTextField_eq_ok {field text : Bytes} :
    parseTextField field = .ok text ↔ TextField field text := by
  rw [parseTextField_eq]
  simp only [bind_eq_ok, rejectIf_eq_ok, exists_const, pure, Except.pure, Except.ok.injEq,
    List.any_eq_true, not_exists, not_and, Bool.or_eq_true, decide_eq_true_eq, not_or,
    bne_iff_ne, ne_eq, not_not, Bool.not_eq_true]
  constructor
  · intro h
    obtain ⟨hzeros, hprintable, rfl⟩ := h
    refine ⟨⟨_, (List.take_append_drop _ field).symm, hzeros⟩, fun b hb => ?_⟩
    exact ⟨UInt8.not_le.mp (hprintable b hb).1, (hprintable b hb).2⟩
  · intro h
    obtain ⟨zeros, rfl, hzeros⟩ := h.padded
    have hnonzero : ∀ b ∈ text, (b == 0) = false := by
      intro b hb
      have hcontrol := (h.printable b hb).2
      rw [beq_eq_false_iff_ne]
      rintro rfl
      exact absurd hcontrol (by decide)
    have hstop : (text ++ zeros).findIdx (· == 0) = text.length := by
      rw [findIdx_append _ hnonzero]
      cases zeros with
      | nil => simp
      | cons z zs => simp [List.findIdx_cons, hzeros z List.mem_cons_self]
    rw [hstop, List.drop_left, List.take_left]
    exact ⟨hzeros, fun b hb => ⟨UInt8.not_le.mpr (h.printable b hb).1, (h.printable b hb).2⟩, rfl⟩

theorem parseTextField_returns (field : Bytes) : Returns (parseTextField field) := by
  rw [parseTextField_eq]
  exact (Returns.rejectIf _ _).bind fun _ _ => (Returns.rejectIf _ _).bind fun _ _ => .ok _

end Invokrum.Archive
