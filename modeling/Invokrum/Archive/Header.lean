import Invokrum.Archive.Field

/-!
# ustar headers

`parseHeader` indexes fixed ranges of one block. `HeaderBlock` states the header
grammar field by field; the parser returns on every block, and it returns a
header exactly when the block has that header.
-/

namespace Invokrum.Archive

open Outcome Slice Machine Invokrum.Distribution
open Text (Bytes)

inductive EntryKind where
  | file
  | directory
deriving DecidableEq

structure ParsedHeader where
  path : BundlePath
  size : Nat
  kind : EntryKind
deriving DecidableEq

/-! ## Checksum -/

/-- What the byte at an index adds to the checksum: the checksum field counts as spaces. -/
def checksumByte (index : Nat) (byte : UInt8) : Nat :=
  if 148 ≤ index ∧ index < 156 then 32 else byte.toNat

/-- The checked sum over a block, from an index on. -/
def checksumFrom : Nat → Nat → Bytes → Parse Nat
  | _, sum, [] => .ok sum
  | index, sum, byte :: rest => do
      let sum ← okOr (checkedAdd sum (checksumByte index byte)) (.returned .malformedHeader)
      checksumFrom (index + 1) sum rest

/-- The header checksum of a block. -/
def blockSum (block : Bytes) : Nat :=
  (block.zipIdx.map fun entry => checksumByte entry.2 entry.1).sum

theorem checksumByte_le (index : Nat) (byte : UInt8) : checksumByte index byte ≤ 255 := by
  have hlt := byte.toNat_lt
  unfold checksumByte
  split <;> omega

theorem checksumFrom_eq (bytes : Bytes) (index sum : Nat)
    (h : sum + 255 * bytes.length < wordSize) :
    checksumFrom index sum bytes = .ok (sum +
      ((bytes.zipIdx index).map fun entry => checksumByte entry.2 entry.1).sum) := by
  induction bytes generalizing index sum with
  | nil => simp [checksumFrom]
  | cons byte rest ih =>
      have hbyte := checksumByte_le index byte
      rw [List.length_cons] at h
      have hadd : checkedAdd sum (checksumByte index byte) =
          some (sum + checksumByte index byte) := checkedAdd_eq_some.mpr ⟨by omega, rfl⟩
      rw [checksumFrom, hadd, okOr, ok_bind, ih (index + 1) _ (by omega), List.zipIdx_cons,
        List.map_cons, List.sum_cons, Nat.add_assoc]

theorem checksumFrom_block {block : Bytes} (h : block.length = ustarBlockBytes) :
    checksumFrom 0 0 block = .ok (blockSum block) := by
  rw [checksumFrom_eq block 0 0 (by rw [h]; decide), Nat.zero_add]
  rfl

/-! ## The header parser -/

def typeFlag (flag : UInt8) : Parse EntryKind :=
  if flag = 0 ∨ flag = 48 then .ok .file
  else if flag = 53 then .ok .directory
  else if flag = 120 ∨ flag = 103 ∨ flag = 76 ∨ flag = 75 then
    .error (.returned .unsupportedMetadata)
  else .error (.returned .unsupportedEntryType)

/-- Prefix and name joined by a slash; a directory loses one trailing slash. -/
def entryName (kind : EntryKind) (namePrefix name : Bytes) : Bytes :=
  let joined := (if namePrefix.isEmpty then [] else namePrefix ++ [47]) ++ name
  if kind = .directory ∧ joined.getLast? = some 47 then joined.dropLast else joined

def ignoreOctal (field : Bytes) : Parse Unit := do
  let _ ← parseOctal field true
  pure ()

def parseHeader (block : Bytes) : Parse ParsedHeader := do
  rejectIf (block.length ≠ ustarBlockBytes) (.returned .malformedHeader)
  let checksumField ← indexRange block 148 156
  let expectedChecksum ← parseOctal checksumField false
  let actualChecksum ← checksumFrom 0 0 block
  rejectIf (expectedChecksum ≠ actualChecksum) (.returned .headerChecksumMismatch)
  let magic ← indexRange block 257 263
  let version ← indexRange block 263 265
  rejectIf (magic ≠ [117, 115, 116, 97, 114, 0] ∨ version ≠ [48, 48])
    (.returned .unsupportedArchiveFormat)
  let tail ← indexRange block 500 block.length
  rejectIf (tail.any (· != 0) = true) (.returned .unsupportedMetadata)
  let mode ← indexRange block 100 108
  let userId ← indexRange block 108 116
  let groupId ← indexRange block 116 124
  let modified ← indexRange block 136 148
  forEach ignoreOctal [mode, userId, groupId, modified]
  let sizeField ← indexRange block 124 136
  let size ← parseOctal sizeField false
  let majorField ← indexRange block 329 337
  let deviceMajor ← parseOctal majorField true
  let minorField ← indexRange block 337 345
  let deviceMinor ← parseOctal minorField true
  rejectIf (deviceMajor ≠ 0 ∨ deviceMinor ≠ 0) (.returned .unsupportedMetadata)
  let userName ← indexRange block 265 297
  let _ ← parseTextField userName
  let groupName ← indexRange block 297 329
  let _ ← parseTextField groupName
  let linkField ← indexRange block 157 257
  let linkName ← parseTextField linkField
  rejectIf (linkName.isEmpty = false) (.returned .unsupportedMetadata)
  let flag ← okOr block[156]? .panic
  let kind ← typeFlag flag
  let nameField ← indexRange block 0 100
  let name ← parseTextField nameField
  rejectIf (name.isEmpty = true) (.returned .invalidEntryName)
  let prefixField ← indexRange block 345 500
  let namePrefix ← parseTextField prefixField
  let text ← okOr (Text.fromUtf8 (entryName kind namePrefix name)) (.returned .invalidEntryName)
  let path ← (BundlePath.parse text).mapError fun _ => .returned .invalidEntryName
  pure ⟨path, size, kind⟩

/-! ## The header grammar -/

/-- A type flag and the kind of entry it stands for. -/
inductive TypeFlag : UInt8 → EntryKind → Prop where
  | oldFile : TypeFlag 0 .file
  | file : TypeFlag 48 .file
  | directory : TypeFlag 53 .directory

/-- The block is a ustar header with this path, size and kind. -/
structure HeaderBlock (block : Bytes) (header : ParsedHeader) : Prop where
  length : block.length = ustarBlockBytes
  checksum : OctalField false (field block 148 156) (blockSum block)
  magic : field block 257 263 = [117, 115, 116, 97, 114, 0]
  version : field block 263 265 = [48, 48]
  tail : ∀ b ∈ field block 500 512, b = 0
  numbers : ∀ range ∈ [(100, 108), (108, 116), (116, 124), (136, 148)],
    ∃ value, OctalField true (field block range.1 range.2) value
  size : OctalField false (field block 124 136) header.size
  deviceMajor : OctalField true (field block 329 337) 0
  deviceMinor : OctalField true (field block 337 345) 0
  userName : ∃ text, TextField (field block 265 297) text
  groupName : ∃ text, TextField (field block 297 329) text
  linkName : TextField (field block 157 257) []
  kind : ∃ flag, block[156]? = some flag ∧ TypeFlag flag header.kind
  path : ∃ name namePrefix, TextField (field block 0 100) name ∧ name ≠ [] ∧
    TextField (field block 345 500) namePrefix ∧
      Text.bytes header.path.text = entryName header.kind namePrefix name

theorem typeFlag_eq_ok {flag : UInt8} {kind : EntryKind} :
    typeFlag flag = .ok kind ↔ TypeFlag flag kind := by
  unfold typeFlag
  constructor
  · intro h
    split at h
    · next hfile =>
        cases h
        rcases hfile with rfl | rfl
        · exact .oldFile
        · exact .file
    · split at h
      · next hdirectory =>
          cases h
          exact hdirectory ▸ .directory
      · split at h <;> cases h
  · intro h
    cases h <;> rfl

theorem typeFlag_returns (flag : UInt8) : Returns (typeFlag flag) := by
  unfold typeFlag
  split
  · exact .ok _
  · split
    · exact .ok _
    · split
      · exact .error _
      · exact .error _

/-- Every range `parseHeader` indexes lies in the block. -/
theorem indexRange_block {block : Bytes} (h : block.length = ustarBlockBytes) {start stop : Nat}
    (hrange : start ≤ stop ∧ stop ≤ 512) :
    (indexRange block start stop : Parse Bytes) = .ok (field block start stop) :=
  indexRange_of_le ⟨hrange.1, by rw [h]; exact hrange.2⟩

theorem field_short (block : Bytes) {start stop : Nat} (h : stop - start ≤ 12) :
    (field block start stop).length ≤ 12 := by
  rw [field, List.length_take]
  omega

theorem parseOctal_field {block : Bytes} {start stop : Nat} (h : stop - start ≤ 12)
    {allowEmpty : Bool} {value : Nat} :
    parseOctal (field block start stop) allowEmpty = .ok value ↔
      OctalField allowEmpty (field block start stop) value :=
  parseOctal_eq_ok (field_short block h)

theorem ignoreOctal_field {block : Bytes} {start stop : Nat} (h : stop - start ≤ 12) {u : Unit} :
    ignoreOctal (field block start stop) = .ok u ↔
      ∃ value, OctalField true (field block start stop) value := by
  simp only [ignoreOctal, bind_eq_ok, parseOctal_field h, pure, Except.pure, and_true]

theorem parseHeader_eq_ok {block : Bytes} {header : ParsedHeader} :
    parseHeader block = .ok header ↔ HeaderBlock block header := by
  by_cases hlength : block.length = ustarBlockBytes
  · have hstop : block.length = 512 := hlength
    simp (disch := decide) only [parseHeader, hstop, indexRange_block hlength, ok_bind,
      bind_eq_ok, rejectIf_eq_ok, checksumFrom_block hlength, parseOctal_field,
      ignoreOctal_field, forEach_eq_ok, parseTextField_eq_ok, okOr_eq_ok, typeFlag_eq_ok,
      mapError_eq_ok, BundlePath.parse_eq_ok, Text.fromUtf8_eq_some, List.forall_mem_cons,
      exists_const, pure, Except.pure, Except.ok.injEq]
    constructor
    · intro h
      obtain ⟨_, _, hchecksum, hsum, hmagic, htail, ⟨hmode, huser, hgroup, htime, _⟩, size, hsize,
        major, hmajor, minor, hminor, hdevice, userName, huserName, groupName, hgroupName,
        linkName, hlink, hlinkEmpty, flag, hflag, kind, hkind, name, hname, hnameEmpty,
        namePrefix, hprefix, text, htext, path, hpath, rfl⟩ := h
      rw [not_or, not_not, not_not] at hmagic hdevice
      rw [not_not] at hsum
      obtain ⟨rfl, rfl⟩ := hdevice
      have hnil : linkName = [] := by simpa using hlinkEmpty
      subst hnil
      exact {
        length := hlength
        checksum := hsum ▸ hchecksum
        magic := hmagic.1
        version := hmagic.2
        tail := by simpa using htail
        numbers := by simpa using ⟨hmode, huser, hgroup, htime⟩
        size := hsize
        deviceMajor := hmajor
        deviceMinor := hminor
        userName := ⟨userName, huserName⟩
        groupName := ⟨groupName, hgroupName⟩
        linkName := hlink
        kind := ⟨flag, hflag, hkind⟩
        path := ⟨name, namePrefix, hname, by simpa using hnameEmpty, hprefix, hpath ▸ htext⟩ }
    · intro h
      obtain ⟨userName, huserName⟩ := h.userName
      obtain ⟨groupName, hgroupName⟩ := h.groupName
      obtain ⟨flag, hflag, hkind⟩ := h.kind
      obtain ⟨name, namePrefix, hname, hnameEmpty, hprefix, htext⟩ := h.path
      have hnumbers := h.numbers
      simp only [List.forall_mem_cons] at hnumbers
      obtain ⟨hmode, huser, hgroup, htime, _⟩ := hnumbers
      refine ⟨not_not.mpr rfl, _, h.checksum, not_not.mpr rfl, ?_, ?_, ⟨hmode, huser, hgroup, htime,
        by simp⟩, _, h.size, 0, h.deviceMajor, 0, h.deviceMinor, by simp, userName, huserName,
        groupName, hgroupName, [], h.linkName, by simp, flag, hflag, _, hkind, name, hname,
        by simpa using hnameEmpty, namePrefix, hprefix, _, htext, _, rfl, rfl⟩
      · simp [h.magic, h.version]
      · simpa using h.tail
  · constructor
    · intro h
      rw [parseHeader, rejectIf_of _ hlength, error_bind] at h
      cases h
    · intro h
      exact absurd h.length hlength

theorem ignoreOctal_returns (field : Bytes) : Returns (ignoreOctal field) :=
  (parseOctal_returns field true).bind fun _ _ => .ok ()

theorem parseHeader_returns (block : Bytes) : Returns (parseHeader block) := by
  by_cases hlength : block.length = ustarBlockBytes
  · have hstop : block.length = 512 := hlength
    have hlt : 156 < block.length := by omega
    have hflag : block[156]? = some block[156] := List.getElem?_eq_getElem hlt
    simp (disch := decide) only [parseHeader, hstop, indexRange_block hlength, ok_bind,
      checksumFrom_block hlength, hflag, okOr]
    refine (Returns.rejectIf _ _).bind fun _ _ => ?_
    refine (parseOctal_returns _ _).bind fun _ _ => ?_
    refine (Returns.rejectIf _ _).bind fun _ _ => ?_
    refine (Returns.rejectIf _ _).bind fun _ _ => ?_
    refine (Returns.rejectIf _ _).bind fun _ _ => ?_
    refine (Returns.forEach ignoreOctal_returns _).bind fun _ _ => ?_
    refine (parseOctal_returns _ _).bind fun _ _ => ?_
    refine (parseOctal_returns _ _).bind fun _ _ => ?_
    refine (parseOctal_returns _ _).bind fun _ _ => ?_
    refine (Returns.rejectIf _ _).bind fun _ _ => ?_
    refine (parseTextField_returns _).bind fun _ _ => ?_
    refine (parseTextField_returns _).bind fun _ _ => ?_
    refine (parseTextField_returns _).bind fun _ _ => ?_
    refine (Returns.rejectIf _ _).bind fun _ _ => ?_
    refine (typeFlag_returns _).bind fun _ _ => ?_
    refine (parseTextField_returns _).bind fun _ _ => ?_
    refine (Returns.rejectIf _ _).bind fun _ _ => ?_
    refine (parseTextField_returns _).bind fun _ _ => ?_
    refine (Returns.okOr _ _).bind fun _ _ => ?_
    exact (Returns.mapError _ _).bind fun _ _ => .ok _
  · rw [parseHeader, rejectIf_of _ hlength, error_bind]
    exact .error _

end Invokrum.Archive
