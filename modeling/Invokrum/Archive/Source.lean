import Invokrum.Archive.UstarExact

/-!
# Archive sources

What a caller gets from an archive: a source takes its bytes under the input
bound, and loading it returns the declared files, each once. Every manifest of
short paths has an archive that loads: one of empty files.
-/

namespace Invokrum.Archive

open Outcome Slice Machine Invokrum.Distribution
open Acquisition (CandidateFile)
open Text (Bytes)

def maxUstarArchiveBytes : Nat := 34603008

def looksCompressed (bytes : Bytes) : Bool :=
  [0x1f, 0x8b].isPrefixOf bytes || [66, 90, 104].isPrefixOf bytes
    || [0xfd, 55, 122, 88, 90, 0x00].isPrefixOf bytes || [0x28, 0xb5, 0x2f, 0xfd].isPrefixOf bytes

def startsWithAcceptedUstarHeader (bytes : Bytes) : Bool :=
  (getRange bytes 0 ustarBlockBytes).any fun block => (parseHeader block).isOk

structure UstarCandidateSource where
  bytes : Bytes

def UstarCandidateSource.new (bytes : Bytes) : Except ArchiveCandidateError UstarCandidateSource := do
  rejectIf (looksCompressed bytes = true ∧ startsWithAcceptedUstarHeader bytes = false)
    .compressedArchiveUnsupported
  rejectIf (maxUstarArchiveBytes < bytes.length) .archiveTooLarge
  pure ⟨bytes⟩

def UstarCandidateSource.load (source : UstarCandidateSource) (manifest : BundleManifest) :
    Parse (List CandidateFile) :=
  parseUstar source.bytes manifest .default

/-- Bytes that start with a header do. -/
theorem startsWithAcceptedUstarHeader_block {block : Bytes} {header : ParsedHeader}
    (h : HeaderBlock block header) (rest : Bytes) :
    startsWithAcceptedUstarHeader (block ++ rest) = true := by
  have hrange : getRange ([] ++ (block ++ rest)) ([] : Bytes).length
      (([] : Bytes).length + ustarBlockBytes) = some block :=
    getRange_eq_some.mpr ⟨h.length, rest, rfl⟩
  rw [List.nil_append, List.length_nil, Nat.zero_add] at hrange
  rw [startsWithAcceptedUstarHeader, hrange, Option.any_some, parseHeader_eq_ok.mpr h]
  rfl

/-! ## What a loaded archive holds -/

theorem candidate_eq_some {e : Entry} {file : CandidateFile} :
    e.candidate = some file ↔ e.header.kind = .file ∧ file = ⟨e.path, e.data, e.bounded⟩ := by
  unfold Entry.candidate
  by_cases hkind : e.header.kind = .file
  · simp [hkind, eq_comm]
  · simp [hkind]

theorem candidate_paths_sublist (entries : List Entry) :
    ((entries.filterMap Entry.candidate).map (·.path)).Sublist (entries.map Entry.path) := by
  induction entries with
  | nil => exact List.Sublist.refl _
  | cons e rest ih =>
      cases hcandidate : e.candidate with
      | none =>
          rw [List.filterMap_cons_none hcandidate, List.map_cons]
          exact ih.cons _
      | some file =>
          obtain ⟨_, rfl⟩ := candidate_eq_some.mp hcandidate
          rw [List.filterMap_cons_some hcandidate, List.map_cons, List.map_cons]
          exact ih.cons_cons _

/-- Loaded files are the declared files, each once, not nested too deep. -/
structure Loaded (manifest : BundleManifest) (files : List CandidateFile) : Prop where
  portable : Portable manifest
  paths : (files.map (·.path)).Perm (manifest.files.map (·.path))
  nested : ∀ file ∈ files, nesting file.path ≤ maxUstarNesting

theorem load_eq_ok {source : UstarCandidateSource} {manifest : BundleManifest}
    {files : List CandidateFile} (h : source.load manifest = .ok files) : Loaded manifest files := by
  obtain ⟨entries, harchive, rfl⟩ := parseUstar_eq_ok.mp h
  have hfrom : ∀ file ∈ entries.filterMap Entry.candidate,
      ∃ e ∈ entries, e.header.kind = .file ∧ file.path = e.path := by
    intro file hfile
    obtain ⟨e, he, hcandidate⟩ := List.mem_filterMap.mp hfile
    obtain ⟨hkind, rfl⟩ := candidate_eq_some.mp hcandidate
    exact ⟨e, he, hkind, rfl⟩
  have hdistinct : ((entries.filterMap Entry.candidate).map (·.path)).Nodup := by
    have hkeys : (entries.map Entry.path).Nodup := by
      apply List.Nodup.of_map logicalKey
      rw [List.map_map]
      exact harchive.admitted.distinct
    exact hkeys.sublist (candidate_paths_sublist entries)
  refine ⟨harchive.portable, ?_, ?_⟩
  · rw [List.perm_ext_iff_of_nodup hdistinct manifest.accepted.distinct]
    intro path
    rw [List.mem_map]
    constructor
    · intro hpath
      obtain ⟨file, hfile, rfl⟩ := hpath
      obtain ⟨e, he, hkind, hpath⟩ := hfrom file hfile
      have hdeclared := harchive.admitted.declared e he
      rw [hkind] at hdeclared
      rw [hpath]
      exact hdeclared
    · intro hpath
      obtain ⟨declared, hdeclared, rfl⟩ := List.mem_map.mp hpath
      have honce := harchive.once declared hdeclared
      have hpos : 0 < entries.countP fun e =>
          e.header.kind = .file ∧ e.path = declared.path := by omega
      obtain ⟨e, he, hboth⟩ := List.countP_pos_iff.mp hpos
      obtain ⟨hkind, hpath⟩ := of_decide_eq_true hboth
      exact ⟨⟨e.path, e.data, e.bounded⟩,
        List.mem_filterMap.mpr ⟨e, he, candidate_eq_some.mpr ⟨hkind, rfl⟩⟩, hpath⟩
  · intro file hfile
    obtain ⟨e, he, _, hpath⟩ := hfrom file hfile
    rw [hpath]
    exact harchive.admitted.nested e he

/-! ## Archives of empty files -/

def zeros (count : Nat) : Bytes := List.replicate count 0

@[simp] theorem zeros_length (count : Nat) : (zeros count).length = count :=
  List.length_replicate

@[simp] theorem zeros_sum (count : Nat) : ((zeros count).map UInt8.toNat).sum = 0 := by
  simp [zeros]

theorem mem_zeros {count : Nat} {b : UInt8} (h : b ∈ zeros count) : b = 0 :=
  List.eq_of_mem_replicate h

/-- Six octal digits. -/
def octalText (value : Nat) : Bytes :=
  [(48 + value / 32768 % 8).toUInt8, (48 + value / 4096 % 8).toUInt8,
    (48 + value / 512 % 8).toUInt8, (48 + value / 64 % 8).toUInt8, (48 + value / 8 % 8).toUInt8,
    (48 + value % 8).toUInt8]

/-- A header block from its mode field on: an empty regular file, all numbers zero or absent. -/
def emptyFileFields (checksum : Nat) : Bytes :=
  (zeros 24 ++ [48] ++ zeros 23) ++ (octalText checksum ++ [0, 32]) ++
    ([48] ++ zeros 100 ++ [117, 115, 116, 97, 114, 0, 48, 48] ++ zeros 247)

def nameField (path : BundlePath) : Bytes :=
  Text.bytes path.text ++ zeros (100 - (Text.bytes path.text).length)

/-- The header block of an empty file. -/
def emptyFileBlock (path : BundlePath) : Bytes :=
  nameField path ++ emptyFileFields (((Text.bytes path.text).map UInt8.toNat).sum + 1007)

theorem octalText_spells {value : Nat} (h : value < 262144) :
    (∀ b ∈ octalText value, isOctalDigit b = true) ∧ octalFrom 0 (octalText value) = value := by
  constructor
  · intro b hb
    simp only [octalText, List.mem_cons, List.not_mem_nil, or_false] at hb
    rcases hb with rfl | rfl | rfl | rfl | rfl | rfl <;>
      simp [isOctalDigit, UInt8.le_iff_toNat_le] <;> omega
  · simp [octalText, octalFrom]
    omega

theorem emptyFileFields_length (checksum : Nat) : (emptyFileFields checksum).length = 412 := by
  simp [emptyFileFields, octalText]

/-- The checksum of a part of a block. -/
def partSum (index : Nat) (part : Bytes) : Nat :=
  ((part.zipIdx index).map fun entry => checksumByte entry.2 entry.1).sum

theorem partSum_append (index : Nat) (a b : Bytes) :
    partSum index (a ++ b) = partSum index a + partSum (index + a.length) b := by
  simp [partSum, List.zipIdx_append]

/-- Outside the checksum field the bytes themselves are summed. -/
theorem partSum_plain {index : Nat} {part : Bytes}
    (h : index + part.length ≤ 148 ∨ 156 ≤ index) :
    partSum index part = (part.map UInt8.toNat).sum := by
  induction part generalizing index with
  | nil => rfl
  | cons b part ih =>
      rw [List.length_cons] at h
      have hb : checksumByte index b = b.toNat := by
        unfold checksumByte
        rw [if_neg (by omega)]
      have hrest : partSum (index + 1) part = (part.map UInt8.toNat).sum := ih (by omega)
      simp only [partSum, List.zipIdx_cons, List.map_cons, List.sum_cons, hb] at hrest ⊢
      rw [hrest]

/-- The fixed fields add the same to every checksum. -/
theorem partSum_emptyFileFields (checksum : Nat) :
    partSum 100 (emptyFileFields checksum) = 1007 := by
  have hchecksum : ∀ index, index = 148 → partSum index (octalText checksum ++ [0, 32]) = 256 := by
    intro index hindex
    simp [hindex, partSum, octalText, checksumByte]
  rw [emptyFileFields, partSum_append, partSum_append, partSum_plain (by simp),
    hchecksum _ (by simp), partSum_plain (by simp [octalText])]
  simp

theorem nameField_length {path : BundlePath} (h : (Text.bytes path.text).length ≤ 100) :
    (nameField path).length = 100 := by
  simp only [nameField, List.length_append, zeros_length]
  omega

theorem blockSum_emptyFileBlock {path : BundlePath} (h : (Text.bytes path.text).length ≤ 100) :
    blockSum (emptyFileBlock path) = ((Text.bytes path.text).map UInt8.toNat).sum + 1007 := by
  have hlength := nameField_length h
  have hsum : blockSum (emptyFileBlock path) = partSum 0 (emptyFileBlock path) := rfl
  rw [hsum, emptyFileBlock, partSum_append, partSum_plain (by omega), hlength,
    partSum_emptyFileFields]
  simp [nameField]

/-- The name fits, so the checksum has six octal digits. -/
theorem emptyFileBlock_checksum_lt {path : BundlePath}
    (h : (Text.bytes path.text).length ≤ 100) :
    ((Text.bytes path.text).map UInt8.toNat).sum + 1007 < 262144 := by
  have hbytes : ∀ bytes : Bytes, (bytes.map UInt8.toNat).sum ≤ 255 * bytes.length := by
    intro bytes
    induction bytes with
    | nil => simp
    | cons b bytes ih =>
        have hb := b.toNat_lt
        rw [List.map_cons, List.sum_cons, List.length_cons]
        omega
  have hsum := hbytes (Text.bytes path.text)
  omega

theorem field_nameField_append {path : BundlePath} (h : (Text.bytes path.text).length ≤ 100)
    (rest : Bytes) {start stop : Nat} (hstart : 100 ≤ start) :
    field (nameField path ++ rest) start stop = field rest (start - 100) (stop - 100) := by
  have hlength := nameField_length h
  rw [field, field, List.drop_append, List.drop_of_length_le (by omega), List.nil_append, hlength]
  congr 1
  omega

/-- What a field of the fixed fields holds, up to the checksum digits. -/
theorem emptyFileFields_fields (checksum : Nat) :
    field (emptyFileFields checksum) 0 8 = zeros 8 ∧ field (emptyFileFields checksum) 8 16 = zeros 8 ∧
      field (emptyFileFields checksum) 16 24 = zeros 8 ∧
        field (emptyFileFields checksum) 24 36 = 48 :: zeros 11 ∧
          field (emptyFileFields checksum) 36 48 = zeros 12 ∧
            field (emptyFileFields checksum) 48 56 = octalText checksum ++ [0, 32] := by
  refine ⟨?_, ?_, ?_, ?_, ?_, ?_⟩ <;> rfl

theorem emptyFileFields_tail (checksum : Nat) :
    field (emptyFileFields checksum) 57 157 = zeros 100 ∧
      field (emptyFileFields checksum) 157 163 = [117, 115, 116, 97, 114, 0] ∧
        field (emptyFileFields checksum) 163 165 = [48, 48] ∧
          field (emptyFileFields checksum) 165 197 = zeros 32 ∧
            field (emptyFileFields checksum) 197 229 = zeros 32 ∧
              field (emptyFileFields checksum) 229 237 = zeros 8 ∧
                field (emptyFileFields checksum) 237 245 = zeros 8 ∧
                  field (emptyFileFields checksum) 245 400 = zeros 155 ∧
                    field (emptyFileFields checksum) 400 412 = zeros 12 := by
  refine ⟨?_, ?_, ?_, ?_, ?_, ?_, ?_, ?_, ?_⟩ <;> rfl

theorem octalField_zeros (count : Nat) : OctalField true (zeros count) 0 :=
  ⟨zeros count, [], [], by simp, fun b hb => by rw [mem_zeros hb]; rfl, by simp, by simp, by simp,
    rfl⟩

theorem textField_zeros (count : Nat) : TextField (zeros count) [] :=
  ⟨⟨zeros count, rfl, fun _ hb => mem_zeros hb⟩, by simp⟩

/-- A bundle path is printable ASCII text. -/
theorem bundlePath_printable (path : BundlePath) :
    Text.bytes path.text ≠ [] ∧
      ∀ b ∈ Text.bytes path.text, b < 128 ∧ Text.isAsciiControl b = false := by
  have hvalid := path.valid
  simp only [bundlePathValid, Bool.not_eq_true', Bool.or_eq_false_iff, Bool.not_eq_false',
    decide_eq_false_iff_not] at hvalid
  obtain ⟨⟨⟨⟨⟨⟨⟨⟨hempty, _⟩, hascii⟩, _⟩, _⟩, _⟩, _⟩, hcontrol⟩, _⟩ := hvalid
  constructor
  · intro hnil
    have htext : path.text = "" := Text.bytes_injective (hnil.trans (by decide))
    rw [htext] at hempty
    exact absurd hempty (by decide)
  · intro b hb
    exact ⟨by simpa using List.all_eq_true.mp hascii b hb, by
      simpa using List.any_eq_false.mp hcontrol b hb⟩

/-- The block is the header of an empty file. -/
theorem headerBlock_emptyFileBlock {path : BundlePath}
    (h : (Text.bytes path.text).length ≤ 100) :
    HeaderBlock (emptyFileBlock path) ⟨path, 0, .file⟩ := by
  have hlength := nameField_length h
  have hfield := @field_nameField_append path h
    (emptyFileFields (((Text.bytes path.text).map UInt8.toNat).sum + 1007))
  obtain ⟨hmode, huser, hgroup, hsize, hmodified, hchecksum⟩ :=
    emptyFileFields_fields (((Text.bytes path.text).map UInt8.toNat).sum + 1007)
  obtain ⟨hlink, hmagic, hversion, huserName, hgroupName, hmajor, hminor, hprefix, htail⟩ :=
    emptyFileFields_tail (((Text.bytes path.text).map UInt8.toNat).sum + 1007)
  obtain ⟨hnonempty, hprintable⟩ := bundlePath_printable path
  obtain ⟨hdigits, hvalue⟩ := octalText_spells (emptyFileBlock_checksum_lt h)
  have hnumber : ∀ {start stop count}, 100 ≤ start →
      field (emptyFileFields (((Text.bytes path.text).map UInt8.toNat).sum + 1007)) (start - 100)
        (stop - 100) = zeros count →
      ∃ value, OctalField true (field (emptyFileBlock path) start stop) value := by
    intro start stop count hstart hzeros
    rw [emptyFileBlock, hfield hstart, hzeros]
    exact ⟨0, octalField_zeros count⟩
  constructor
  · rw [emptyFileBlock, List.length_append, hlength, emptyFileFields_length]
    rfl
  · rw [blockSum_emptyFileBlock h, emptyFileBlock, hfield (by decide), hchecksum]
    exact ⟨[], _, [0, 32], (List.nil_append _).symm, by simp, by simp [isBlank], hdigits,
      by simp [octalText], hvalue.symm⟩
  · rw [emptyFileBlock, hfield (by decide), hmagic]
  · rw [emptyFileBlock, hfield (by decide), hversion]
  · intro b hb
    rw [emptyFileBlock, hfield (by decide), htail] at hb
    exact mem_zeros hb
  · intro range hrange
    simp only [List.mem_cons, List.not_mem_nil, or_false] at hrange
    rcases hrange with rfl | rfl | rfl | rfl
    · exact hnumber (by decide) hmode
    · exact hnumber (by decide) huser
    · exact hnumber (by decide) hgroup
    · exact hnumber (by decide) hmodified
  · rw [emptyFileBlock, hfield (by decide), hsize]
    exact ⟨[], [48], zeros 11, rfl, by simp, fun b hb => by rw [mem_zeros hb]; rfl,
      by simp [isOctalDigit, UInt8.le_iff_toNat_le], by simp, rfl⟩
  · rw [emptyFileBlock, hfield (by decide), hmajor]
    exact octalField_zeros 8
  · rw [emptyFileBlock, hfield (by decide), hminor]
    exact octalField_zeros 8
  · rw [emptyFileBlock, hfield (by decide), huserName]
    exact ⟨[], textField_zeros 32⟩
  · rw [emptyFileBlock, hfield (by decide), hgroupName]
    exact ⟨[], textField_zeros 32⟩
  · rw [emptyFileBlock, hfield (by decide), hlink]
    exact textField_zeros 100
  · refine ⟨48, ?_, .file⟩
    rw [emptyFileBlock, List.getElem?_append_right (by omega), hlength]
    rfl
  · refine ⟨Text.bytes path.text, [], ?_, hnonempty, ?_, rfl⟩
    · have hname : field (emptyFileBlock path) 0 100 = nameField path := by
        rw [field, emptyFileBlock, List.drop_zero]
        exact List.take_left' hlength
      rw [hname]
      exact ⟨⟨_, rfl, fun _ hb => mem_zeros hb⟩, hprintable⟩
    · rw [emptyFileBlock, hfield (by decide), hprefix]
      exact textField_zeros 155

def emptyFile (path : BundlePath) : CandidateFile := ⟨path, [], Nat.zero_le _⟩

def emptyFileEntry (path : BundlePath) (h : (Text.bytes path.text).length ≤ 100) : Entry where
  block := emptyFileBlock path
  header := ⟨path, 0, .file⟩
  data := []
  isHeader := headerBlock_emptyFileBlock h
  size := rfl
  directory := by simp
  bounded := Nat.zero_le _

/-- The archive of empty files with these paths. -/
def emptyFilesArchive (paths : List BundlePath) : Bytes :=
  paths.flatMap emptyFileBlock ++ zeros 1024

theorem exists_emptyFileEntries {paths : List BundlePath}
    (h : ∀ path ∈ paths, (Text.bytes path.text).length ≤ 100) :
    ∃ entries : List Entry, (∀ e ∈ entries, e.header.kind = .file ∧ e.data = []) ∧
      entries.map Entry.path = paths ∧ layout entries = paths.flatMap emptyFileBlock ∧
        entries.filterMap Entry.candidate = paths.map emptyFile := by
  induction paths with
  | nil => exact ⟨[], by simp, rfl, rfl, rfl⟩
  | cons path paths ih =>
      have hpath := h path List.mem_cons_self
      obtain ⟨entries, hkind, hpaths, hlayout, hcandidates⟩ :=
        ih fun p hp => h p (List.mem_cons_of_mem _ hp)
      have hbytes : (emptyFileEntry path hpath).bytes = emptyFileBlock path := by
        simp [Entry.bytes, emptyFileEntry, paddedLength, ustarBlockBytes]
      have hlayout' : layout (emptyFileEntry path hpath :: entries) =
          (path :: paths).flatMap emptyFileBlock := by
        rw [List.flatMap_cons, ← hlayout, ← hbytes]
        exact List.flatMap_cons
      have hcandidate : (emptyFileEntry path hpath).candidate = some (emptyFile path) := rfl
      refine ⟨emptyFileEntry path hpath :: entries, ?_, ?_, hlayout', ?_⟩
      · intro e he
        rcases List.mem_cons.mp he with rfl | he
        · exact ⟨rfl, rfl⟩
        · exact hkind e he
      · rw [List.map_cons, hpaths]
        rfl
      · rw [List.filterMap_cons_some hcandidate, hcandidates, List.map_cons]

theorem layout_aligned (entries : List Entry) :
    (layout entries).length % ustarBlockBytes = 0 := by
  induction entries with
  | nil => rfl
  | cons e rest ih =>
      have hlength : (layout (e :: rest)).length = e.bytes.length + (layout rest).length := by
        simp [layout]
      rw [hlength, e.bytes_length]
      simp only [paddedLength, ustarBlockBytes] at ih ⊢
      omega

/-- A portable manifest of short paths, none nested too deep, has an archive that loads. -/
theorem load_emptyFilesArchive {manifest : BundleManifest} (hportable : Portable manifest)
    (hshort : ∀ path ∈ manifest.files.map (·.path), (Text.bytes path.text).length ≤ 100)
    (hnested : ∀ path ∈ manifest.files.map (·.path), nesting path ≤ maxUstarNesting) :
    (UstarCandidateSource.mk (emptyFilesArchive (manifest.files.map (·.path)))).load manifest =
      .ok ((manifest.files.map (·.path)).map emptyFile) := by
  obtain ⟨entries, hkind, hpaths, hlayout, hcandidates⟩ := exists_emptyFileEntries hshort
  have hdistinct := manifest.accepted.distinct
  have hpath : ∀ e ∈ entries, e.path ∈ manifest.files.map (·.path) := by
    intro e he
    rw [← hpaths]
    exact List.mem_map_of_mem he
  have hadmitted : Admitted manifest entries := by
    constructor
    · have hcount := manifest.accepted.count
      have hmax := BundleLimits.default.files_le
      have hlength := congrArg List.length hpaths
      simp only [List.length_map, maxBundleFiles, maxUstarEntries] at hcount hmax hlength ⊢
      omega
    · intro e he
      exact hnested _ (hpath e he)
    · have hsum : (entries.map (·.data.length)).sum = 0 := by
        rw [List.sum_eq_zero_iff]
        intro n hn
        obtain ⟨e, he, rfl⟩ := List.mem_map.mp hn
        rw [(hkind e he).2]
        rfl
      rw [hsum]
      exact Nat.zero_le _
    · have hkeys : (entries.map fun e => logicalKey e.path) =
          (manifest.files.map (·.path)).map logicalKey := by
        rw [← hpaths, List.map_map]
        rfl
      rw [hkeys]
      apply hdistinct.map_on
      intro p hp q hq hkey
      exact (hportable p .file q .file hp hq hkey).1
    · intro e he
      rw [(hkind e he).1]
      exact hpath e he
  have honce : ∀ file ∈ manifest.files,
      entries.countP (fun e => e.header.kind = .file ∧ e.path = file.path) = 1 := by
    intro file hfile
    rw [hadmitted.once_iff]
    have hmem : file.path ∈ entries.map Entry.path := by
      rw [hpaths]
      exact List.mem_map_of_mem hfile
    obtain ⟨e, he, heq⟩ := List.mem_map.mp hmem
    exact ⟨e, he, (hkind e he).1, heq⟩
  have harchive : IsArchive (emptyFilesArchive (manifest.files.map (·.path))) manifest entries := by
    refine ⟨⟨zeros 1024, by rw [emptyFilesArchive, hlayout], ?_⟩, ?_, hportable, hadmitted, honce⟩
    · exact ⟨by rw [zeros_length]; decide, fun _ hb => mem_zeros hb⟩
    · have hblocks := layout_aligned entries
      rw [emptyFilesArchive, ← hlayout, List.length_append, zeros_length]
      simp only [ustarBlockBytes] at hblocks ⊢
      omega
  exact parseUstar_eq_ok.mpr ⟨entries, harchive, hcandidates.symm⟩

/-- Such an archive is taken as a source. -/
theorem new_emptyFilesArchive {paths : List BundlePath}
    (hshort : ∀ path ∈ paths, (Text.bytes path.text).length ≤ 100) (hne : paths ≠ [])
    (hcount : paths.length ≤ maxUstarEntries) :
    UstarCandidateSource.new (emptyFilesArchive paths) = .ok ⟨emptyFilesArchive paths⟩ := by
  have hstart : startsWithAcceptedUstarHeader (emptyFilesArchive paths) = true := by
    cases paths with
    | nil => exact absurd rfl hne
    | cons path paths =>
        rw [emptyFilesArchive, List.flatMap_cons, List.append_assoc]
        exact startsWithAcceptedUstarHeader_block
          (headerBlock_emptyFileBlock (hshort path List.mem_cons_self)) _
  have hlength : (emptyFilesArchive paths).length ≤ maxUstarArchiveBytes := by
    obtain ⟨entries, hkind, hpaths, hlayout, _⟩ := exists_emptyFileEntries hshort
    have hsum : (entries.map (·.data.length)).sum = 0 := by
      rw [List.sum_eq_zero_iff]
      intro n hn
      obtain ⟨e, he, rfl⟩ := List.mem_map.mp hn
      rw [(hkind e he).2]
      rfl
    have hbound := layout_length entries
    have hentries := congrArg List.length hpaths
    rw [List.length_map] at hentries
    rw [emptyFilesArchive, ← hlayout, List.length_append, zeros_length]
    simp only [maxUstarEntries, maxUstarArchiveBytes] at hcount ⊢
    omega
  rw [UstarCandidateSource.new, rejectIf_of_not _ (by simp [hstart]), ok_bind,
    rejectIf_of_not _ (Nat.not_lt.mpr hlength)]
  rfl

end Invokrum.Archive
