import Invokrum.Archive.Ustar

/-!
# The language of the ustar parser

An archive is a sequence of entries followed by zero blocks. `stateAfter` is the
loop state after a sequence of entries; a step of the parser appends one entry
to it, and the loop breaks exactly at the trailer.
-/

namespace Invokrum.Archive

open Outcome Slice Machine Loop Invokrum.Distribution
open Acquisition (CandidateFile)
open Text (Bytes)

/-! ## Entries -/

/-- A length rounded up to whole blocks. -/
def paddedLength (length : Nat) : Nat :=
  (length + (ustarBlockBytes - 1)) / ustarBlockBytes * ustarBlockBytes

theorem paddedLength_bounds (length : Nat) :
    length ≤ paddedLength length ∧ paddedLength length < length + 512 := by
  simp only [paddedLength, ustarBlockBytes]
  omega

/-- A header block and its data; a directory has none. -/
structure Entry where
  block : Bytes
  header : ParsedHeader
  data : Bytes
  isHeader : HeaderBlock block header
  size : data.length = header.size
  directory : header.kind = .directory → header.size = 0
  bounded : data.length ≤ maxBundleFileBytes

namespace Entry

/-- The header, the data and zero bytes up to the block boundary. -/
def bytes (e : Entry) : Bytes :=
  e.block ++ (e.data ++ List.replicate (paddedLength e.data.length - e.data.length) 0)

def path (e : Entry) : BundlePath := e.header.path

/-- The candidate file of a file entry. -/
def candidate (e : Entry) : Option CandidateFile :=
  if e.header.kind = .file then some ⟨e.path, e.data, e.bounded⟩ else none

theorem bytes_length (e : Entry) : e.bytes.length = 512 + paddedLength e.data.length := by
  have hbounds := paddedLength_bounds e.data.length
  have hblock : e.block.length = 512 := e.isHeader.length
  simp only [bytes, List.length_append, List.length_replicate]
  omega

end Entry

/-- The bytes of a sequence of entries. -/
def layout (entries : List Entry) : Bytes := entries.flatMap Entry.bytes

theorem layout_concat (done : List Entry) (e : Entry) :
    layout (done ++ [e]) = layout done ++ e.bytes := by
  simp [layout]

theorem layout_length (entries : List Entry) : (layout entries).length ≤
    1023 * entries.length + (entries.map (·.data.length)).sum := by
  induction entries with
  | nil => simp [layout]
  | cons e rest ih =>
      have hlength : (layout (e :: rest)).length = e.bytes.length + (layout rest).length := by
        simp [layout]
      have hbounds := paddedLength_bounds e.data.length
      rw [hlength, e.bytes_length, List.length_cons, List.map_cons, List.sum_cons]
      omega

/-- Two zero blocks, and only zero bytes after them. -/
structure Trailer (bytes : Bytes) : Prop where
  blocks : 2 * ustarBlockBytes ≤ bytes.length
  zero : ∀ b ∈ bytes, b = 0

/-- What the manifest and the limits require of the entries. -/
structure Admitted (manifest : BundleManifest) (entries : List Entry) : Prop where
  count : entries.length ≤ maxUstarEntries
  nested : ∀ e ∈ entries, nesting e.path ≤ maxUstarNesting
  expanded : (entries.map (·.data.length)).sum ≤ maxBundleExpandedBytes
  distinct : (entries.map fun e => logicalKey e.path).Nodup
  declared : ∀ e ∈ entries, Declared manifest e.path e.header.kind

/-- The bytes are an archive of these entries for the manifest. -/
structure IsArchive (archive : Bytes) (manifest : BundleManifest) (entries : List Entry) :
    Prop where
  laidOut : ∃ trailer, archive = layout entries ++ trailer ∧ Trailer trailer
  aligned : archive.length % ustarBlockBytes = 0
  portable : Portable manifest
  admitted : Admitted manifest entries
  once : ∀ file ∈ manifest.files,
    entries.countP (fun e => e.header.kind = .file ∧ e.path = file.path) = 1

/-- The loop state after these entries. -/
def stateAfter (entries : List Entry) : ParserState where
  cursor := (layout entries).length
  collisionKeys := (entries.map fun e => logicalKey e.path).reverse
  observedFiles := ((entries.filterMap Entry.candidate).map (·.path)).reverse
  candidates := entries.filterMap Entry.candidate
  entryCount := entries.length
  metadataBytes := entries.length * ustarBlockBytes
  expandedBytes := (entries.map (·.data.length)).sum

/-! ## What each part of a step does -/

theorem isZeroBlock_iff {block : Bytes} : isZeroBlock block = true ↔ ∀ b ∈ block, b = 0 := by
  simp [isZeroBlock]

theorem addMetadataBytes_eq_ok {total additional limit result : Nat} :
    addMetadataBytes total additional limit = .ok result ↔
      total + additional < wordSize ∧ total + additional ≤ limit ∧ result = total + additional := by
  simp only [addMetadataBytes, bind_eq_ok, okOr_eq_ok, checkedAdd_eq_some, rejectIf_eq_ok,
    exists_const, not_lt, pure, Except.pure, Except.ok.injEq]
  constructor
  · intro h
    obtain ⟨_, ⟨hword, rfl⟩, hlimit, rfl⟩ := h
    exact ⟨hword, hlimit, rfl⟩
  · intro h
    obtain ⟨hword, hlimit, rfl⟩ := h
    exact ⟨_, ⟨hword, rfl⟩, hlimit, rfl⟩

/-- A header block is not a zero block: its checksum field has a digit. -/
theorem HeaderBlock.not_zero {block : Bytes} {header : ParsedHeader}
    (h : HeaderBlock block header) : isZeroBlock block = false := by
  rw [← Bool.not_eq_true, isZeroBlock_iff]
  intro hzero
  obtain ⟨lead, digits, trail, hfield, _, _, hdigits, hempty, _⟩ := h.checksum.spelled
  have hmem : ∀ b ∈ digits, b ∈ block := by
    intro b hb
    have hin : b ∈ field block 148 156 := by
      rw [hfield]
      simp [hb]
    exact List.mem_of_mem_drop (List.mem_of_mem_take hin)
  cases digits with
  | nil => cases hempty rfl
  | cons b digits =>
      have hdigit := hdigits b List.mem_cons_self
      rw [hzero b (hmem b List.mem_cons_self)] at hdigit
      cases hdigit

theorem archiveTerminated_eq_false {archive block : Bytes} {blockEnd total limit : Nat} :
    archiveTerminated archive block blockEnd total limit = .ok false ↔
      isZeroBlock block = false := by
  unfold archiveTerminated
  by_cases h : isZeroBlock block = false
  · simp [h, pure, Except.pure]
  · simp [h, pure, Except.pure]

theorem archiveTerminated_eq_true {done block tail : Bytes} {total limit : Nat} :
    archiveTerminated (done ++ tail) block done.length total limit = .ok true ↔
      isZeroBlock block = true ∧ done.length + 512 < wordSize ∧ total + 1024 < wordSize ∧
        total + 1024 ≤ limit ∧ 512 ≤ tail.length ∧ ∀ b ∈ tail, b = 0 := by
  unfold archiveTerminated
  by_cases hblock : isZeroBlock block = false
  · simp [hblock, pure, Except.pure]
  · rw [if_neg hblock]
    simp only [bind_eq_ok, okOr_eq_ok, checkedAdd_eq_some, rejectIf_eq_ok,
      addMetadataBytes_eq_ok, ustarBlockBytes, exists_const, Bool.not_eq_false,
      isZeroBlock_iff] at hblock ⊢
    constructor
    · intro h
      obtain ⟨_, ⟨hword, rfl⟩, second, hsecond, hzero, _, ⟨htotal, hlimit, _⟩, rest, hrest, hany,
        _⟩ := h
      obtain ⟨hlength, rest', rfl⟩ := getRange_eq_some.mp hsecond
      rw [← List.append_assoc, ← hlength, ← List.length_append, indexRange_append,
        Except.ok.injEq] at hrest
      subst rest'
      refine ⟨hblock, hword, htotal, hlimit, by simp [hlength], ?_⟩
      intro b hb
      rcases List.mem_append.mp hb with hb | hb
      · exact hzero b hb
      · simp only [List.any_eq_true, not_exists, not_and, bne_iff_ne, ne_eq, not_not] at hany
        exact hany b hb
    · intro h
      obtain ⟨_, hword, htotal, hlimit, hlength, hzero⟩ := h
      have htake : (tail.take 512).length = 512 := by
        rw [List.length_take]
        omega
      have hsplit : tail = tail.take 512 ++ tail.drop 512 := (List.take_append_drop 512 tail).symm
      refine ⟨_, ⟨hword, rfl⟩, tail.take 512, getRange_eq_some.mpr ⟨htake, _, hsplit⟩, ?_, _,
        ⟨htotal, hlimit, rfl⟩, tail.drop 512, ?_, ?_, rfl⟩
      · intro b hb
        exact hzero b (List.mem_of_mem_take hb)
      · have hrange := indexRange_append (ε := ArchiveCandidateError) (done ++ tail.take 512)
          (tail.drop 512)
        rwa [List.length_append, htake, List.append_assoc, ← hsplit] at hrange
      · simp only [List.any_eq_true, not_exists, not_and, bne_iff_ne, ne_eq, not_not]
        intro b hb
        exact hzero b (List.mem_of_mem_drop hb)

/-- The state once a header has been accepted. -/
def ParserState.withHeader (state : ParserState) (header : ParsedHeader) : ParserState :=
  { state with
    collisionKeys := logicalKey header.path :: state.collisionKeys
    entryCount := state.entryCount + 1
    metadataBytes := state.metadataBytes + ustarBlockBytes }

theorem acceptHeader_eq_ok {expected : ExpectedTree} {limits : ParserLimits}
    {state state' : ParserState} {block : Bytes} {header : ParsedHeader} :
    acceptHeader expected limits state block = .ok (header, state') ↔
      state.entryCount + 1 < wordSize ∧ state.entryCount + 1 ≤ limits.entries ∧
        state.metadataBytes + 512 < wordSize ∧ state.metadataBytes + 512 ≤ limits.metadataBytes ∧
          HeaderBlock block header ∧ nesting header.path ≤ limits.nesting ∧
            logicalKey header.path ∉ state.collisionKeys ∧
              expected.contains header.path header.kind = true ∧
                state' = state.withHeader header := by
  simp only [acceptHeader, bind_eq_ok, okOr_eq_ok, checkedAdd_eq_some, rejectIf_eq_ok,
    addMetadataBytes_eq_ok, ustarBlockBytes, parseHeader_eq_ok, exists_const, not_lt,
    Bool.not_eq_false, pure, Except.pure, Except.ok.injEq, Prod.mk.injEq]
  constructor
  · intro h
    obtain ⟨_, ⟨hword, rfl⟩, hcount, _, ⟨hmetadata, hlimit, rfl⟩, _, hheader, hnesting, hkey,
      hcontains, rfl, rfl⟩ := h
    exact ⟨hword, hcount, hmetadata, hlimit, hheader, hnesting, hkey, hcontains, rfl⟩
  · intro h
    obtain ⟨hword, hcount, hmetadata, hlimit, hheader, hnesting, hkey, hcontains, rfl⟩ := h
    exact ⟨_, ⟨hword, rfl⟩, hcount, _, ⟨hmetadata, hlimit, rfl⟩, _, hheader, hnesting, hkey,
      hcontains, rfl, rfl⟩

/-- The state once a file's bytes have been taken. -/
def ParserState.withFile (state : ParserState) (cursor : Nat) (candidate : CandidateFile) :
    ParserState :=
  { state with
    cursor := cursor
    observedFiles := candidate.path :: state.observedFiles
    candidates := state.candidates ++ [candidate]
    expandedBytes := state.expandedBytes + candidate.bytes.length }

theorem candidateFile_new_eq_ok {path : BundlePath} {data : Bytes} {candidate : CandidateFile} :
    CandidateFile.new path data = .ok candidate ↔ candidate.path = path ∧ candidate.bytes = data := by
  unfold CandidateFile.new
  constructor
  · intro h
    split at h
    · cases h
    · cases h
      exact ⟨rfl, rfl⟩
  · intro h
    obtain ⟨rfl, rfl⟩ := h
    rw [dif_neg (Nat.not_lt.mpr candidate.bounded)]

/-- A checked slice holding only zero bytes. -/
theorem getRange_zeros (done rest : Bytes) (count : Nat) :
    (∃ padding, getRange (done ++ rest) done.length (done.length + count) = some padding ∧
      ¬ padding.any (· != 0) = true) ↔ ∃ tail, rest = List.replicate count 0 ++ tail := by
  constructor
  · intro h
    obtain ⟨padding, hrange, hany⟩ := h
    obtain ⟨hlength, tail, rfl⟩ := getRange_eq_some.mp hrange
    simp only [List.any_eq_true, not_exists, not_and, bne_iff_ne, ne_eq, not_not] at hany
    exact ⟨tail, by rw [List.eq_replicate_iff.mpr ⟨hlength, hany⟩]⟩
  · intro h
    obtain ⟨tail, rfl⟩ := h
    refine ⟨List.replicate count 0, getRange_eq_some.mpr ⟨List.length_replicate, tail, rfl⟩, ?_⟩
    simp

theorem takeFile_eq_ok {before rest : Bytes} {limits : ParserLimits} {header : ParsedHeader}
    {state state' : ParserState} :
    takeFile (before ++ rest) limits header state before.length = .ok state' ↔
      state.expandedBytes + header.size < wordSize ∧
        state.expandedBytes + header.size ≤ limits.expandedBytes ∧
          before.length + paddedLength header.size < wordSize ∧
            ∃ candidate : CandidateFile, ∃ tail, candidate.path = header.path ∧
              candidate.bytes.length = header.size ∧ rest = candidate.bytes ++
                (List.replicate (paddedLength header.size - header.size) 0 ++ tail) ∧
                  state' = state.withFile (before.length + paddedLength header.size) candidate := by
  have hbounds := paddedLength_bounds header.size
  have hend : ∀ data : Bytes, data.length = header.size →
      (before ++ data).length = before.length + header.size ∧
        (before ++ data).length + (paddedLength header.size - header.size) =
          before.length + paddedLength header.size := by
    intro data hdata
    rw [List.length_append, hdata]
    exact ⟨rfl, by omega⟩
  simp only [takeFile, bind_eq_ok, okOr_eq_ok, checkedAdd_eq_some, checkedMul_eq_some,
    rejectIf_eq_ok, mapError_eq_ok, candidateFile_new_eq_ok, exists_const, not_lt, pure,
    Except.pure, Except.ok.injEq]
  constructor
  · intro h
    obtain ⟨hsize, _, ⟨hword, rfl⟩, hlimit, _, ⟨_, rfl⟩, data, hdata, _, ⟨_, rfl⟩, _,
      ⟨hpadded, rfl⟩, padding, hpadding, hany, candidate, ⟨hpath, rfl⟩, rfl⟩ := h
    obtain ⟨hlength, tail, rfl⟩ := getRange_eq_some.mp hdata
    obtain ⟨hdataEnd, hpaddedEnd⟩ := hend _ hlength
    have hzeros := getRange_zeros (before ++ candidate.bytes) tail
      (paddedLength header.size - header.size)
    rw [List.append_assoc, hpaddedEnd, hdataEnd] at hzeros
    obtain ⟨tail', rfl⟩ := hzeros.mp ⟨padding, hpadding, hany⟩
    exact ⟨hword, hlimit, hpadded, candidate, tail', hpath, hlength, rfl,
      by simp [ParserState.withFile, hpath, hlength, paddedLength]⟩
  · intro h
    obtain ⟨hword, hlimit, hpadded, candidate, tail, hpath, hlength, rfl, rfl⟩ := h
    obtain ⟨hdataEnd, hpaddedEnd⟩ := hend _ hlength
    have hzeros := getRange_zeros (before ++ candidate.bytes)
      (List.replicate (paddedLength header.size - header.size) 0 ++ tail)
      (paddedLength header.size - header.size)
    rw [List.append_assoc, hpaddedEnd, hdataEnd] at hzeros
    obtain ⟨padding, hpadding, hany⟩ := hzeros.mpr ⟨tail, rfl⟩
    refine ⟨hlength ▸ candidate.bounded, _, ⟨hword, rfl⟩, hlimit, _, ⟨by omega, rfl⟩,
      candidate.bytes, getRange_eq_some.mpr ⟨hlength, _, rfl⟩, _, ⟨?_, rfl⟩, _, ⟨hpadded, rfl⟩,
      padding, hpadding, hany, candidate, ⟨hpath, rfl⟩, ?_⟩
    · exact Nat.lt_of_le_of_lt (Nat.le_add_left _ _) hpadded
    · simp [ParserState.withFile, hpath, hlength, paddedLength]

end Invokrum.Archive
