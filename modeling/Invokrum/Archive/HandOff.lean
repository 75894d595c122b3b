import Invokrum.Acquisition.FailureOrder
import Invokrum.Archive.Source
import Invokrum.Base.Avoided

/-!
# From an archive to a verified candidate

The limits of the parser are chosen so that what it accepts always fits the
verification that follows: only the contents of the files can still be wrong.
The entries of an archive are determined by its bytes, and their order does not
matter.
-/

namespace Invokrum.Archive

open Outcome Slice Machine Loop Invokrum.Distribution
open Acquisition (CandidateFile CandidateVerificationError verifyCandidate)
open Text (Bytes)

/-! ## The metadata limit -/

@[simp] abbrev metadataLimit : Halt ArchiveCandidateError := .returned .metadataLimitExceeded

theorem parseOctal_avoids (field : Bytes) (allowEmpty : Bool) :
    Avoids metadataLimit (parseOctal field allowEmpty) := by
  have hloop : ∀ (digits : Bytes) (value : Nat), Avoids metadataLimit (octalDigits value digits) := by
    intro digits
    induction digits with
    | nil => exact fun value => .ok value
    | cons byte rest ih => exact fun value => (Avoids.okOr _ (by simp)).bind fun next _ => ih next
  unfold parseOctal
  apply Avoids.bind (Avoids.okOr _ (by simp))
  intro digits _
  split
  · split
    · exact .ok 0
    · exact .error (by simp)
  · exact (Avoids.rejectIf _ (by simp)).bind fun _ _ => hloop digits 0

theorem parseTextField_avoids (field : Bytes) : Avoids metadataLimit (parseTextField field) := by
  rw [parseTextField_eq]
  exact (Avoids.rejectIf _ (by simp)).bind fun _ _ => (Avoids.rejectIf _ (by simp)).bind fun _ _ => .ok _

theorem ignoreOctal_avoids (field : Bytes) : Avoids metadataLimit (ignoreOctal field) :=
  (parseOctal_avoids field true).bind fun _ _ => .ok ()

theorem typeFlag_avoids (flag : UInt8) : Avoids metadataLimit (typeFlag flag) := by
  unfold typeFlag
  split
  · exact .ok _
  · split
    · exact .ok _
    · split
      · exact .error (by simp)
      · exact .error (by simp)

/-- No header reports the metadata limit. -/
theorem parseHeader_avoids (block : Bytes) : Avoids metadataLimit (parseHeader block) := by
  by_cases hlength : block.length = ustarBlockBytes
  · have hstop : block.length = 512 := hlength
    simp (disch := decide) only [parseHeader, hstop, indexRange_block hlength, ok_bind,
      checksumFrom_block hlength]
    refine (Avoids.rejectIf _ (by simp)).bind fun _ _ => ?_
    refine (parseOctal_avoids _ _).bind fun _ _ => ?_
    refine (Avoids.rejectIf _ (by simp)).bind fun _ _ => ?_
    refine (Avoids.rejectIf _ (by simp)).bind fun _ _ => ?_
    refine (Avoids.rejectIf _ (by simp)).bind fun _ _ => ?_
    refine (Avoids.forEach ignoreOctal_avoids _).bind fun _ _ => ?_
    refine (parseOctal_avoids _ _).bind fun _ _ => ?_
    refine (parseOctal_avoids _ _).bind fun _ _ => ?_
    refine (parseOctal_avoids _ _).bind fun _ _ => ?_
    refine (Avoids.rejectIf _ (by simp)).bind fun _ _ => ?_
    refine (parseTextField_avoids _).bind fun _ _ => ?_
    refine (parseTextField_avoids _).bind fun _ _ => ?_
    refine (parseTextField_avoids _).bind fun _ _ => ?_
    refine (Avoids.rejectIf _ (by simp)).bind fun _ _ => ?_
    refine (Avoids.okOr _ (by simp)).bind fun _ _ => ?_
    refine (typeFlag_avoids _).bind fun _ _ => ?_
    refine (parseTextField_avoids _).bind fun _ _ => ?_
    refine (Avoids.rejectIf _ (by simp)).bind fun _ _ => ?_
    refine (parseTextField_avoids _).bind fun _ _ => ?_
    refine (Avoids.okOr _ (by simp)).bind fun _ _ => ?_
    exact (Avoids.mapError (by simp)).bind fun _ _ => .ok _
  · rw [parseHeader, rejectIf_of _ hlength, error_bind]
    exact .error (by simp)

/-- Metadata that fits a word and the limit is counted. -/
theorem addMetadataBytes_avoids {total additional limit : Nat}
    (hword : total + additional < wordSize) (hlimit : total + additional ≤ limit) :
    Avoids metadataLimit (addMetadataBytes total additional limit) := by
  rw [addMetadataBytes_eq_ok.mpr ⟨hword, hlimit, rfl⟩]
  exact .ok _

section Steps

variable {archive : Bytes} {expected : ExpectedTree} {limits : ParserLimits}
  {manifest : BundleManifest} {done : List Entry}

/-- The trailer of at most 1024 entries is counted. -/
theorem archiveTerminated_avoids {block : Bytes} {blockEnd : Nat} (hdone : Admitted manifest done) :
    Avoids metadataLimit (archiveTerminated archive block blockEnd (stateAfter done).metadataBytes
      ParserLimits.default.metadataBytes) := by
  have hcount := hdone.count
  have hmetadata : (stateAfter done).metadataBytes = done.length * 512 := rfl
  have hlimit : ParserLimits.default.metadataBytes = 525312 := rfl
  simp only [maxUstarEntries] at hcount
  unfold archiveTerminated
  split
  · exact .ok false
  · refine (Avoids.okOr _ (by simp)).bind fun _ _ => ?_
    refine (Avoids.okOr _ (by simp)).bind fun _ _ => ?_
    refine (Avoids.rejectIf _ (by simp)).bind fun _ _ => ?_
    refine (addMetadataBytes_avoids ?_ ?_).bind fun _ _ => ?_
    · simp only [ustarBlockBytes, wordSize]
      omega
    · simp only [ustarBlockBytes]
      omega
    · refine (Avoids.okOr _ (by simp)).bind fun _ _ => ?_
      exact (Avoids.rejectIf _ (by simp)).bind fun _ _ => .ok true

/-- The header after at most 1024 entries is counted, or refused as one too many. -/
theorem acceptHeader_avoids {block : Bytes} :
    Avoids metadataLimit (acceptHeader expected .default (stateAfter done) block) := by
  have hmetadata : (stateAfter done).metadataBytes = done.length * 512 := rfl
  have hentries : (stateAfter done).entryCount = done.length := rfl
  have hmax : ParserLimits.default.entries = 1024 := rfl
  have hlimit : ParserLimits.default.metadataBytes = 525312 := rfl
  refine (Avoids.okOr _ (by simp)).bind fun count hcount => ?_
  refine (Avoids.rejectIf _ (by simp)).bind fun _ hwithin => ?_
  obtain ⟨_, rfl⟩ := checkedAdd_eq_some.mp (okOr_eq_ok.mp hcount)
  have hcount := rejectIf_eq_ok.mp hwithin
  refine (addMetadataBytes_avoids ?_ ?_).bind fun _ _ => ?_
  · simp only [ustarBlockBytes, wordSize]
    omega
  · simp only [ustarBlockBytes]
    omega
  · refine (parseHeader_avoids block).bind fun _ _ => ?_
    refine (Avoids.rejectIf _ (by simp)).bind fun _ _ => ?_
    refine (Avoids.rejectIf _ (by simp)).bind fun _ _ => ?_
    exact (Avoids.rejectIf _ (by simp)).bind fun _ _ => .ok _

theorem takeFile_avoids (header : ParsedHeader) (state : ParserState) (blockEnd : Nat) :
    Avoids metadataLimit (takeFile archive limits header state blockEnd) := by
  refine (Avoids.rejectIf _ (by simp)).bind fun _ _ => ?_
  refine (Avoids.okOr _ (by simp)).bind fun _ _ => ?_
  refine (Avoids.rejectIf _ (by simp)).bind fun _ _ => ?_
  refine (Avoids.okOr _ (by simp)).bind fun _ _ => ?_
  refine (Avoids.okOr _ (by simp)).bind fun _ _ => ?_
  refine (Avoids.okOr _ (by simp)).bind fun _ _ => ?_
  refine (Avoids.okOr _ (by simp)).bind fun _ _ => ?_
  refine (Avoids.okOr _ (by simp)).bind fun _ _ => ?_
  refine (Avoids.rejectIf _ (by simp)).bind fun _ _ => ?_
  exact (Avoids.mapError (by simp)).bind fun _ _ => .ok _

theorem parseStep_avoids (hdone : Admitted manifest done) :
    Avoids metadataLimit (parseStep archive expected .default (stateAfter done)) := by
  refine (Avoids.okOr _ (by simp)).bind fun blockEnd _ => ?_
  refine (Avoids.okOr _ (by simp)).bind fun block _ => ?_
  refine (archiveTerminated_avoids hdone).bind fun ended _ => ?_
  cases ended with
  | true => exact .ok none
  | false =>
      refine acceptHeader_avoids.bind fun accepted _ => ?_
      by_cases hkind : accepted.1.kind = .directory
      · simp only [hkind, if_true]
        exact (Avoids.rejectIf _ (by simp)).bind fun _ _ => .ok _
      · simp only [hkind, if_false]
        exact (takeFile_avoids _ _ _).bind fun _ _ => .ok _

theorem fromManifest_avoids (manifest : BundleManifest) :
    Avoids metadataLimit (ExpectedTree.fromManifest manifest) := by
  obtain ⟨parents, hparents, _⟩ := parents_ok manifest
  rw [ExpectedTree.fromManifest, hparents, ok_bind]
  exact (Avoids.rejectDuplicatesFrom _ (by simp) _ _).bind fun _ _ => .ok _

end Steps

/-- Under the default limits the metadata limit is never reported, on any input. -/
theorem parseUstar_avoids (archive : Bytes) (manifest : BundleManifest) :
    Avoids metadataLimit (parseUstar archive manifest .default) := by
  refine (Avoids.rejectIf _ (by simp)).bind fun _ _ => ?_
  refine (fromManifest_avoids manifest).bind fun expected hexpected => ?_
  have htree := (fromManifest_eq_ok hexpected).2
  refine Avoids.bind ?_ fun final _ => ?_
  · apply Avoids.runLoop (Reached archive manifest) _ _ (reached_initial archive manifest)
    · intro state hstate
      obtain ⟨done, _, _, hdone, rfl⟩ := hstate
      exact parseStep_avoids hdone
    · intro state next hstate hstep
      exact (reached_step htree hstate hstep).1
  · exact (Avoids.forEach (fun _ => Avoids.rejectIf _ (by simp)) _).bind fun _ _ => .ok _

/-! ## The entries of an archive -/

/-- The bytes of an entry determine it. -/
theorem Entry.eq_of_bytes {e e' : Entry} {rest rest' : Bytes}
    (h : e.bytes ++ rest = e'.bytes ++ rest') : e = e' ∧ rest = rest' := by
  simp only [Entry.bytes, List.append_assoc] at h
  obtain ⟨hblock, htail⟩ := List.append_inj h (e.isHeader.length.trans e'.isHeader.length.symm)
  have hheader : e.header = e'.header := by
    have hparse := parseHeader_eq_ok.mpr e.isHeader
    rw [hblock, parseHeader_eq_ok.mpr e'.isHeader] at hparse
    exact (Except.ok.inj hparse).symm
  have hsize : e.data.length = e'.data.length := by
    rw [e.size, e'.size, hheader]
  obtain ⟨hdata, htail⟩ := List.append_inj htail hsize
  rw [hdata] at htail
  have hrest := (List.append_inj htail rfl).2
  cases e; cases e'
  cases hblock; cases hheader; cases hdata
  exact ⟨rfl, hrest⟩

/-- No trailer starts with an entry. -/
theorem Entry.not_trailer (e : Entry) (rest : Bytes) : ¬ Trailer (e.bytes ++ rest) := by
  intro h
  have hzero : isZeroBlock e.block = true := by
    rw [isZeroBlock_iff]
    intro b hb
    apply h.zero
    simp [Entry.bytes, hb]
  rw [e.isHeader.not_zero] at hzero
  cases hzero

/-- An archive is a sequence of entries in one way. -/
theorem layout_unique {entries entries' : List Entry} {trailer trailer' : Bytes}
    (htrailer : Trailer trailer) (htrailer' : Trailer trailer')
    (h : layout entries ++ trailer = layout entries' ++ trailer') :
    entries = entries' ∧ trailer = trailer' := by
  have hcons : ∀ (e : Entry) rest tail, layout (e :: rest) ++ tail =
      e.bytes ++ (layout rest ++ tail) := fun e rest tail => by simp [layout]
  induction entries generalizing entries' with
  | nil =>
      cases entries' with
      | nil => exact ⟨rfl, h⟩
      | cons e' rest' =>
          rw [hcons] at h
          have htail : trailer = e'.bytes ++ (layout rest' ++ trailer') := h
          exact absurd (htail ▸ htrailer) (e'.not_trailer _)
  | cons e rest ih =>
      cases entries' with
      | nil =>
          rw [hcons] at h
          have htail : e.bytes ++ (layout rest ++ trailer) = trailer' := h
          exact absurd (htail ▸ htrailer') (e.not_trailer _)
      | cons e' rest' =>
          rw [hcons, hcons] at h
          obtain ⟨hentry, hrest⟩ := Entry.eq_of_bytes h
          obtain ⟨hentries, htail⟩ := ih hrest
          exact ⟨by rw [hentry, hentries], htail⟩

section Entries

variable {manifest : BundleManifest} {entries entries' : List Entry} {trailer : Bytes}

theorem Admitted.of_perm (h : Admitted manifest entries) (hperm : entries.Perm entries') :
    Admitted manifest entries' where
  count := hperm.length_eq ▸ h.count
  nested := fun e he => h.nested e (hperm.mem_iff.mpr he)
  expanded := (hperm.map fun e => e.data.length).sum_eq ▸ h.expanded
  distinct := (hperm.map fun e => logicalKey e.path).nodup_iff.mp h.distinct
  declared := fun e he => h.declared e (hperm.mem_iff.mpr he)

/-- The entries of an archive in another order are an archive for the same manifest. -/
theorem IsArchive.of_perm (h : IsArchive (layout entries ++ trailer) manifest entries)
    (htrailer : Trailer trailer) (hperm : entries.Perm entries') :
    IsArchive (layout entries' ++ trailer) manifest entries' where
  laidOut := ⟨trailer, rfl, htrailer⟩
  aligned := by
    have haligned := h.aligned
    have hlayout := layout_aligned entries
    have hlayout' := layout_aligned entries'
    simp only [List.length_append, ustarBlockBytes] at haligned hlayout hlayout' ⊢
    omega
  portable := h.portable
  admitted := h.admitted.of_perm hperm
  once := fun file hfile => (hperm.countP_eq _).symm.trans (h.once file hfile)

/-- The files of admitted entries hold at most the bytes of the entries. -/
theorem candidates_sum_le (entries : List Entry) :
    ((entries.filterMap Entry.candidate).map (·.bytes.length)).sum ≤
      (entries.map (·.data.length)).sum := by
  induction entries with
  | nil => exact Nat.le_refl _
  | cons e rest ih =>
      rw [List.map_cons, List.sum_cons]
      cases hcandidate : e.candidate with
      | none =>
          rw [List.filterMap_cons_none hcandidate]
          omega
      | some file =>
          obtain ⟨_, rfl⟩ := candidate_eq_some.mp hcandidate
          rw [List.filterMap_cons_some hcandidate, List.map_cons, List.sum_cons]
          simp only
          omega

/-- A manifest names a file, so an archive for it has an entry. -/
theorem IsArchive.entries_ne {archive : Bytes} (h : IsArchive archive manifest entries) :
    entries ≠ [] := by
  intro hnil
  obtain ⟨file, hfile⟩ := List.exists_mem_of_ne_nil _ manifest.accepted.nonempty
  have honce := h.once file hfile
  rw [hnil] at honce
  cases honce

end Entries

/-! ## What can still fail -/

/-- The errors about the contents of a candidate. -/
inductive OfContents : CandidateVerificationError → Prop where
  | subject : OfContents .subjectMismatch
  | length (path : BundlePath) (expected actual : Nat) :
      OfContents (.lengthMismatch path expected actual)
  | digest (path : BundlePath) : OfContents (.digestMismatch path)

/-- Loaded files fit the verification: their number, sizes and paths are right. -/
theorem verifyCandidate_ofContents {source : UstarCandidateSource} {manifest : BundleManifest}
    {files : List CandidateFile} (h : source.load manifest = .ok files)
    {manifestSubject expectedSubject : Sha256Digest} {e : CandidateVerificationError}
    (herror : verifyCandidate manifest manifestSubject expectedSubject files = .error e) :
    OfContents e := by
  by_cases hsubject : manifestSubject = expectedSubject
  · subst hsubject
    have hpaths := (load_eq_ok h).paths
    have hcount : files.length ≤ maxBundleFiles := by
      have hmanifest := manifest.accepted.count
      have hmax := BundleLimits.default.files_le
      have hlength := hpaths.length_eq
      rw [List.length_map, List.length_map] at hlength
      omega
    have hexpanded : (files.map (·.bytes.length)).sum ≤ maxBundleExpandedBytes := by
      obtain ⟨entries, harchive, rfl⟩ := parseUstar_eq_ok.mp h
      exact Nat.le_trans (candidates_sum_le entries) harchive.admitted.expanded
    have hdistinct := hpaths.nodup_iff.mpr manifest.accepted.distinct
    have hnone : ∀ path, ¬ Acquisition.PathDefect manifest.files files path := by
      intro path hdefect
      exact hdefect hpaths.mem_iff.symm
    rcases Acquisition.verifyCandidate_smallest manifestSubject hcount hexpanded hdistinct with
      ⟨bundle, hok, _⟩ | ⟨e', path, herror', hsmallest⟩
    · rw [hok] at herror
      cases herror
    · rw [herror', Except.error.injEq] at herror
      subst herror
      cases hsmallest.reports with
      | missing hpath => exact absurd hpath (hnone path)
      | undeclared hpath => exact absurd hpath (hnone path)
      | length expected actual _ => exact .length path expected actual
      | digest _ => exact .digest path
  · rw [verifyCandidate, rejectIf_of _ hsubject, error_bind, Except.error.injEq] at herror
    subst herror
    exact .subject

/-! ## Taking an accepted archive as a source -/

/-- What starts with a header is not refused as compressed. -/
theorem IsArchive.new_eq {archive : Bytes} {manifest : BundleManifest} {entries : List Entry}
    (h : IsArchive archive manifest entries) : UstarCandidateSource.new archive =
      rejectIf (maxUstarArchiveBytes < archive.length) .archiveTooLarge >>= fun _ =>
        .ok ⟨archive⟩ := by
  obtain ⟨trailer, hlaidOut, _⟩ := h.laidOut
  have hstart : startsWithAcceptedUstarHeader archive = true := by
    cases entries with
    | nil => exact absurd rfl h.entries_ne
    | cons e rest =>
        rw [hlaidOut, layout, List.flatMap_cons, Entry.bytes, List.append_assoc, List.append_assoc]
        exact startsWithAcceptedUstarHeader_block e.isHeader _
  rw [UstarCandidateSource.new, rejectIf_of_not _ (by simp [hstart]), ok_bind]
  rfl

/-- The four limits meet: the largest payload, its padding, the headers and two zero blocks
fill the archive bound. -/
theorem Admitted.archive_length_le {manifest : BundleManifest} {entries : List Entry}
    (h : Admitted manifest entries) {trailer : Bytes} (htrailer : trailer.length = 1024) :
    (layout entries ++ trailer).length ≤ maxUstarArchiveBytes := by
  have hcount := h.count
  have hexpanded := h.expanded
  simp only [maxUstarEntries, maxBundleExpandedBytes] at hcount hexpanded
  calc (layout entries ++ trailer).length = (layout entries).length + 1024 := by
        rw [List.length_append, htrailer]
    _ ≤ 1023 * entries.length + (entries.map (·.data.length)).sum + 1024 :=
        Nat.add_le_add_right (layout_length entries) 1024
    _ ≤ maxUstarArchiveBytes := by
        simp only [maxUstarArchiveBytes]
        omega

/-- The entries of an accepted archive: they and the trailer are determined by its bytes,
their order does not matter to the verification, and the shortest trailer keeps the archive
within the input bound. -/
structure HandsOver (source : UstarCandidateSource) (manifest : BundleManifest)
    (files : List CandidateFile) (entries : List Entry) (trailer : Bytes) : Prop where
  laidOut : source.bytes = layout entries ++ trailer
  terminated : Trailer trailer
  unique : ∀ entries' trailer', source.bytes = layout entries' ++ trailer' → Trailer trailer' →
    entries' = entries ∧ trailer' = trailer
  reordered : ∀ entries', entries.Perm entries' → ∃ files',
    UstarCandidateSource.load ⟨layout entries' ++ trailer⟩ manifest = .ok files' ∧
      ∀ manifestSubject expectedSubject,
        verifyCandidate manifest manifestSubject expectedSubject files' =
          verifyCandidate manifest manifestSubject expectedSubject files
  admitted : trailer.length = 2 * ustarBlockBytes →
    source.bytes.length ≤ maxUstarArchiveBytes ∧
      UstarCandidateSource.new source.bytes = .ok source

theorem handsOver_of_load {source : UstarCandidateSource} {manifest : BundleManifest}
    {files : List CandidateFile} (h : source.load manifest = .ok files) :
    ∃ entries trailer, HandsOver source manifest files entries trailer := by
  obtain ⟨entries, harchive, rfl⟩ := parseUstar_eq_ok.mp h
  obtain ⟨trailer, hlaidOut, htrailer⟩ := harchive.laidOut
  refine ⟨entries, trailer, ⟨hlaidOut, htrailer, ?_, ?_, ?_⟩⟩
  · intro entries' trailer' hlaidOut' htrailer'
    exact layout_unique htrailer' htrailer (hlaidOut'.symm.trans hlaidOut)
  · intro entries' hperm
    have harchive' := (hlaidOut ▸ harchive).of_perm htrailer hperm
    refine ⟨entries'.filterMap Entry.candidate,
      parseUstar_eq_ok.mpr ⟨entries', harchive', rfl⟩, ?_⟩
    intro manifestSubject expectedSubject
    exact Acquisition.verifyCandidate_eq_of_perm manifest manifestSubject expectedSubject
      (hperm.symm.filterMap _)
  · intro hlength
    have hbound : source.bytes.length ≤ maxUstarArchiveBytes := by
      rw [hlaidOut]
      exact harchive.admitted.archive_length_le hlength
    refine ⟨hbound, ?_⟩
    rw [harchive.new_eq, rejectIf_of_not _ (Nat.not_lt.mpr hbound), ok_bind]

/-- The metadata limit is never reported; what loads fails verification on its contents
only, whatever the order of its entries; it is not taken for a compressed archive, and with
the shortest trailer it is taken as a source. -/
theorem load_handsOver (manifest : BundleManifest) :
    (∀ archive, parseUstar archive manifest .default ≠
      .error (.returned .metadataLimitExceeded)) ∧
    ∀ source files, UstarCandidateSource.load source manifest = .ok files →
      (∀ manifestSubject expectedSubject e,
        verifyCandidate manifest manifestSubject expectedSubject files = .error e →
          OfContents e) ∧
      UstarCandidateSource.new source.bytes ≠ .error .compressedArchiveUnsupported ∧
      ∃ entries trailer, HandsOver source manifest files entries trailer := by
  refine ⟨fun archive => parseUstar_avoids archive manifest, fun source files h => ?_⟩
  refine ⟨fun _ _ _ herror => verifyCandidate_ofContents h herror, ?_, handsOver_of_load h⟩
  obtain ⟨entries, harchive, _⟩ := parseUstar_eq_ok.mp h
  rw [harchive.new_eq]
  intro hcompressed
  rcases bind_eq_error.mp hcompressed with hlarge | ⟨_, _, hok⟩
  · cases (rejectIf_eq_error.mp hlarge).2
  · cases hok

/-- The archive of two empty files loads. -/
theorem load_handsOver_sample : ∃ files,
    UstarCandidateSource.load
      ⟨emptyFilesArchive (Acquisition.twoFileManifest.files.map (·.path))⟩
      Acquisition.twoFileManifest = .ok files ∧
    ∃ entries trailer, HandsOver
      ⟨emptyFilesArchive (Acquisition.twoFileManifest.files.map (·.path))⟩
      Acquisition.twoFileManifest files entries trailer := by
  have hpaths : ∀ path ∈ Acquisition.twoFileManifest.files.map (·.path),
      path.text = "alpha" ∨ path.text = "beta" := by
    intro path hpath
    simp only [Acquisition.twoFileManifest, List.map_cons, List.map_nil, List.mem_cons,
      List.not_mem_nil, or_false] at hpath
    rcases hpath with rfl | rfl
    · exact .inl rfl
    · exact .inr rfl
  have hportable : Portable Acquisition.twoFileManifest := by
    apply portable_of_lowercase
    · intro path hpath
      rcases hpaths path hpath with h | h <;> rw [h] <;> simp
    · intro path _ other hother rest heq
      have hslash : '/' ∈ other.text.toList := by
        rw [heq]
        simp
      rcases hpaths other hother with h | h <;> rw [h] at hslash <;> simp at hslash
  have hload := load_emptyFilesArchive hportable
    (fun path hpath => by rcases hpaths path hpath with h | h <;> rw [h] <;> decide)
    (fun path hpath => by
      unfold nesting
      rcases hpaths path hpath with h | h <;> rw [h] <;> decide)
  exact ⟨_, hload, ((load_handsOver Acquisition.twoFileManifest).2 _ _ hload).2.2⟩

end Invokrum.Archive
