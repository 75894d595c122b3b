import Invokrum.Distribution.Bundle

/-!
# Candidate verification

`verifyCandidate` sorts the candidates and walks them beside the manifest. The
walk succeeds exactly on pointwise matching lists; sorting turns pointwise
matching into equality of path sets, which no order of the input can change.
-/

namespace Invokrum.Acquisition

open Outcome Ordered BoundedTotal Invokrum.Distribution
open Text (Bytes)

inductive CandidateVerificationError where
  | subjectMismatch
  | tooManyFiles
  | fileTooLarge (path : BundlePath)
  | bundleTooLarge
  | duplicatePath (path : BundlePath)
  | missingFile (path : BundlePath)
  | undeclaredFile (path : BundlePath)
  | lengthMismatch (path : BundlePath) (expected actual : Nat)
  | digestMismatch (path : BundlePath)
deriving DecidableEq

/-- Candidate bytes within the per-file bound. -/
structure CandidateFile where
  path : BundlePath
  bytes : Bytes
  bounded : bytes.length ≤ maxBundleFileBytes
deriving DecidableEq

def CandidateFile.new (path : BundlePath) (bytes : Bytes) :
    Except CandidateVerificationError CandidateFile :=
  if h : maxBundleFileBytes < bytes.length then .error (.fileTooLarge path)
  else .ok ⟨path, bytes, Nat.le_of_not_lt h⟩

structure VerifiedFile where
  path : BundlePath
  bytes : Bytes
  digest : Sha256Digest
deriving DecidableEq

structure VerifiedBundle where
  subject : Sha256Digest
  entryPoint : BundlePath
  files : List VerifiedFile
deriving DecidableEq

/-! ## The use case -/

/-- The two-index walk over declared files and sorted candidates. -/
def matchFiles : List BundleFile → List CandidateFile →
    Except CandidateVerificationError Unit
  | [], [] => .ok ()
  | declared :: _, [] => .error (.missingFile declared.path)
  | [], candidate :: _ => .error (.undeclaredFile candidate.path)
  | declared :: manifestFiles, candidate :: candidates => do
      rejectIf (candidate.path < declared.path) (.undeclaredFile candidate.path)
      rejectIf (declared.path < candidate.path) (.missingFile declared.path)
      rejectIf (candidate.bytes.length ≠ declared.byteLength.toNat)
        (.lengthMismatch declared.path declared.byteLength.toNat candidate.bytes.length)
      rejectIf (Digest.sha256LowerHex candidate.bytes ≠ declared.digest.text)
        (.digestMismatch declared.path)
      matchFiles manifestFiles candidates

/-- The first path that two neighbours of the sorted candidates share. -/
def firstDuplicate (candidates : List CandidateFile) : Option BundlePath :=
  ((windows candidates).find? fun w => w.1.path = w.2.path).map (·.1.path)

def verifiedFile (declared : BundleFile) (candidate : CandidateFile) : VerifiedFile :=
  ⟨candidate.path, candidate.bytes, declared.digest⟩

/-- The part of the use case after the candidates are sorted. -/
def verifySorted (manifest : BundleManifest) (manifestSubject : Sha256Digest)
    (candidates : List CandidateFile) : Except CandidateVerificationError VerifiedBundle :=
  match firstDuplicate candidates with
  | some path => .error (.duplicatePath path)
  | none => do
      matchFiles manifest.files candidates
      pure {
        subject := manifestSubject
        entryPoint := manifest.entryPoint
        files := List.zipWith verifiedFile manifest.files candidates }

/-- The aggregate size check. -/
def candidateBytes : List CandidateFile → Except CandidateVerificationError Nat :=
  boundedTotal (fun candidate => candidate.bytes.length) maxBundleFileBytes
    maxBundleExpandedBytes (fun candidate => .fileTooLarge candidate.path) .bundleTooLarge 0

def verifyCandidate (manifest : BundleManifest) (manifestSubject expectedSubject : Sha256Digest)
    (candidates : List CandidateFile) : Except CandidateVerificationError VerifiedBundle := do
  rejectIf (manifestSubject ≠ expectedSubject) .subjectMismatch
  rejectIf (maxBundleFiles < candidates.length) .tooManyFiles
  let _ ← candidateBytes candidates
  verifySorted manifest manifestSubject (sortByKey (·.path) candidates)

/-! ## The walk -/

/-- A candidate is the declared file: its path, length and digest. -/
structure IsDeclared (declared : BundleFile) (candidate : CandidateFile) : Prop where
  path : candidate.path = declared.path
  length : candidate.bytes.length = declared.byteLength.toNat
  digest : Digest.sha256LowerHex candidate.bytes = declared.digest.text

theorem matchFiles_eq_ok {declared : List BundleFile} {candidates : List CandidateFile}
    {u : Unit} :
    matchFiles declared candidates = .ok u ↔ List.Forall₂ IsDeclared declared candidates := by
  induction declared generalizing candidates with
  | nil => cases candidates <;> simp [matchFiles]
  | cons d declared ih =>
      cases candidates with
      | nil => simp [matchFiles]
      | cons c candidates =>
          simp only [matchFiles, bind_eq_ok, rejectIf_eq_ok, exists_const, ih, ne_eq, not_not,
            List.forall₂_cons]
          constructor
          · intro h
            obtain ⟨hlow, hhigh, hlength, hdigest, hrest⟩ := h
            exact ⟨⟨le_antisymm (not_lt.mp hhigh) (not_lt.mp hlow), hlength, hdigest⟩, hrest⟩
          · intro h
            obtain ⟨⟨hpath, hlength, hdigest⟩, hrest⟩ := h
            exact ⟨hpath ▸ lt_irrefl _, hpath ▸ lt_irrefl _, hlength, hdigest, hrest⟩

theorem firstDuplicate_eq_none {candidates : List CandidateFile} :
    firstDuplicate (sortByKey (·.path) candidates) = none ↔
      (candidates.map (·.path)).Nodup := by
  rw [← sortByKey_nodup_iff, ← windows_ne_iff CandidateFile.path (sortByKey_sorted _ candidates)]
  simp [firstDuplicate]

/-- The reported duplicate depends on the sorted paths only. -/
theorem firstDuplicate_congr {xs ys : List CandidateFile}
    (h : xs.map (·.path) = ys.map (·.path)) : firstDuplicate xs = firstDuplicate ys := by
  have hpaths : ∀ zs : List CandidateFile, firstDuplicate zs =
      ((windows (zs.map (·.path))).find? fun w => w.1 = w.2).map (·.1) := by
    intro zs
    have hwindows : windows (zs.map (·.path)) =
        (windows zs).map fun w => (w.1.path, w.2.path) := windows_map _ zs
    rw [hwindows, List.find?_map]
    simp [firstDuplicate, Function.comp_def]
  rw [hpaths, hpaths, h]

/-! ## Exact matching as sets of paths -/

/-- The candidates are, as a set, exactly the manifest's files. -/
structure Matches (manifest : BundleManifest) (candidates : List CandidateFile) : Prop where
  distinct : (candidates.map (·.path)).Nodup
  paths : ∀ path, path ∈ candidates.map (·.path) ↔ path ∈ manifest.files.map (·.path)
  content : ∀ declared ∈ manifest.files, ∀ candidate ∈ candidates,
    candidate.path = declared.path → IsDeclared declared candidate

theorem forall₂_of_path_eq {declared : List BundleFile} {candidates : List CandidateFile}
    (hpaths : declared.map (·.path) = candidates.map (·.path))
    (hcontent : ∀ d ∈ declared, ∀ c ∈ candidates, c.path = d.path → IsDeclared d c) :
    List.Forall₂ IsDeclared declared candidates := by
  have heq : List.Forall₂ (fun d c => BundleFile.path d = CandidateFile.path c)
      declared candidates := by
    have hmap : List.Forall₂ Eq (declared.map (·.path)) (candidates.map (·.path)) := by
      rw [hpaths]
      exact List.forall₂_refl _
    rwa [List.forall₂_map_left_iff, List.forall₂_map_right_iff] at hmap
  rw [List.forall₂_iff_zip] at heq ⊢
  refine ⟨heq.1, fun {d c} hmem => ?_⟩
  have hboth := List.of_mem_zip hmem
  exact hcontent d hboth.1 c hboth.2 (heq.2 hmem).symm

theorem paths_of_forall₂ {declared : List BundleFile} {candidates : List CandidateFile}
    (h : List.Forall₂ IsDeclared declared candidates) :
    declared.map (·.path) = candidates.map (·.path) := by
  induction h with
  | nil => rfl
  | cons hd _ ih => rw [List.map_cons, List.map_cons, ih, hd.path]

/-- Pointwise matching of the sorted candidates is exact matching of the sets. -/
theorem matches_iff {manifest : BundleManifest} {candidates : List CandidateFile} :
    Matches manifest candidates ↔ (candidates.map (·.path)).Nodup ∧
      List.Forall₂ IsDeclared manifest.files (sortByKey (·.path) candidates) := by
  have hperm := sortByKey_perm CandidateFile.path candidates
  have hmem : ∀ {c}, c ∈ sortByKey (·.path) candidates ↔ c ∈ candidates := hperm.mem_iff
  constructor
  · intro h
    have hnodup : ((sortByKey (·.path) candidates).map (·.path)).Nodup :=
      (hperm.map _).nodup_iff.mpr h.distinct
    have hset : (manifest.files.map (·.path)).Perm
        ((sortByKey (·.path) candidates).map (·.path)) := by
      refine (List.perm_ext_iff_of_nodup manifest.accepted.distinct hnodup).mpr fun path => ?_
      rw [(hperm.map _).mem_iff, h.paths]
    have hpaths := eq_of_perm_of_strict id hset (List.pairwise_map.mpr manifest.sorted)
      (List.pairwise_map.mpr (sortByKey_strict _ h.distinct))
    exact ⟨h.distinct, forall₂_of_path_eq hpaths fun d hd c hc =>
      h.content d hd c (hmem.mp hc)⟩
  · intro h
    obtain ⟨hdistinct, hpair⟩ := h
    have hpaths := paths_of_forall₂ hpair
    refine ⟨hdistinct, fun path => ?_, fun d hd c hc hpath => ?_⟩
    · rw [hpaths, (hperm.map _).mem_iff]
    · obtain ⟨c', hc', hdc'⟩ := exists_of_forall₂ hpair hd
      have hsame : c = c' :=
        eq_of_key_eq (·.path) hdistinct hc (hmem.mp hc') (hpath.trans hdc'.path.symm)
      exact hsame ▸ hdc'

/-! ## The whole use case -/

theorem expandedBytes_lt : maxBundleExpandedBytes < Machine.wordSize := by decide

theorem candidateBytes_eq_ok {candidates : List CandidateFile} {total : Nat} :
    candidateBytes candidates = .ok total ↔
      (candidates.map (·.bytes.length)).sum ≤ maxBundleExpandedBytes ∧
        total = (candidates.map (·.bytes.length)).sum := by
  rw [candidateBytes, boundedTotal_eq_ok expandedBytes_lt (Nat.zero_le _), Nat.zero_add]
  exact ⟨fun h => h.2, fun h => ⟨fun c _ => c.bounded, h⟩⟩

/-- Every condition under which a candidate verifies. -/
structure Verifies (manifest : BundleManifest) (manifestSubject expectedSubject : Sha256Digest)
    (candidates : List CandidateFile) : Prop where
  subject : manifestSubject = expectedSubject
  count : candidates.length ≤ maxBundleFiles
  expanded : (candidates.map (·.bytes.length)).sum ≤ maxBundleExpandedBytes
  exact : Matches manifest candidates

/-- The result of a candidate that verifies. -/
def VerifiedBundle.of (manifest : BundleManifest) (subject : Sha256Digest)
    (candidates : List CandidateFile) : VerifiedBundle where
  subject := subject
  entryPoint := manifest.entryPoint
  files := List.zipWith verifiedFile manifest.files (sortByKey (·.path) candidates)

theorem verifySorted_eq_ok {manifest : BundleManifest} {subject : Sha256Digest}
    {candidates : List CandidateFile} {b : VerifiedBundle} :
    verifySorted manifest subject (sortByKey (·.path) candidates) = .ok b ↔
      Matches manifest candidates ∧ b = .of manifest subject candidates := by
  rw [matches_iff, ← firstDuplicate_eq_none, verifySorted]
  cases firstDuplicate (sortByKey (·.path) candidates) with
  | some path => simp
  | none =>
      simp only [bind_eq_ok, matchFiles_eq_ok, exists_const, pure, Except.pure, Except.ok.injEq,
        true_and, VerifiedBundle.of, eq_comm (b := b)]

theorem verifyCandidate_eq_ok {manifest : BundleManifest}
    {manifestSubject expectedSubject : Sha256Digest} {candidates : List CandidateFile}
    {b : VerifiedBundle} :
    verifyCandidate manifest manifestSubject expectedSubject candidates = .ok b ↔
      Verifies manifest manifestSubject expectedSubject candidates ∧
        b = .of manifest manifestSubject candidates := by
  simp only [verifyCandidate, bind_eq_ok, rejectIf_eq_ok, candidateBytes_eq_ok,
    verifySorted_eq_ok, exists_const, not_lt, ne_eq, not_not]
  constructor
  · intro h
    obtain ⟨hsubject, hcount, _, ⟨hexpanded, _⟩, hexact, hb⟩ := h
    exact ⟨⟨hsubject, hcount, hexpanded, hexact⟩, hb⟩
  · intro h
    obtain ⟨⟨hsubject, hcount, hexpanded, hexact⟩, hb⟩ := h
    exact ⟨hsubject, hcount, _, ⟨hexpanded, rfl⟩, hexact, hb⟩

/-! ## Input order -/

theorem sorted_paths_eq_of_perm {xs ys : List CandidateFile} (h : xs.Perm ys) :
    (sortByKey (·.path) xs).map (·.path) = (sortByKey (·.path) ys).map (·.path) := by
  have hperm := ((sortByKey_perm CandidateFile.path xs).trans
    (h.trans (sortByKey_perm CandidateFile.path ys).symm)).map CandidateFile.path
  exact hperm.eq_of_pairwise (fun _ _ _ _ hab hba => le_antisymm hab hba)
    (List.pairwise_map.mpr (sortByKey_sorted _ xs))
    (List.pairwise_map.mpr (sortByKey_sorted _ ys))

/-- With repeated paths only the first repeated path is reported; without them the
sorted candidates are one list. -/
theorem verifySorted_eq_of_perm (manifest : BundleManifest) (subject : Sha256Digest)
    {xs ys : List CandidateFile} (h : xs.Perm ys) :
    verifySorted manifest subject (sortByKey (·.path) xs) =
      verifySorted manifest subject (sortByKey (·.path) ys) := by
  by_cases hnodup : (xs.map (·.path)).Nodup
  · rw [sortByKey_eq_of_perm _ h hnodup]
  · have hcongr := firstDuplicate_congr (sorted_paths_eq_of_perm h)
    cases hfirst : firstDuplicate (sortByKey (·.path) xs) with
    | none => exact absurd (firstDuplicate_eq_none.mp hfirst) hnodup
    | some path => rw [verifySorted, verifySorted, ← hcongr, hfirst]

/-- The whole outcome, its error included, does not depend on the order of the candidates. -/
theorem verifyCandidate_eq_of_perm (manifest : BundleManifest)
    (manifestSubject expectedSubject : Sha256Digest) {xs ys : List CandidateFile}
    (h : xs.Perm ys) :
    verifyCandidate manifest manifestSubject expectedSubject xs =
      verifyCandidate manifest manifestSubject expectedSubject ys := by
  have hbytes : candidateBytes xs = candidateBytes ys :=
    boundedTotal_eq_of_perm expandedBytes_lt h fun c _ => c.bounded
  rw [verifyCandidate, verifyCandidate, h.length_eq, hbytes,
    verifySorted_eq_of_perm manifest manifestSubject h]

/-! ## The verified files -/

/-- A verified file is a declared file with a candidate's bytes. -/
structure Describes (candidates : List CandidateFile) (declared : BundleFile)
    (file : VerifiedFile) : Prop where
  path : file.path = declared.path
  digest : file.digest = declared.digest
  bytes : ∃ candidate ∈ candidates, candidate.path = declared.path ∧ candidate.bytes = file.bytes

theorem describes_of_forall₂ {candidates : List CandidateFile} {declared : List BundleFile}
    {sorted : List CandidateFile} (hmem : ∀ c ∈ sorted, c ∈ candidates)
    (h : List.Forall₂ IsDeclared declared sorted) :
    List.Forall₂ (Describes candidates) declared (List.zipWith verifiedFile declared sorted) := by
  induction h with
  | nil => exact .nil
  | cons hd _ ih =>
      refine .cons ⟨hd.path, rfl, ?_⟩ (ih fun c hc => hmem c (List.mem_cons_of_mem _ hc))
      exact ⟨_, hmem _ List.mem_cons_self, hd.path, rfl⟩

/-- Candidate verification is exact, its result is the manifest's files in manifest order
with the candidates' bytes, and no outcome depends on the order of the candidates. -/
theorem verifyCandidate_exact (manifest : BundleManifest)
    (manifestSubject expectedSubject : Sha256Digest) (candidates : List CandidateFile) :
    ((∃ b, verifyCandidate manifest manifestSubject expectedSubject candidates = .ok b) ↔
      Verifies manifest manifestSubject expectedSubject candidates) ∧
    (∀ b, verifyCandidate manifest manifestSubject expectedSubject candidates = .ok b →
      b.subject = manifestSubject ∧ b.entryPoint = manifest.entryPoint ∧
        List.Forall₂ (Describes candidates) manifest.files b.files) ∧
    ∀ candidates', candidates.Perm candidates' →
      verifyCandidate manifest manifestSubject expectedSubject candidates =
        verifyCandidate manifest manifestSubject expectedSubject candidates' := by
  refine ⟨?_, ?_, ?_⟩
  · simp only [verifyCandidate_eq_ok, exists_and_left, exists_eq, and_true]
  · intro b hb
    obtain ⟨hverifies, rfl⟩ := verifyCandidate_eq_ok.mp hb
    have hpair := (matches_iff.mp hverifies.exact).2
    refine ⟨rfl, rfl, describes_of_forall₂ (fun c hc => ?_) hpair⟩
    exact (mem_sortByKey _).mp hc
  · intro candidates' h
    exact verifyCandidate_eq_of_perm manifest manifestSubject expectedSubject h

/-- A verified bundle comes from candidate verification only. -/
def VerifiedBundle.IsVerified (bundle : VerifiedBundle) : Prop :=
  ∃ manifest manifestSubject expectedSubject candidates,
    verifyCandidate manifest manifestSubject expectedSubject candidates = .ok bundle

theorem digest_of_mem_zipWith {declared : List BundleFile} {sorted : List CandidateFile}
    (h : List.Forall₂ IsDeclared declared sorted) {file : VerifiedFile}
    (hfile : file ∈ List.zipWith verifiedFile declared sorted) :
    Digest.sha256LowerHex file.bytes = file.digest.text := by
  induction h with
  | nil => cases hfile
  | cons hd _ ih =>
      rw [List.zipWith_cons_cons, List.mem_cons] at hfile
      rcases hfile with rfl | hfile
      · exact hd.digest
      · exact ih hfile

/-- The digest of a verified file is the digest of its bytes. -/
theorem VerifiedBundle.IsVerified.digest {bundle : VerifiedBundle} (h : bundle.IsVerified)
    {file : VerifiedFile} (hfile : file ∈ bundle.files) :
    Digest.sha256LowerHex file.bytes = file.digest.text := by
  obtain ⟨manifest, _, _, candidates, hb⟩ := h
  obtain ⟨hverifies, rfl⟩ := verifyCandidate_eq_ok.mp hb
  exact digest_of_mem_zipWith (matches_iff.mp hverifies.exact).2 hfile

end Invokrum.Acquisition
