import Invokrum.Install.Sequential

/-!
# Provenance of installed subjects

The bytes of a record determine the provenance and the provenance determines
the bytes. The first installation of a subject therefore fixes its provenance:
a later one succeeds if it is the same, by reusing the tree, and fails
otherwise.
-/

namespace Invokrum.Install

open Outcome Programs Environment Invokrum.Distribution Invokrum.Acquisition Invokrum.FileSystem
open Directory (PinnedRoot loadCandidate readCandidateFile)
open Text (Bytes)

variable {umask : Nat} {store : LinuxInstallStore} {bundle bundle' : VerifiedBundle}
  {publisher publisher' : Option AuthorizedPublisher} {subject : Sha256Digest} {fs fs' : Fs}

/-! ## Records of one provenance -/

theorem SameFile.fileRecord {file file' : VerifiedFile} (h : SameFile file file') :
    installationFileRecord file = installationFileRecord file' := by
  rw [installationFileRecord, installationFileRecord, byteLength, byteLength, h.path, h.length,
    h.digest]

theorem SameFile.treeDigest {file file' : VerifiedFile} (h : SameFile file file') :
    treeDigestEntry file = treeDigestEntry file' := by
  rw [treeDigestEntry, treeDigestEntry, byteLength, byteLength, h.path, h.length, h.digest]

theorem SameFile.manifest {file file' : VerifiedFile} (h : SameFile file file') :
    manifestFile file = manifestFile file' := by
  rw [manifestFile, manifestFile, byteLength, byteLength, h.path, h.length, h.digest]

theorem SameBundle.paths (h : SameBundle bundle bundle') :
    bundle.files.map (·.path) = bundle'.files.map (·.path) := by
  have hfiles := h.files
  generalize bundle.files = files at hfiles
  generalize bundle'.files = files' at hfiles
  induction hfiles with
  | nil => rfl
  | cons hfile _ ih => rw [List.map_cons, List.map_cons, hfile.path, ih]

/-- A record does not depend on anything else. -/
theorem SameBundle.installationRecordBytes (h : SameBundle bundle bundle')
    (publisher : Option AuthorizedPublisher) :
    installationRecordBytes bundle publisher = installationRecordBytes bundle' publisher := by
  have hrecords : collect installationFileRecord bundle.files =
      collect installationFileRecord bundle'.files :=
    collect_congr h.files fun _ _ => SameFile.fileRecord
  have hdigest : installedTreeDigest bundle = installedTreeDigest bundle' := by
    rw [installedTreeDigest, installedTreeDigest,
      collect_congr h.files fun _ _ => SameFile.treeDigest]
  have hmismatch : publisherMismatch bundle publisher = publisherMismatch bundle' publisher := by
    rw [publisherMismatch, publisherMismatch, h.subject]
  rw [Install.installationRecordBytes, Install.installationRecordBytes, hmismatch, hrecords,
    hdigest, h.subject, h.entryPoint]

/-- The publisher evidence of a record: absent, or a mechanism with identity attributes. -/
def evidence (publisher : Option AuthorizedPublisher) :
    Option (VerificationMechanism × PublisherIdentity) :=
  publisher.map fun publisher => (publisher.mechanism, publisher.identity)

theorem matching_of_record {record : Bytes}
    (h : installationRecordBytes bundle publisher = .ok record) :
    publisherMismatch bundle publisher = false := by
  rw [Install.installationRecordBytes, bind_eq_ok] at h
  obtain ⟨_, hcheck, _⟩ := h
  simpa using hcheck

/-- With the subject of the bundle, the evidence is the whole publisher. -/
theorem publisher_eq_of_evidence (hsubject : bundle.subject = bundle'.subject)
    (hmatching : publisherMismatch bundle publisher = false)
    (hmatching' : publisherMismatch bundle' publisher' = false)
    (hevidence : evidence publisher = evidence publisher') : publisher = publisher' := by
  cases publisher with
  | none =>
      cases publisher' with
      | none => rfl
      | some p' => cases hevidence
  | some p =>
      cases publisher' with
      | none => cases hevidence
      | some p' =>
          simp only [evidence, Option.map_some, Option.some.injEq, Prod.mk.injEq] at hevidence
          simp only [publisherMismatch, Option.any_some, decide_eq_false_iff_not, ne_eq, not_not]
            at hmatching hmatching'
          have hpublishers : p.subject = p'.subject := by
            rw [hmatching, hmatching', hsubject]
          rw [AuthorizedPublisher.ext hevidence.1 hpublishers hevidence.2]

/-- Equal records are records of one provenance. -/
theorem installationRecordBytes_eq_iff {record record' : Bytes}
    (h : installationRecordBytes bundle publisher = .ok record)
    (h' : installationRecordBytes bundle' publisher' = .ok record') :
    record = record' ↔ SameBundle bundle bundle' ∧ evidence publisher = evidence publisher' := by
  constructor
  · intro heq
    subst heq
    obtain ⟨hsame, hpublisher⟩ := installationRecordBytes_inj h h'
    exact ⟨hsame, congrArg evidence hpublisher⟩
  · intro hsame
    obtain ⟨hbundle, hevidence⟩ := hsame
    have hpublisher := publisher_eq_of_evidence hbundle.subject (matching_of_record h)
      (matching_of_record h') hevidence
    rw [hbundle.installationRecordBytes, hpublisher, h'] at h
    exact (Except.ok.inj h).symm

theorem SameBundle.reserved (h : SameBundle bundle bundle') :
    (bundle.files.any fun file => isReserved file.path) =
      bundle'.files.any fun file => isReserved file.path := by
  have hany : ∀ files : List VerifiedFile, (files.any fun file => isReserved file.path) =
      (files.map (·.path)).any isReserved := by
    intro files
    rw [List.any_map]
    rfl
  rw [hany, hany, h.paths]

theorem SameBundle.verifyInstallationPermissions (h : SameBundle bundle bundle') (site : Site)
    (root : Path) : verifyInstallationPermissions store site root bundle =
      verifyInstallationPermissions store site root bundle' := by
  have hforM : ∀ (files : List VerifiedFile) (g : BundlePath → Installation PUnit),
      (files.forM fun file => g file.path) = (files.map (·.path)).forM g := by
    intro files g
    induction files with
    | nil => rfl
    | cons file files ih =>
        rw [List.map_cons, List.forM, List.forM, ih]
  rw [Install.verifyInstallationPermissions, Install.verifyInstallationPermissions, hforM, hforM,
    h.paths]

/-- Neither does a re-verification. -/
theorem SameBundle.verifyExistingInstallation (h : SameBundle bundle bundle') (root : Path)
    (publisher : Option AuthorizedPublisher) :
    verifyExistingInstallation store root bundle publisher =
      verifyExistingInstallation store root bundle' publisher := by
  have hmanifest : manifestFromVerified bundle = manifestFromVerified bundle' := by
    rw [manifestFromVerified, manifestFromVerified,
      collect_congr h.files fun _ _ => SameFile.manifest, h.entryPoint]
  have hloaded : ∀ manifest candidates,
      verifyLoaded manifest bundle candidates = verifyLoaded manifest bundle' candidates := by
    intro manifest candidates
    rw [verifyLoaded, verifyLoaded, h.subject]
  rw [Install.verifyExistingInstallation, Install.verifyExistingInstallation, matchesInstallation,
    matchesInstallation, h.verifyInstallationPermissions, hmanifest,
    h.installationRecordBytes publisher]
  simp only [hloaded]

/-! ## Verified installations -/

/-- The re-verification accepts what is at the root of the subject. -/
def Verified (umask : Nat) (store : LinuxInstallStore) (bundle : VerifiedBundle)
    (publisher : Option AuthorizedPublisher) (fs : Fs) : Prop :=
  ((faultless umask).outcome (verifyExistingInstallation store (subjectRoot bundle.subject) bundle
    publisher) fs).1 = .ok ()

theorem Verified.outcome (h : Verified umask store bundle publisher fs) :
    (faultless umask).outcome (verifyExistingInstallation store (subjectRoot bundle.subject) bundle
      publisher) fs = (.ok (), fs) :=
  Prod.ext h (reads_verifyExistingInstallation fs).1

/-- A successful re-verification changes nothing. -/
theorem verified_of_outcome {u : Unit}
    (h : (faultless umask).outcome (verifyExistingInstallation store (subjectRoot bundle.subject)
      bundle publisher) fs = (.ok u, fs')) : fs' = fs ∧ Verified umask store bundle publisher fs := by
  have hreads : ReadsBelow umask (subjectRoot bundle.subject)
      (verifyExistingInstallation store (subjectRoot bundle.subject) bundle publisher) :=
    reads_verifyExistingInstallation
  have hstate := (hreads fs).1
  rw [h] at hstate
  exact ⟨hstate, congrArg Prod.fst h⟩

theorem Verified.congr (h : Verified umask store bundle publisher fs)
    (hbelow : fs'.below (subjectRoot bundle.subject) = fs.below (subjectRoot bundle.subject)) :
    Verified umask store bundle publisher fs' :=
  ((reads_verifyExistingInstallation fs).2 fs' hbelow).trans h

/-- What a re-verification has seen. -/
theorem Verified.matches (h : Verified umask store bundle publisher fs) :
    ∃ u, (faultless umask).outcome (matchesInstallation store (subjectRoot bundle.subject) bundle
      publisher) fs = (.ok u, fs) := by
  have hmapped := h.outcome
  rw [verifyExistingInstallation, outcome_mapError, Prod.mk.injEq] at hmapped
  obtain ⟨hresult, hstate⟩ := hmapped
  cases houtcome : (faultless umask).outcome (matchesInstallation store
      (subjectRoot bundle.subject) bundle publisher) fs with
  | mk result fs₁ =>
      rw [houtcome] at hresult hstate
      obtain rfl : fs₁ = fs := hstate
      cases result with
      | ok u => exact ⟨u, rfl⟩
      | error e => cases hresult

/-- An installed root is there. -/
theorem Verified.there (h : Verified umask store bundle publisher fs) :
    fs.node (subjectRoot bundle.subject) ≠ none := by
  obtain ⟨u, hmatches⟩ := h.matches
  obtain ⟨_, fs₁, hpermissions, _⟩ := outcome_bind_eq_ok hmatches
  obtain ⟨_, fs₂, hroot, _⟩ := outcome_bind_eq_ok hpermissions
  obtain ⟨metadata, fs₃, hlook, _⟩ := outcome_bind_eq_ok hroot
  intro hnone
  have hmetadata : (fs.symlinkMetadata (subjectRoot bundle.subject)).mapError _ =
      .ok metadata := congrArg Prod.fst hlook
  rw [Fs.symlinkMetadata, hnone] at hmetadata
  cases hmetadata

/-- The installed record is the record of the provenance. -/
theorem Verified.record (h : Verified umask store bundle publisher fs) :
    ∃ record, installationRecordBytes bundle publisher = .ok record ∧
      fs.readFile (recordPath bundle.subject) = .ok record := by
  obtain ⟨u, hmatches⟩ := h.matches
  obtain ⟨_, fs₁, hpermissions, hmatches⟩ := outcome_bind_eq_ok hmatches
  have hreads : ReadsBelow umask (subjectRoot bundle.subject)
      (verifyInstallationPermissions store .target (subjectRoot bundle.subject) bundle) :=
    reads_verifyInstallationPermissions
  have hstate := (hreads fs).1
  rw [hpermissions] at hstate
  obtain rfl : fs₁ = fs := hstate
  obtain ⟨manifest, fs₂, hmanifest, hmatches⟩ := outcome_bind_eq_ok hmatches
  obtain rfl : fs₁ = fs₂ := congrArg Prod.snd hmanifest
  obtain ⟨_, fs₂, hopen, hmatches⟩ := outcome_bind_eq_ok hmatches
  obtain rfl : fs₁ = fs₂ := congrArg Prod.snd hopen
  obtain ⟨candidates, fs₂, hload, hmatches⟩ := outcome_bind_eq_ok hmatches
  obtain rfl : fs₁ = fs₂ := congrArg Prod.snd hload
  obtain ⟨_, fs₂, hverified, hmatches⟩ := outcome_bind_eq_ok hmatches
  obtain rfl : fs₁ = fs₂ := congrArg Prod.snd hverified
  obtain ⟨actual, fs₂, hread, hmatches⟩ := outcome_bind_eq_ok hmatches
  obtain rfl : fs₁ = fs₂ := congrArg Prod.snd hread
  obtain ⟨expected, fs₂, hexpected, hmatches⟩ := outcome_bind_eq_ok hmatches
  obtain rfl : fs₁ = fs₂ := congrArg Prod.snd hexpected
  obtain ⟨_, fs₂, hsame, _⟩ := outcome_bind_eq_ok hmatches
  rw [outcome_throwIf, Prod.mk.injEq] at hsame
  have heq : actual = expected := by
    by_contra hne
    rw [if_pos hne] at hsame
    cases hsame.1
  have hbytes : (viewed (fs₁.below (subjectRoot bundle.subject)) fun tree =>
      readCandidateFile tree installationRecordPath maxInstallationRecordBytes).mapError
        LinuxInstallStoreError.stageVerification = .ok actual := congrArg Prod.fst hread
  rw [mapError_eq_ok] at hbytes
  have hrecord : installationRecordBytes bundle publisher = .ok expected :=
    congrArg Prod.fst hexpected
  exact ⟨actual, heq ▸ hrecord, (viewed_read hbytes).1⟩

/-! ## One installation -/

theorem pathExistsNoFollow_there {path : Path} (h : fs.node path ≠ none) :
    (faultless umask).outcome (pathExistsNoFollow path) fs = (.ok true, fs) := by
  obtain ⟨n, hn⟩ := Option.ne_none_iff_exists'.mp h
  have hlook : (faultless umask).outcome (request .target (.symlinkMetadata path)) fs =
      (.ok (.ok n.metadata), fs) := by
    apply request_outcome
    show (fs.symlinkMetadata path, fs) = _
    rw [Fs.symlinkMetadata_eq_ok.mpr ⟨n, hn, rfl⟩]
  rw [pathExistsNoFollow, bind_of_ok hlook]
  rfl

/-- Where something is at the root, an installation only compares. -/
theorem installLocked_there (h : fs.node (subjectRoot bundle.subject) ≠ none) :
    (faultless umask).outcome (installLocked store bundle publisher) fs =
      (((faultless umask).outcome (verifyExistingInstallation store (subjectRoot bundle.subject)
        bundle publisher) fs).1.map fun _ => receipt bundle (subjectRoot bundle.subject) true,
        fs) := by
  have hreads : ReadsBelow umask (subjectRoot bundle.subject)
      (verifyExistingInstallation store (subjectRoot bundle.subject) bundle publisher) :=
    reads_verifyExistingInstallation
  have hstate := (hreads fs).1
  rw [installLocked, bind_of_ok (pathExistsNoFollow_there h), if_pos rfl]
  cases houtcome : (faultless umask).outcome (verifyExistingInstallation store
      (subjectRoot bundle.subject) bundle publisher) fs with
  | mk result fs₁ =>
      rw [houtcome] at hstate
      obtain rfl : fs₁ = fs := hstate
      cases result with
      | ok u =>
          rw [bind_of_ok houtcome]
          rfl
      | error e =>
          rw [bind_of_error houtcome]
          rfl

/-- The last step of every successful installation is a re-verification. -/
theorem verified_of_reverified {installed value : InstalledBundle}
    (h : (faultless umask).outcome (do
      verifyExistingInstallation store (subjectRoot bundle.subject) bundle publisher
      pure value : Installation InstalledBundle) fs = (.ok installed, fs')) :
    Verified umask store bundle publisher fs' := by
  obtain ⟨u, fs₁, hverify, hpure⟩ := outcome_bind_eq_ok h
  obtain rfl : fs₁ = fs' := congrArg Prod.snd hpure
  obtain ⟨rfl, hverified⟩ := verified_of_outcome hverify
  exact hverified

theorem promote_verified {staging : Path} {installed : InstalledBundle}
    (h : (faultless umask).outcome (promote store staging bundle publisher) fs =
      (.ok installed, fs')) : Verified umask store bundle publisher fs' := by
  obtain ⟨_, fs₁, _, h⟩ := outcome_bind_eq_ok h
  obtain ⟨_, fs₂, _, h⟩ := outcome_bind_eq_ok h
  obtain ⟨reply, fs₃, _, h⟩ := outcome_bind_eq_ok h
  cases reply with
  | ok v =>
      obtain ⟨_, fs₄, _, h⟩ := outcome_bind_eq_ok h
      exact verified_of_reverified h
  | error e =>
      obtain ⟨found, fs₄, _, h⟩ := outcome_bind_eq_ok h
      cases found with
      | true =>
          obtain ⟨_, fs₅, _, h⟩ := outcome_bind_eq_ok h
          exact verified_of_reverified h
      | false => cases h

theorem installLocked_verified {installed : InstalledBundle}
    (h : (faultless umask).outcome (installLocked store bundle publisher) fs =
      (.ok installed, fs')) : Verified umask store bundle publisher fs' := by
  obtain ⟨found, fs₁, _, h⟩ := outcome_bind_eq_ok h
  cases found with
  | true => exact verified_of_reverified h
  | false =>
      obtain ⟨staging, fs₂, _, h⟩ := outcome_bind_eq_ok h
      cases hbody : (faultless umask).outcome (stageAndPromote store staging bundle publisher) fs₂
        with
      | mk result fs₃ =>
          cases result with
          | ok value =>
              rw [onError_of_ok hbody] at h
              obtain ⟨_, fs₄, _, hpromote⟩ := outcome_bind_eq_ok hbody
              cases h
              exact promote_verified hpromote
          | error e =>
              rw [onError_of_error hbody] at h
              cases h

/-! ## One installation after another -/

theorem lockPath_not_above_root (subject subject' : Sha256Digest) (rest : Path) :
    ¬ lockPath subject <+: subjectRoot subject' ++ rest := by
  intro hprefix
  have hhead : (subjectRoot subject' ++ rest).head? = some "sha256" := rfl
  rw [head_of_lockPath hprefix] at hhead
  simp at hhead

theorem below_unlocked (fs : Fs) (subject subject' : Sha256Digest) :
    (fs.removeTree (lockPath subject)).below (subjectRoot subject') =
      fs.below (subjectRoot subject') :=
  funext fun rest => Fs.sameOutside_removeTree fs _ _ (lockPath_not_above_root subject subject' rest)

theorem LockedFrom.below (h : LockedFrom subject fs fs') (subject' : Sha256Digest) :
    fs'.below (subjectRoot subject') = fs.below (subjectRoot subject') := by
  rw [← below_unlocked fs' subject subject']
  exact congrArg (fun node rest => node (subjectRoot subject' ++ rest)) h.released

/-- An installation of a subject whose root is there compares and changes nothing. -/
theorem install_there (hready : Ready store fs)
    (hthere : fs.node (subjectRoot bundle.subject) ≠ none) :
    (install umask store bundle publisher fs).2.node = fs.node ∧
      ∀ installed, (install umask store bundle publisher fs).1 = .ok installed ↔
        Admitted umask bundle publisher ∧ Verified umask store bundle publisher fs ∧
          installed = receipt bundle (subjectRoot bundle.subject) true := by
  by_cases h : Admitted umask bundle publisher
  · obtain ⟨fs₁, result, fs₂, hlocked, _, hwork, hinstall⟩ :=
      @install_admitted _ store _ _ fs hready h
    have hbelow := hlocked.below bundle.subject
    have hthere₁ : fs₁.node (subjectRoot bundle.subject) ≠ none := by
      rwa [node_eq_of_below (List.prefix_refl _) hbelow]
    rw [installLocked_there hthere₁, Prod.mk.injEq] at hwork
    obtain ⟨rfl, rfl⟩ := hwork
    rw [hinstall]
    refine ⟨hlocked.released, ?_⟩
    intro installed
    have hverified : Verified umask store bundle publisher fs ↔
        Verified umask store bundle publisher fs₁ :=
      ⟨fun hv => hv.congr hbelow, fun hv => hv.congr hbelow.symm⟩
    rw [hverified, Verified]
    cases ((faultless umask).outcome (verifyExistingInstallation store
      (subjectRoot bundle.subject) bundle publisher) fs₁).1 with
    | ok u => simp [Except.map, h, eq_comm]
    | error e => simp [Except.map]
  · obtain ⟨e, fs', hinstall, hsame⟩ := @install_refused _ store _ _ fs hready h
    rw [hinstall]
    refine ⟨hsame, ?_⟩
    intro installed
    simp [h]

theorem install_verified_of_ready {installed : InstalledBundle} (hready : Ready store fs)
    (h : install umask store bundle publisher fs = (.ok installed, fs')) :
    Ready store fs' ∧ Admitted umask bundle publisher ∧
      Verified umask store bundle publisher fs' := by
  have hend : Ready store fs' := by
    have hown := @install_onlyOwn umask store bundle publisher fs hready
    rw [h] at hown
    exact hready.onlyOwn hown
  by_cases hadmitted : Admitted umask bundle publisher
  · obtain ⟨fs₁, result, fs₂, _, _, hwork, hinstall⟩ :=
      @install_admitted _ store _ _ fs hready hadmitted
    rw [h, Prod.mk.injEq] at hinstall
    obtain ⟨rfl, rfl⟩ := hinstall
    exact ⟨hend, hadmitted,
      (installLocked_verified hwork).congr (below_unlocked fs₂ bundle.subject bundle.subject)⟩
  · obtain ⟨e, fs₁, hinstall, _⟩ := @install_refused _ store _ _ fs hready hadmitted
    rw [h] at hinstall
    cases hinstall

/-- An installation ends at once or goes on from a ready store. -/
theorem install_cases (hidle : Idle store fs) :
    (∃ e, install umask store bundle publisher fs = (.error e, fs)) ∨
      ∃ fs', Ready store fs' ∧
        install umask store bundle publisher fs = install umask store bundle publisher fs' := by
  cases hmatching : publisherMismatch bundle publisher with
  | true => exact .inl ⟨_, install_mismatch hmatching⟩
  | false =>
      by_cases hroot : RootKept store fs
      · obtain ⟨fs', hready, _, hinstall⟩ := @install_idle umask _ _ publisher _ hidle hroot hmatching
        exact .inr ⟨fs', hready, by rw [hinstall, install_ready hready hmatching]⟩
      · left
        refine ⟨.storeChanged, ?_⟩
        rw [install_matching hmatching, bind_of_error (ensureStoreRoot_changed hroot)]

theorem install_keepsIdle (hidle : Idle store fs) :
    Idle store (install umask store bundle publisher fs).2 := by
  rcases @install_cases umask store bundle publisher fs hidle with ⟨e, hinstall⟩ | hready
  · rw [hinstall]
    exact hidle
  · obtain ⟨fs', hready, hinstall⟩ := hready
    rw [hinstall]
    exact (hready.onlyOwn (install_onlyOwn hready)).idle

theorem install_verified {installed : InstalledBundle} (hidle : Idle store fs)
    (h : install umask store bundle publisher fs = (.ok installed, fs')) :
    Ready store fs' ∧ Admitted umask bundle publisher ∧
      Verified umask store bundle publisher fs' := by
  rcases @install_cases umask store bundle publisher fs hidle with ⟨e, hinstall⟩ | hready
  · rw [h] at hinstall
    cases hinstall
  · obtain ⟨fs₁, hready, hinstall⟩ := hready
    rw [hinstall] at h
    exact install_verified_of_ready hready h

/-- The store after installations one after another. -/
noncomputable def installs (umask : Nat) (store : LinuxInstallStore) (requests : List Request)
    (fs : Fs) : Fs :=
  requests.foldl (fun fs request => (install umask store request.bundle request.publisher fs).2) fs

theorem installs_idle (requests : List Request) (hidle : Idle store fs) :
    Idle store (installs umask store requests fs) := by
  induction requests generalizing fs with
  | nil => exact hidle
  | cons request requests ih => exact ih (install_keepsIdle hidle)

/-- What is installed stays as it is. -/
theorem installs_installed (requests : List Request) (hready : Ready store fs)
    (hthere : fs.node (subjectRoot subject) ≠ none) :
    Ready store (installs umask store requests fs) ∧
      (installs umask store requests fs).below (subjectRoot subject) =
        fs.below (subjectRoot subject) := by
  induction requests generalizing fs with
  | nil => exact ⟨hready, rfl⟩
  | cons request requests ih =>
      have hown := @install_onlyOwn umask store request.bundle request.publisher fs hready
      have hbelow : (install umask store request.bundle request.publisher fs).2.below
          (subjectRoot subject) = fs.below (subjectRoot subject) := by
        by_cases hsubject : request.bundle.subject = subject
        · subst hsubject
          have hsame := (@install_there umask store request.bundle request.publisher fs hready
            hthere).1
          exact congrArg (fun node rest => node (subjectRoot request.bundle.subject ++ rest)) hsame
        · exact funext fun rest => hown _ (not_own_of_ne hsubject rest)
      have hthere' : (install umask store request.bundle request.publisher fs).2.node
          (subjectRoot subject) ≠ none := by
        rwa [node_eq_of_below (List.prefix_refl _) hbelow]
      obtain ⟨hend, hsame⟩ := ih (hready.onlyOwn hown) hthere'
      exact ⟨hend, hsame.trans hbelow⟩

/-! ## Immutable provenance -/

/-- On an installed subject a request succeeds if its provenance is the installed one. -/
theorem Verified.iff_same (h : Verified umask store bundle publisher fs)
    (hadmitted : Admitted umask bundle publisher) (hsubject : bundle'.subject = bundle.subject) :
    Admitted umask bundle' publisher' ∧ Verified umask store bundle' publisher' fs ↔
      SameBundle bundle bundle' ∧ publisher = publisher' := by
  constructor
  · intro hother
    obtain ⟨record, hrecord, hread⟩ := h.record
    obtain ⟨record', hrecord', hread'⟩ := hother.2.record
    rw [hsubject, hread] at hread'
    cases hread'
    exact installationRecordBytes_inj hrecord hrecord'
  · intro hsame
    obtain ⟨hbundle, rfl⟩ := hsame
    constructor
    · have hmismatch : publisherMismatch bundle' publisher = publisherMismatch bundle publisher := by
        rw [publisherMismatch, publisherMismatch, hbundle.subject]
      exact ⟨hmismatch.trans hadmitted.matching,
        hbundle.reserved.symm.trans hadmitted.unreserved, hadmitted.lockable⟩
    · rw [Verified, ← hbundle.verifyExistingInstallation, hsubject]
      exact h

/-- Up to a collision of file digests the same provenance is the same bundle. -/
theorem sameBundle_iff_eq (hverified : bundle.IsVerified) (hverified' : bundle'.IsVerified)
    (hcollision : ¬ Collides bundle bundle') : SameBundle bundle bundle' ↔ bundle = bundle' := by
  constructor
  · intro hsame
    rcases hsame.eq_or_collides hverified hverified' with heq | hcollides
    · exact heq
    · exact absurd hcollides hcollision
  · intro heq
    subst heq
    exact ⟨rfl, rfl, List.forall₂_same.mpr fun _ _ => ⟨rfl, rfl, rfl⟩⟩

/-- What a successful installation of a subject fixes for every later one. `fs` is the store
after it and any other installations. -/
structure Settled (umask : Nat) (store : LinuxInstallStore) (request : Request) (fs : Fs) : Prop where
  record : ∃ record, installationRecordBytes request.bundle request.publisher = .ok record ∧
    fs.readFile (recordPath request.subject) = .ok record
  unchanged : ∀ later : Request, later.subject = request.subject →
    (install umask store later.bundle later.publisher fs).2.node = fs.node
  succeeds : ∀ later : Request, later.subject = request.subject →
    ((∃ installed, (install umask store later.bundle later.publisher fs).1 = .ok installed) ↔
      SameBundle request.bundle later.bundle ∧ request.publisher = later.publisher)
  reused : ∀ later : Request, later.subject = request.subject → ∀ installed,
    (install umask store later.bundle later.publisher fs).1 = .ok installed →
      installed = receipt later.bundle (subjectRoot request.subject) true

theorem settled_of_install {request : Request} {installed : InstalledBundle} (hidle : Idle store fs)
    (h : install umask store request.bundle request.publisher fs = (.ok installed, fs'))
    (between : List Request) : Settled umask store request (installs umask store between fs') := by
  obtain ⟨hready', hadmitted, hverified'⟩ := install_verified hidle h
  obtain ⟨hready, hbelow⟩ := installs_installed between hready' hverified'.there
  have hverified := hverified'.congr hbelow
  have hlater : ∀ later : Request, later.subject = request.subject →
      (installs umask store between fs').node (subjectRoot later.bundle.subject) ≠ none := by
    intro later hsubject
    have heq : later.bundle.subject = request.bundle.subject := hsubject
    rw [heq]
    exact hverified.there
  constructor
  · exact hverified.record
  · intro later hsubject
    exact (install_there hready (hlater later hsubject)).1
  · intro later hsubject
    rw [← hverified.iff_same hadmitted hsubject]
    constructor
    · intro hsuccess
      obtain ⟨value, hvalue⟩ := hsuccess
      obtain ⟨haccepted, hverify, _⟩ := ((install_there hready (hlater later hsubject)).2 value).mp hvalue
      exact ⟨haccepted, hverify⟩
    · intro hboth
      exact ⟨_, ((install_there hready (hlater later hsubject)).2 _).mpr ⟨hboth.1, hboth.2, rfl⟩⟩
  · intro later hsubject value hvalue
    obtain ⟨_, _, hreceipt⟩ := ((install_there hready (hlater later hsubject)).2 value).mp hvalue
    have heq : later.bundle.subject = request.subject := hsubject
    rw [hreceipt, heq]

/-- In a store that starts from `fs`, every successful installation settles its subject. -/
def ImmutableProvenance (umask : Nat) (store : LinuxInstallStore) (fs : Fs) : Prop :=
  ∀ (before between : List Request) (request : Request) (installed : InstalledBundle) (fs' : Fs),
    install umask store request.bundle request.publisher (installs umask store before fs) =
      (.ok installed, fs') → Settled umask store request (installs umask store between fs')

/-- Records determine the provenance and are determined by it, and the first installation of a
subject in an empty store fixes its record for good. -/
theorem provenance_immutable (umask : Nat) (store : LinuxInstallStore) {fs : Fs}
    (hempty : ∀ p, p ≠ [] → fs.node p = none) :
    (∀ (bundle bundle' : VerifiedBundle) (publisher publisher' : Option AuthorizedPublisher)
      (record record' : Bytes), installationRecordBytes bundle publisher = .ok record →
        installationRecordBytes bundle' publisher' = .ok record' →
          (record = record' ↔
            SameBundle bundle bundle' ∧ evidence publisher = evidence publisher')) ∧
      (∀ bundle bundle' : VerifiedBundle, bundle.IsVerified → bundle'.IsVerified →
        ¬ Collides bundle bundle' → (SameBundle bundle bundle' ↔ bundle = bundle')) ∧
      ImmutableProvenance umask store fs := by
  have hidle : Idle store fs := by
    constructor
    · intro directory hdirectory
      left
      apply hempty
      intro hroot
      have hlength := internal_length hdirectory
      rw [hroot] at hlength
      cases hlength
    · intro subject
      exact hempty _ (by simp [lockPath])
  refine ⟨?_, ?_, ?_⟩
  · intro bundle bundle' publisher publisher' record record' hrecord hrecord'
    exact installationRecordBytes_eq_iff hrecord hrecord'
  · intro bundle bundle' hverified hverified' hcollision
    exact sameBundle_iff_eq hverified hverified' hcollision
  · intro before between request installed fs' hinstall
    exact settled_of_install (installs_idle before hidle) hinstall between

/-- A store with nothing but its root directory. -/
def emptyStoreFs : Fs where
  node p := if p = [] then some (sampleDirectory 1) else none
  nextInode := 2
  closed := by simp

theorem provenance_immutable_sample : ImmutableProvenance 0o022 sampleStore emptyStoreFs :=
  (provenance_immutable 0o022 sampleStore fun _ hp => if_neg hp).2.2

end Invokrum.Install
