import Invokrum.Acquisition.Candidate
import Invokrum.Base.JsonFields
import Invokrum.Base.JsonReader
import Invokrum.Distribution.Publisher

/-!
# Installation records

The record of an installation is one JSON line about the bundle and its
publisher evidence. Its bytes determine everything it was made from except the
file contents, which it names by length and digest.
-/

namespace Invokrum.Install

open Outcome Ordered Invokrum.Distribution Invokrum.Acquisition
open Text (Bytes)
open Json (printable_object printable_string)

def installationRecordFormat : String := "invokrum.installation/v1"

def authenticatedInstallationRecordFormat : String := "invokrum.installation/v2"

def installedTreeDigestFormat : String := "invokrum.installed-tree/v1"

def maxInstallationRecordBytes : Nat := 2097152

def publisherAuthenticationNotProvided : String := "not-provided"

def publisherAuthenticationVerifiedAndAuthorized : String := "verified-and-authorized"

/-- The loader's failures. -/
inductive LocalCandidateError where
  | unsupportedPlatform
  | procUnavailable
  | rootUnavailable
  | rootSymlink
  | rootNotDirectory
  | rootChanged
  | treeChanged
  | traversalLimitExceeded
  | invalidEntryName
  | logicalPathCollision
  | deviceBoundary
  | symbolicLink (path : BundlePath)
  | hardLinkedFile (path : BundlePath)
  | nonRegularFile (path : BundlePath)
  | undeclaredEntry (path : BundlePath)
  | missingDeclaredFile (path : BundlePath)
  | fileTooLarge (path : BundlePath)
  | openFailed (path : BundlePath)
  | readFailed (path : BundlePath)
  | fileChanged (path : BundlePath)
  | rootEscape (path : BundlePath)
deriving DecidableEq

inductive LinuxInstallStoreError where
  | unsupportedPlatform
  | procUnavailable
  | rootUnavailable
  | rootSymbolicLink
  | rootNotDirectory
  | storeChanged
  | storePathUnsafe
  | reservedMetadataPath
  | subjectLocked
  | stagingUnavailable
  | materializationConflict (path : BundlePath)
  | manifestReconstruction
  | recordSerialization
  | recordTooLarge
  | publisherSubjectMismatch
  | stageVerification (error : LocalCandidateError)
  | contentVerification (error : CandidateVerificationError)
  | recordMismatch
  | existingInstallationMismatch
  | io
deriving DecidableEq

/-- Publisher evidence that a host policy authorized. -/
structure AuthorizedPublisher where
  assertion : PublisherAssertion
deriving DecidableEq

namespace AuthorizedPublisher

def subject (publisher : AuthorizedPublisher) : Sha256Digest := publisher.assertion.subject

def mechanism (publisher : AuthorizedPublisher) : VerificationMechanism :=
  publisher.assertion.mechanism

def identity (publisher : AuthorizedPublisher) : PublisherIdentity := publisher.assertion.identity

theorem ext {p q : AuthorizedPublisher} (hmechanism : p.mechanism = q.mechanism)
    (hsubject : p.subject = q.subject) (hidentity : p.identity = q.identity) : p = q := by
  obtain ⟨⟨_, _, _⟩⟩ := p
  obtain ⟨⟨_, _, _⟩⟩ := q
  cases hmechanism; cases hsubject; cases hidentity
  rfl

end AuthorizedPublisher

/-! ## Documents -/

structure InstallationFileRecord where
  path : String
  byteLength : UInt64
  sha256 : String
deriving DecidableEq

def InstallationFileRecord.toJson (file : InstallationFileRecord) : Json :=
  .object [("path", .string file.path), ("byte_length", Json.ofUInt64 file.byteLength),
    ("sha256", .string file.sha256)]

/-- The members that both record formats share. -/
structure InstallationRecord where
  bundleSubject : String
  entryPoint : String
  rootIdentity : String
  installedTreeDigest : String
  files : List InstallationFileRecord
deriving DecidableEq

def InstallationRecord.toJson (record : InstallationRecord) (format : String)
    (publisherAuthentication : Json) : Json :=
  .object [("format", .string format), ("bundle_subject", .string record.bundleSubject),
    ("entry_point", .string record.entryPoint), ("root_identity", .string record.rootIdentity),
    ("installed_tree_digest_format", .string installedTreeDigestFormat),
    ("installed_tree_digest", .string record.installedTreeDigest),
    ("publisher_authentication", publisherAuthentication),
    ("files", .array (record.files.map InstallationFileRecord.toJson))]

/-- `AuthenticatedPublisherRecord`. -/
def authenticatedPublisherRecord (publisher : AuthorizedPublisher) : Json :=
  .object [("status", .string publisherAuthenticationVerifiedAndAuthorized),
    ("mechanism", .string publisher.mechanism.text),
    ("subject", .string publisher.subject.text),
    ("identity", .object (publisher.identity.attributes.entries.map fun entry =>
      (entry.1, .string entry.2)))]

def installationRecordV1 (record : InstallationRecord) : Json :=
  record.toJson installationRecordFormat (.string publisherAuthenticationNotProvided)

def installationRecordV2 (record : InstallationRecord) (publisher : AuthorizedPublisher) : Json :=
  record.toJson authenticatedInstallationRecordFormat (authenticatedPublisherRecord publisher)

/-- The record format follows the publisher option. -/
def installationDocument (record : InstallationRecord) : Option AuthorizedPublisher → Json
  | none => installationRecordV1 record
  | some publisher => installationRecordV2 record publisher

/-! ## Record bytes -/

/-- `u64::try_from(bytes.len())`. -/
def byteLength (bytes : Bytes) (error : LinuxInstallStoreError) :
    Except LinuxInstallStoreError UInt64 :=
  if bytes.length < Machine.wordSize then .ok (.ofNat bytes.length) else .error error

def installationFileRecord (file : VerifiedFile) :
    Except LinuxInstallStoreError InstallationFileRecord := do
  let length ← byteLength file.bytes .recordSerialization
  pure ⟨file.path.text, length, file.digest.text⟩

/-- The line that the tree digest hashes for one file. -/
def treeDigestEntry (file : VerifiedFile) : Except LinuxInstallStoreError Bytes := do
  let length ← byteLength file.bytes .recordSerialization
  pure (Text.bytes file.path.text ++ [0] ++ Text.utf8 (Nat.toDigits 10 length.toNat) ++ [0]
    ++ Text.bytes file.digest.text ++ Text.utf8 ['\n'])

def installedTreeDigest (bundle : VerifiedBundle) : Except LinuxInstallStoreError String := do
  let entries ← collect treeDigestEntry bundle.files
  pure (Digest.sha256LowerHex (Text.bytes installedTreeDigestFormat ++ [0] ++ entries.flatten))

/-- `publisher.is_some_and(|publisher| publisher.subject() != bundle.subject())`. -/
def publisherMismatch (bundle : VerifiedBundle) (publisher : Option AuthorizedPublisher) : Bool :=
  publisher.any fun publisher => publisher.subject ≠ bundle.subject

def installationRecordBytes (bundle : VerifiedBundle) (publisher : Option AuthorizedPublisher) :
    Except LinuxInstallStoreError Bytes := do
  rejectIf (publisherMismatch bundle publisher = true) .publisherSubjectMismatch
  let files ← collect installationFileRecord bundle.files
  let treeDigest ← installedTreeDigest bundle
  let record : InstallationRecord :=
    { bundleSubject := bundle.subject.text
      entryPoint := bundle.entryPoint.text
      rootIdentity := "sha256/" ++ bundle.subject.text
      installedTreeDigest := treeDigest
      files := files }
  let bytes := (installationDocument record publisher).toVec ++ Text.utf8 ['\n']
  rejectIf (maxInstallationRecordBytes < bytes.length) .recordTooLarge
  pure bytes

/-! ## What a record determines -/

theorem InstallationFileRecord.toJson_injective :
    Function.Injective InstallationFileRecord.toJson := by
  intro a b h
  cases a; cases b
  simp only [toJson, Json.ofUInt64, Json.object.injEq, List.cons.injEq, Prod.mk.injEq,
    Json.string.injEq, Json.unsigned.injEq, UInt64.toNat_inj, true_and, and_true] at h
  obtain ⟨rfl, rfl, rfl⟩ := h
  rfl

theorem InstallationRecord.toJson_inj {a b : InstallationRecord} {format format' : String}
    {publisher publisher' : Json} (h : a.toJson format publisher = b.toJson format' publisher') :
    a = b ∧ format = format' ∧ publisher = publisher' := by
  cases a; cases b
  simp only [toJson, Json.object.injEq, List.cons.injEq, Prod.mk.injEq, Json.string.injEq,
    Json.array.injEq, true_and, and_true,
    (List.map_injective_iff.mpr InstallationFileRecord.toJson_injective).eq_iff] at h
  obtain ⟨rfl, rfl, rfl, rfl, rfl, rfl, rfl⟩ := h
  exact ⟨rfl, rfl, rfl⟩

theorem authenticatedPublisherRecord_injective :
    Function.Injective authenticatedPublisherRecord := by
  intro p q h
  have hentry : Function.Injective fun entry : String × String =>
      (entry.1, Json.string entry.2) := by
    intro a b hab
    simpa [Prod.ext_iff] using hab
  simp only [authenticatedPublisherRecord, Json.object.injEq, List.cons.injEq, Prod.mk.injEq,
    Json.string.injEq, true_and, and_true,
    (List.map_injective_iff.mpr hentry).eq_iff] at h
  obtain ⟨hmechanism, hsubject, hidentity⟩ := h
  exact AuthorizedPublisher.ext (VerificationMechanism.text_injective hmechanism)
    (Sha256Digest.text_injective hsubject)
    (PublisherIdentity.attributes_injective (SortedMap.ext hidentity))

theorem installationDocument_inj {a b : InstallationRecord}
    {publisher publisher' : Option AuthorizedPublisher}
    (h : installationDocument a publisher = installationDocument b publisher') :
    a = b ∧ publisher = publisher' := by
  have hformat : installationRecordFormat ≠ authenticatedInstallationRecordFormat := by decide
  cases publisher with
  | none =>
      cases publisher' with
      | none => exact ⟨(InstallationRecord.toJson_inj h).1, rfl⟩
      | some q => exact absurd (InstallationRecord.toJson_inj h).2.1 hformat
  | some p =>
      cases publisher' with
      | none => exact absurd (InstallationRecord.toJson_inj h).2.1.symm hformat
      | some q =>
          obtain ⟨hrecord, _, hpublisher⟩ := InstallationRecord.toJson_inj h
          exact ⟨hrecord, congrArg some (authenticatedPublisherRecord_injective hpublisher)⟩

theorem installationDocument_printable (record : InstallationRecord)
    (publisher : Option AuthorizedPublisher) :
    (installationDocument record publisher).printable 3 = true := by
  have hfile : ∀ file ∈ record.files, file.toJson.printable 1 = true := by
    intro file _
    simp [InstallationFileRecord.toJson]
  have hpublisher : ∀ p : AuthorizedPublisher,
      (authenticatedPublisherRecord p).printable 2 = true := by
    intro p
    simp only [authenticatedPublisherRecord, printable_object, List.forall_mem_cons,
      List.forall_mem_map, printable_string, List.not_mem_nil, false_imp_iff, implies_true,
      and_self]
  cases publisher with
  | none =>
      simpa [installationDocument, installationRecordV1, InstallationRecord.toJson] using hfile
  | some p =>
      simpa [installationDocument, installationRecordV2, InstallationRecord.toJson,
        hpublisher p] using hfile

/-- What a record says about a file. -/
structure SameFile (file file' : VerifiedFile) : Prop where
  path : file.path = file'.path
  length : file.bytes.length = file'.bytes.length
  digest : file.digest = file'.digest

theorem sameFile_of_record {file file' : VerifiedFile} {record : InstallationFileRecord}
    (h : installationFileRecord file = .ok record)
    (h' : installationFileRecord file' = .ok record) : SameFile file file' := by
  simp only [installationFileRecord, byteLength, bind_eq_ok, pure, Except.pure,
    Except.ok.injEq] at h h'
  obtain ⟨length, hlength, rfl⟩ := h
  obtain ⟨length', hlength', heq⟩ := h'
  split at hlength
  · next hfits =>
      split at hlength'
      · next hfits' =>
          cases hlength
          cases hlength'
          simp only [InstallationFileRecord.mk.injEq, BundlePath.text_inj, Sha256Digest.text_inj,
            ← UInt64.toNat_inj, UInt64.toNat_ofNat'] at heq
          have hlength : file'.bytes.length = file.bytes.length := by
            rw [Machine.wordSize] at hfits hfits'
            omega
          exact ⟨heq.1.symm, hlength.symm, heq.2.2.symm⟩
      · cases hlength'
  · cases hlength

/-- Two bundles that one record describes. -/
structure SameBundle (bundle bundle' : VerifiedBundle) : Prop where
  subject : bundle.subject = bundle'.subject
  entryPoint : bundle.entryPoint = bundle'.entryPoint
  files : List.Forall₂ SameFile bundle.files bundle'.files

/-- Two files of one digest with different contents. -/
def Collides (bundle bundle' : VerifiedBundle) : Prop :=
  ∃ file ∈ bundle.files, ∃ file' ∈ bundle'.files, file.bytes ≠ file'.bytes ∧
    Digest.sha256LowerHex file.bytes = Digest.sha256LowerHex file'.bytes

theorem files_eq_or_collide {files files' : List VerifiedFile}
    (h : List.Forall₂ SameFile files files')
    (hdigest : ∀ file ∈ files, Digest.sha256LowerHex file.bytes = file.digest.text)
    (hdigest' : ∀ file ∈ files', Digest.sha256LowerHex file.bytes = file.digest.text) :
    files = files' ∨ ∃ file ∈ files, ∃ file' ∈ files', file.bytes ≠ file'.bytes ∧
      Digest.sha256LowerHex file.bytes = Digest.sha256LowerHex file'.bytes := by
  induction h with
  | nil => exact .inl rfl
  | @cons file file' files files' hsame _ ih =>
      by_cases hbytes : file.bytes = file'.bytes
      · have hfile : file = file' := by
          cases file
          cases file'
          cases hbytes
          cases hsame.path
          cases hsame.digest
          rfl
        rcases ih (fun f hf => hdigest f (List.mem_cons_of_mem _ hf))
          (fun f hf => hdigest' f (List.mem_cons_of_mem _ hf)) with heq | hcollide
        · exact .inl (by rw [hfile, heq])
        · obtain ⟨f, hf, f', hf', hcollide⟩ := hcollide
          exact .inr ⟨f, List.mem_cons_of_mem _ hf, f', List.mem_cons_of_mem _ hf', hcollide⟩
      · refine .inr ⟨file, List.mem_cons_self, file', List.mem_cons_self, hbytes, ?_⟩
        rw [hdigest file List.mem_cons_self, hdigest' file' List.mem_cons_self, hsame.digest]

/-- Verified bundles of one record are equal, up to a collision between their files. -/
theorem SameBundle.eq_or_collides {bundle bundle' : VerifiedBundle}
    (h : SameBundle bundle bundle') (hverified : bundle.IsVerified)
    (hverified' : bundle'.IsVerified) : bundle = bundle' ∨ Collides bundle bundle' := by
  rcases files_eq_or_collide h.files (fun _ => hverified.digest) (fun _ => hverified'.digest)
    with hfiles | hcollide
  · left
    obtain ⟨subject, entryPoint, files⟩ := bundle
    obtain ⟨subject', entryPoint', files'⟩ := bundle'
    cases h.subject
    cases h.entryPoint
    cases hfiles
    rfl
  · exact .inr hcollide

theorem forall₂_sameFile {files files' : List VerifiedFile} {records : List InstallationFileRecord}
    (h : collect installationFileRecord files = .ok records)
    (h' : collect installationFileRecord files' = .ok records) :
    List.Forall₂ SameFile files files' := by
  rw [collect_eq_ok] at h h'
  induction h generalizing files' with
  | nil =>
      cases h'
      exact .nil
  | cons hfile _ ih =>
      cases h' with
      | cons hfile' htail => exact .cons (sameFile_of_record hfile hfile') (ih htail)

/-- Record bytes determine the bundle, up to file contents, and the publisher evidence. -/
theorem installationRecordBytes_inj {bundle bundle' : VerifiedBundle}
    {publisher publisher' : Option AuthorizedPublisher} {bytes : Bytes}
    (h : installationRecordBytes bundle publisher = .ok bytes)
    (h' : installationRecordBytes bundle' publisher' = .ok bytes) :
    SameBundle bundle bundle' ∧ publisher = publisher' := by
  simp only [installationRecordBytes, bind_eq_ok, rejectIf_eq_ok, exists_const, pure, Except.pure,
    Except.ok.injEq] at h h'
  obtain ⟨_, files, hfiles, treeDigest, _, _, rfl⟩ := h
  obtain ⟨_, files', hfiles', treeDigest', _, _, hbytes⟩ := h'
  have hjson := Json.toVec_injective (installationDocument_printable _ _)
    (installationDocument_printable _ _) (List.append_cancel_right hbytes)
  obtain ⟨hrecord, hpublisher⟩ := installationDocument_inj hjson
  simp only [InstallationRecord.mk.injEq, Sha256Digest.text_inj, BundlePath.text_inj] at hrecord
  obtain ⟨hsubject, hentry, _, _, rfl⟩ := hrecord
  exact ⟨⟨hsubject.symm, hentry.symm, forall₂_sameFile hfiles hfiles'⟩, hpublisher.symm⟩

/-! ## A bundle of one file -/

def sampleSubject : Sha256Digest :=
  ⟨"0000000000000000000000000000000000000000000000000000000000000000", by decide +kernel⟩

def samplePath : BundlePath := ⟨"a", by decide +kernel⟩

def sampleDigest : Sha256Digest :=
  ⟨"ca978112ca1bbdcafac231b39a23dc4da786eff8147c4e72b9807785afee48bb", by decide +kernel⟩

def sampleBundle : VerifiedBundle :=
  ⟨sampleSubject, samplePath, [⟨samplePath, [97], sampleDigest⟩]⟩

def oneFileManifest : BundleManifest where
  entryPoint := samplePath
  files := [⟨samplePath, 1, sampleDigest⟩]
  accepted := ⟨by decide +kernel, by decide +kernel, by simp, by decide, by decide, by simp⟩
  sorted := by simp

theorem verifyCandidate_sample :
    verifyCandidate oneFileManifest sampleSubject sampleSubject
      [⟨samplePath, [97], by decide⟩] = .ok sampleBundle := by
  decide +kernel

end Invokrum.Install
