import Invokrum.Base.JsonSize
import Invokrum.Distribution.ManifestSize
import Invokrum.Install.TreeDigest

/-!
# The size of installation records

Paths, identity attributes and digests have no control characters, so JSON
writes each of their bytes as two bytes at most. The bounds of a verified bundle
and of a publisher identity then keep every record below its limit.
-/

namespace Invokrum.Install

open Outcome Json Invokrum.Distribution Invokrum.Acquisition
open Text (Bytes)

/-! ## Strings of a record -/

/-- A text in UTF-8 has printable characters if none of its bytes is below the space. -/
theorem printable_of_bytes {s : String} (h : ∀ b ∈ Text.bytes s, 32 ≤ b.toNat) :
    ∀ c ∈ s.toList, 32 ≤ c.toNat := by
  intro c hc
  by_contra hlow
  rcases Text.utf8EncodeChar_cases c with ⟨_, hbytes⟩ | ⟨hge, _⟩
  · have hmem : c.toNat.toUInt8 ∈ Text.bytes s := by
      refine List.mem_flatMap.mpr ⟨c, hc, ?_⟩
      rw [hbytes]
      exact List.mem_cons_self
    have hbyte := h _ hmem
    rw [UInt8.toNat_ofNat', Nat.mod_eq_of_lt (by omega)] at hbyte
    exact hlow hbyte
  · omega

theorem path_size_le (path : BundlePath) : (Json.string path.text).toVec.length ≤ 2050 := by
  have hvalid := path.valid
  simp only [bundlePathValid, Bool.not_eq_true', Bool.or_eq_false_iff, decide_eq_false_iff_not,
    not_lt] at hvalid
  have hlength : Text.byteLength path.text ≤ 1024 := hvalid.1.1.1.1.1.1.1.2
  have hsize := quoted_size_le fun c hc => (path.isPathChar c hc).1
  rw [string_size]
  omega

theorem digest_size (digest : Sha256Digest) : (Json.string digest.text).toVec.length = 66 :=
  digest.quoted_length

theorem normalizedName_size_le {maximum : Nat} {name : String}
    (h : normalizedName maximum name = true) :
    (Text.utf8 (quoted name)).length ≤ 2 * maximum + 2 := by
  simp only [normalizedName, Bool.and_eq_true, decide_eq_true_eq, List.all_eq_true] at h
  obtain ⟨⟨_, hlength⟩, hbytes⟩ := h
  have hbyte : ∀ b : UInt8, normalizedNameByte b = true → 32 ≤ b.toNat := by decide +kernel
  have hsize := quoted_size_le (printable_of_bytes fun b hb => hbyte b (hbytes b hb))
  omega

theorem attributeValue_size_le {value : String} (h : validAttributeValue value = true) :
    (Json.string value).toVec.length ≤ 2050 := by
  simp only [validAttributeValue, Bool.and_eq_true, decide_eq_true_eq, Bool.not_eq_true',
    List.any_eq_false] at h
  obtain ⟨⟨_, hlength⟩, hcontrol⟩ := h
  have hprintable : ∀ c ∈ value.toList, 32 ≤ c.toNat := by
    intro c hc
    have hplain := hcontrol c hc
    simp only [isControl, Bool.or_eq_true, decide_eq_true_eq, not_or, not_lt] at hplain
    exact hplain.1
  have hbound : maxIdentityValueBytes = 1024 := rfl
  have hsize := quoted_size_le hprintable
  rw [string_size]
  omega

/-! ## Parts of a record -/

theorem fileRecord_size_le {path : BundlePath} {digest : Sha256Digest} {length : UInt64}
    (hlength : length.toNat ≤ maxBundleFileBytes) :
    (InstallationFileRecord.toJson ⟨path.text, length, digest.text⟩).toVec.length ≤ 2158 := by
  have hpath := path_size_le path
  have hdigest := digest_size digest
  have hdigits : (Json.ofUInt64 length).toVec.length ≤ 7 :=
    unsigned_size_le (by decide) (Nat.lt_of_le_of_lt hlength (by decide))
  have hkeys : (Text.utf8 (quoted "path")).length = 6 ∧
      (Text.utf8 (quoted "byte_length")).length = 13 ∧
      (Text.utf8 (quoted "sha256")).length = 8 := by decide
  have hsize := object_size_le [("path", .string path.text), ("byte_length", Json.ofUInt64 length),
    ("sha256", .string digest.text)]
  simp only [List.map_cons, List.map_nil, List.sum_cons, List.sum_nil, memberSize_mk, hkeys] at hsize
  show (Json.object [("path", .string path.text), ("byte_length", Json.ofUInt64 length),
    ("sha256", .string digest.text)]).toVec.length ≤ 2158
  omega

theorem identity_size_le (identity : PublisherIdentity) :
    (Json.object (identity.attributes.entries.map fun entry =>
      (entry.1, Json.string entry.2))).toVec.length ≤ 73922 := by
  have hentry : ∀ entry ∈ identity.attributes.entries,
      memberSize (entry.1, Json.string entry.2) ≤ 2310 := by
    intro entry hmem
    have hname := normalizedName_size_le (identity.names entry hmem)
    have hvalue := attributeValue_size_le (identity.values entry hmem)
    have hbound : maxIdentityNameBytes = 128 := rfl
    rw [memberSize_mk]
    omega
  have hsum := sum_size_le identity.count hentry
  have hsize := object_size_le (identity.attributes.entries.map fun entry =>
    (entry.1, Json.string entry.2))
  rw [List.map_map] at hsize
  exact Nat.le_trans hsize (Nat.add_le_add_left hsum 2)

theorem publisherRecord_size_le (publisher : AuthorizedPublisher) :
    (authenticatedPublisherRecord publisher).toVec.length ≤ 75000 := by
  have hmechanism : (Json.string publisher.mechanism.text).toVec.length ≤ 258 :=
    normalizedName_size_le publisher.mechanism.valid
  have hsubject := digest_size publisher.subject
  have hidentity := identity_size_le publisher.identity
  have hkeys : (Text.utf8 (quoted "status")).length = 8 ∧
      (Text.utf8 (quoted "mechanism")).length = 11 ∧
      (Text.utf8 (quoted "subject")).length = 9 ∧
      (Text.utf8 (quoted "identity")).length = 10 ∧
      (Json.string publisherAuthenticationVerifiedAndAuthorized).toVec.length = 25 := by
    decide
  have hsize := object_size_le [("status", .string publisherAuthenticationVerifiedAndAuthorized),
    ("mechanism", .string publisher.mechanism.text), ("subject", .string publisher.subject.text),
    ("identity", .object (publisher.identity.attributes.entries.map fun entry =>
      (entry.1, .string entry.2)))]
  simp only [List.map_cons, List.map_nil, List.sum_cons, List.sum_nil, memberSize_mk, hkeys] at hsize
  unfold authenticatedPublisherRecord
  omega

theorem rootIdentity_size_le (subject : Sha256Digest) :
    (Json.string ("sha256/" ++ subject.text)).toVec.length ≤ 144 := by
  have hvalid := subject.valid
  simp only [Digest.validSha256, Bool.and_eq_true, beq_iff_eq, List.all_eq_true] at hvalid
  have hhex : ∀ b : UInt8, Text.isLowerHexDigit b = true → 32 ≤ b.toNat := by decide +kernel
  have hbytes : Text.bytes ("sha256/" ++ subject.text) =
      Text.bytes "sha256/" ++ Text.bytes subject.text := by
    rw [Text.bytes, String.toList_append, Text.utf8_append]
    rfl
  have hprefix : ∀ b ∈ Text.bytes "sha256/", 32 ≤ b.toNat := by decide +kernel
  have hprintable : ∀ c ∈ ("sha256/" ++ subject.text).toList, 32 ≤ c.toNat := by
    apply printable_of_bytes
    intro b hb
    rw [hbytes] at hb
    rcases List.mem_append.mp hb with hb | hb
    · exact hprefix b hb
    · exact hhex b (hvalid.2 b hb)
  have hseven : (Text.bytes "sha256/").length = 7 := by decide
  have hsubject : (Text.bytes subject.text).length = 64 := hvalid.1
  have hlength : Text.byteLength ("sha256/" ++ subject.text) = 71 := by
    rw [Text.byteLength, hbytes, List.length_append, hseven, hsubject]
  have hsize := quoted_size_le hprintable
  rw [string_size]
  omega

/-! ## The whole record -/

/-- A record of a bundle, as it is before the publisher decides its format. -/
structure Fits (record : InstallationRecord) : Prop where
  subject : (Json.string record.bundleSubject).toVec.length ≤ 66
  entryPoint : (Json.string record.entryPoint).toVec.length ≤ 2050
  rootIdentity : (Json.string record.rootIdentity).toVec.length ≤ 144
  treeDigest : (Json.string record.installedTreeDigest).toVec.length ≤ 66
  count : record.files.length ≤ maxBundleFiles
  files : ∀ file ∈ record.files, file.toJson.toVec.length ≤ 2158

theorem Fits.document_size_le {record : InstallationRecord} (h : Fits record) {format : String}
    {authentication : Json} (hformat : (Json.string format).toVec.length = 26)
    (hauthentication : authentication.toVec.length ≤ 75000) :
    (record.toJson format authentication).toVec.length < maxInstallationRecordBytes := by
  have hfiles : (record.files.map fun file => file.toJson.toVec.length + 1).sum ≤ 512 * 2159 :=
    sum_size_le h.count fun file hfile => Nat.succ_le_succ (h.files file hfile)
  have harray := array_size_le (record.files.map InstallationFileRecord.toJson)
  rw [List.map_map] at harray
  have hlist : (Json.array (record.files.map InstallationFileRecord.toJson)).toVec.length ≤
      2 + 512 * 2159 := Nat.le_trans harray (Nat.add_le_add_left hfiles 2)
  have hkeys : (Text.utf8 (quoted "format")).length = 8 ∧
      (Text.utf8 (quoted "bundle_subject")).length = 16 ∧
      (Text.utf8 (quoted "entry_point")).length = 13 ∧
      (Text.utf8 (quoted "root_identity")).length = 15 ∧
      (Text.utf8 (quoted "installed_tree_digest_format")).length = 30 ∧
      (Text.utf8 (quoted "installed_tree_digest")).length = 23 ∧
      (Text.utf8 (quoted "publisher_authentication")).length = 26 ∧
      (Text.utf8 (quoted "files")).length = 7 ∧
      (Json.string installedTreeDigestFormat).toVec.length = 28 := by decide +kernel
  have hsize := object_size_le [("format", .string format),
    ("bundle_subject", .string record.bundleSubject), ("entry_point", .string record.entryPoint),
    ("root_identity", .string record.rootIdentity),
    ("installed_tree_digest_format", .string installedTreeDigestFormat),
    ("installed_tree_digest", .string record.installedTreeDigest),
    ("publisher_authentication", authentication),
    ("files", .array (record.files.map InstallationFileRecord.toJson))]
  simp only [List.map_cons, List.map_nil, List.sum_cons, List.sum_nil, memberSize_mk, hkeys,
    hformat] at hsize
  have hsubject := h.subject
  have hentry := h.entryPoint
  have hroot := h.rootIdentity
  have hdigest := h.treeDigest
  have hbound : maxInstallationRecordBytes = 2097152 := rfl
  unfold InstallationRecord.toJson
  omega

/-- The format follows the publisher; both are below the limit. -/
theorem Fits.size_le {record : InstallationRecord} (h : Fits record)
    (publisher : Option AuthorizedPublisher) :
    (installationDocument record publisher).toVec.length < maxInstallationRecordBytes := by
  have hformats : (Json.string installationRecordFormat).toVec.length = 26 ∧
      (Json.string authenticatedInstallationRecordFormat).toVec.length = 26 ∧
      (Json.string publisherAuthenticationNotProvided).toVec.length = 14 := by decide
  cases publisher with
  | none => exact h.document_size_le hformats.1 (by rw [hformats.2.2]; decide)
  | some publisher => exact h.document_size_le hformats.2.1 (publisherRecord_size_le publisher)

/-- The record of one file. -/
def fileRecordOf (file : VerifiedFile) : InstallationFileRecord :=
  ⟨file.path.text, UInt64.ofNat file.bytes.length, file.digest.text⟩

theorem fileRecords_eq {bundle : VerifiedBundle} (h : bundle.IsVerified) :
    collect installationFileRecord bundle.files = .ok (bundle.files.map fileRecordOf) := by
  apply collect_eq_map
  intro file hfile
  have hword : file.bytes.length < Machine.wordSize :=
    Nat.lt_of_le_of_lt (VerifiedBundle.bounded h hfile) (by decide)
  simp only [installationFileRecord, byteLength, if_pos hword, ok_bind, fileRecordOf, pure,
    Except.pure]

theorem VerifiedBundle.count_le {bundle : VerifiedBundle} (h : bundle.IsVerified) :
    bundle.files.length ≤ maxBundleFiles := by
  obtain ⟨manifest, _, _, candidates, hb⟩ := h
  obtain ⟨_, rfl⟩ := verifyCandidate_eq_ok.mp hb
  have hcount := Nat.le_trans manifest.accepted.count BundleLimits.default.files_le
  rw [VerifiedBundle.of, List.length_zipWith]
  omega

/-- The digest of an installed tree is a digest. -/
theorem installedTreeDigest_size {bundle : VerifiedBundle} (h : bundle.IsVerified) :
    ∃ digest : Sha256Digest, installedTreeDigest bundle = .ok digest.text := by
  rw [installedTreeDigest_eq, treeDigestPreimage_eq h]
  exact ⟨⟨_, Digest.sha256LowerHex_valid _⟩, rfl⟩

def recordOf (bundle : VerifiedBundle) (digest : Sha256Digest) : InstallationRecord :=
  ⟨bundle.subject.text, bundle.entryPoint.text, "sha256/" ++ bundle.subject.text, digest.text,
    bundle.files.map fileRecordOf⟩

theorem recordOf_fits {bundle : VerifiedBundle} (h : bundle.IsVerified) (digest : Sha256Digest) :
    Fits (recordOf bundle digest) := by
  refine ⟨Nat.le_of_eq (digest_size bundle.subject), path_size_le _, rootIdentity_size_le _,
    Nat.le_of_eq (digest_size digest), ?_, ?_⟩
  · rw [recordOf, List.length_map]
    exact VerifiedBundle.count_le h
  · intro record hrecord
    obtain ⟨file, hfile, rfl⟩ := List.mem_map.mp hrecord
    apply fileRecord_size_le
    have hbounded := VerifiedBundle.bounded h hfile
    rw [UInt64.toNat_ofNat_of_lt' (Nat.lt_of_le_of_lt hbounded (by decide))]
    exact hbounded

theorem exists_record {bundle : VerifiedBundle} {publisher : Option AuthorizedPublisher}
    (h : bundle.IsVerified) (hmatching : publisherMismatch bundle publisher = false) :
    ∃ bytes, installationRecordBytes bundle publisher = .ok bytes ∧
      bytes.length ≤ maxInstallationRecordBytes := by
  obtain ⟨digest, hdigest⟩ := installedTreeDigest_size h
  have hsize := (recordOf_fits h digest).size_le publisher
  have hnewline : (Text.utf8 ['\n']).length = 1 := by decide
  have hlength : ((installationDocument (recordOf bundle digest) publisher).toVec ++
      Text.utf8 ['\n']).length ≤ maxInstallationRecordBytes := by
    rw [List.length_append, hnewline]
    exact hsize
  refine ⟨_, ?_, hlength⟩
  rw [installationRecordBytes, rejectIf_of_not _ (by simp [hmatching]), ok_bind, fileRecords_eq h,
    ok_bind, hdigest, ok_bind]
  simp only
  rw [rejectIf_of_not]
  · rfl
  · exact Nat.not_lt.mpr hlength

/-- Every verified bundle has a record within the limit for every publisher of its subject, and
no record is refused for its size. -/
theorem installationRecordBytes_fits (bundle : VerifiedBundle)
    (publisher : Option AuthorizedPublisher) (h : bundle.IsVerified) :
    installationRecordBytes bundle publisher ≠ .error .recordTooLarge ∧
      (publisherMismatch bundle publisher = false →
        ∃ bytes, installationRecordBytes bundle publisher = .ok bytes ∧
          bytes.length ≤ maxInstallationRecordBytes) := by
  refine ⟨?_, exists_record h⟩
  intro herror
  cases hmatching : publisherMismatch bundle publisher with
  | true =>
      rw [installationRecordBytes, rejectIf_of _ hmatching, error_bind] at herror
      cases herror
  | false =>
      obtain ⟨bytes, hbytes, _⟩ := exists_record h hmatching
      rw [herror] at hbytes
      cases hbytes

/-- A publisher that is called by quoted names. -/
def quotedPublisher : AuthorizedPublisher where
  assertion :=
    { mechanism := ⟨"sigstore.keyless", by decide +kernel⟩
      subject := sampleSubject
      identity :=
        { attributes := ⟨[("issuer", "\"the issuer\""), ("name", "a \"quoted\" \\ name")],
            by decide +kernel⟩
          nonempty := by decide
          count := by decide
          names := by decide +kernel
          values := by decide +kernel } }

theorem installationRecordBytes_fits_sample :
    ∃ bytes, installationRecordBytes sampleBundle (some quotedPublisher) = .ok bytes ∧
      bytes.length ≤ maxInstallationRecordBytes := by
  have hverified : sampleBundle.IsVerified := ⟨_, _, _, _, verifyCandidate_sample⟩
  have hmatching : publisherMismatch sampleBundle (some quotedPublisher) = false := by
    decide +kernel
  exact (installationRecordBytes_fits sampleBundle (some quotedPublisher) hverified).2 hmatching

end Invokrum.Install
