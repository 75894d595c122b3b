import Invokrum.Base.Success
import Invokrum.Delivery.Fresh
import Invokrum.Delivery.Install

/-!
# What a successful installation binds

An installation that succeeds has decoded a canonical manifest, compared its
digest with the subject it was given and left the files of that manifest in the
store. With a publisher, the key that it was told to trust has signed that
subject, and the record in the store says so.
-/

namespace Invokrum.Delivery

open Programs Outcome Invokrum.Distribution Invokrum.Acquisition Invokrum.Install
open Invokrum.FileSystem
open Verifier (Accepts Ed25519 keyAssertion keyIdentity ed25519Mechanism subjectMessage
  subjectMessage_injective verify_eq_ok)
open Cli (InstallOutcome)
open Text (Bytes)

variable {Key : Type} {host : Host Key} {path bytes : Bytes}

/-! ## Reading -/

/-- The file at this path holds these bytes. -/
def Host.Holds (host : Host Key) (path bytes : Bytes) : Prop :=
  ∃ file, host.file path = some file ∧ file.content = some bytes

theorem Host.Holds.unique {bytes' : Bytes} (h : host.Holds path bytes)
    (h' : host.Holds path bytes') : bytes = bytes' := by
  obtain ⟨file, hfile, hbytes⟩ := h
  obtain ⟨file', hfile', hbytes'⟩ := h'
  obtain rfl := Option.some.inj (hfile.symm.trans hfile')
  exact Option.some.inj (hbytes.symm.trans hbytes')

/-- What a bounded read accepts: a regular file of the given bytes, all of them. -/
structure Readable (host : Host Key) (path : Bytes) (maximumBytes : Nat) (bytes : Bytes) :
    Prop where
  holds : ∃ metadata, host.file path = some ⟨some metadata, some bytes⟩ ∧
    metadata.isFile = true ∧ metadata.length ≤ maximumBytes
  bounded : bytes.length ≤ maximumBytes

theorem Readable.contents {maximumBytes : Nat} (h : Readable host path maximumBytes bytes) :
    host.Holds path bytes := by
  obtain ⟨metadata, hfile, _⟩ := h.holds
  exact ⟨_, hfile, rfl⟩

theorem readBoundedFile_eq_ok {maximumBytes : Nat} {label : String} :
    readBoundedFile host path maximumBytes label = .ok bytes ↔
      Readable host path maximumBytes bytes := by
  simp only [readBoundedFile, bind_eq_ok, okOr_eq_ok, rejectIf_eq_ok, exists_const, pure,
    Except.pure, Except.ok.injEq, Bool.not_eq_false, not_lt]
  constructor
  · intro h
    obtain ⟨file, hfile, metadata, hmetadata, hregular, hlength, content, hcontent, hbound, rfl⟩ :=
      h
    -- The read asks for one byte more than allowed, so it has seen the end of the file.
    have hwhole : content.take (maximumBytes + 1) = content := by
      rw [List.length_take] at hbound
      exact List.take_of_length_le (by omega)
    rw [hwhole] at hbound ⊢
    obtain ⟨metadata', content'⟩ := file
    cases hmetadata
    cases hcontent
    exact ⟨⟨metadata, hfile, hregular, hlength⟩, hbound⟩
  · intro h
    obtain ⟨metadata, hfile, hregular, hlength⟩ := h.holds
    have hwhole : bytes.take (maximumBytes + 1) = bytes :=
      List.take_of_length_le (Nat.le_succ_of_le h.bounded)
    exact ⟨_, hfile, metadata, rfl, hregular, hlength, bytes, rfl, by rw [hwhole]; exact h.bounded,
      hwhole⟩

theorem readExactFile_eq_ok {expectedBytes : Nat} {label : String} :
    readExactFile host path expectedBytes label = .ok bytes ↔
      Readable host path expectedBytes bytes ∧ bytes.length = expectedBytes := by
  simp only [readExactFile, bind_eq_ok, readBoundedFile_eq_ok, rejectIf_eq_ok, exists_const, pure,
    Except.pure, Except.ok.injEq, ne_eq, not_not]
  constructor
  · intro h
    obtain ⟨bytes', hread, hlength, rfl⟩ := h
    exact ⟨hread, hlength⟩
  · intro h
    exact ⟨bytes, h.1, h.2, rfl⟩

/-! ## Digests -/

def sha256Of (bytes : Bytes) : Sha256Digest :=
  ⟨Digest.sha256LowerHex bytes, Digest.sha256LowerHex_valid bytes⟩

/-- How a digest is written in an argument. -/
def Denotes (argument : String) (digest : Sha256Digest) : Prop :=
  argument = digest.text ∨ argument = "sha256:" ++ digest.text

theorem digestText_text (digest : Sha256Digest) : digestText digest.text = digest.text := by
  have hvalid := digest.valid
  simp only [Digest.validSha256, Bool.and_eq_true, beq_iff_eq, List.all_eq_true] at hvalid
  rw [digestText, if_neg]
  intro hprefix
  obtain ⟨rest, hrest⟩ := List.isPrefixOf_iff_prefix.mp hprefix
  have hbytes : (115 : UInt8) ∈ Text.bytes digest.text := by
    rw [Text.bytes, ← hrest]
    simp only [digestPrefix, Text.utf8, List.mem_flatMap, List.mem_append]
    exact ⟨'s', .inl (by decide), by decide⟩
  exact absurd (hvalid.2 _ hbytes) (by decide)

theorem digestText_prefixed (digest : Sha256Digest) :
    digestText ("sha256:" ++ digest.text) = digest.text := by
  have hlist : ("sha256:" ++ digest.text).toList = digestPrefix ++ digest.text.toList := by
    rw [String.toList_append]
    rfl
  rw [digestText, hlist, if_pos (List.isPrefixOf_iff_prefix.mpr ⟨_, rfl⟩), List.drop_left,
    String.ofList_toList]

theorem denotes_iff {argument : String} {digest : Sha256Digest} :
    Denotes argument digest ↔ digestText argument = digest.text := by
  constructor
  · intro h
    rcases h with rfl | rfl
    · exact digestText_text digest
    · exact digestText_prefixed digest
  · intro h
    unfold digestText at h
    split at h
    · next hprefix =>
        obtain ⟨rest, hrest⟩ := List.isPrefixOf_iff_prefix.mp hprefix
        have htext : rest = digest.text.toList := by
          rw [← h, String.toList_ofList, ← hrest, List.drop_left]
        right
        rw [← String.toList_inj, String.toList_append, ← hrest, htext]
        rfl
    · exact .inl h

theorem Denotes.unique {argument : String} {digest digest' : Sha256Digest}
    (h : Denotes argument digest) (h' : Denotes argument digest') : digest = digest' :=
  Sha256Digest.text_injective ((denotes_iff.mp h).symm.trans (denotes_iff.mp h'))

theorem parseDigestArgument_eq_ok {argument option : String} {digest : Sha256Digest} :
    parseDigestArgument argument option = .ok digest ↔ Denotes argument digest := by
  rw [parseDigestArgument, mapError_eq_ok, Sha256Digest.parse_eq_ok, denotes_iff, eq_comm]

/-! ## Trust -/

theorem one_le_maxTrustRules : 1 ≤ maxTrustRules := by decide

/-- The policy that trusts one key. -/
def keyPolicy (trusted : Sha256Digest) : TrustPolicy where
  rules := [⟨ed25519Mechanism, keyIdentity trusted⟩]
  nonempty := List.cons_ne_nil _ _
  count := one_le_maxTrustRules

theorem singleEd25519Policy_eq (trusted : Sha256Digest) :
    singleEd25519Policy trusted = .ok (keyPolicy trusted) := by
  rw [singleEd25519Policy, Verifier.ed25519Mechanism_parse, Verifier.keyIdentity_new]
  rfl

/-- The policy of a key admits the assertions about that key and no others. -/
theorem keyPolicy_authorizes {trusted digest subject expected : Sha256Digest} :
    (keyPolicy trusted).Authorizes (keyAssertion subject digest) expected ↔
      subject = expected ∧ digest = trusted := by
  constructor
  · intro h
    obtain ⟨rule, hrule, hadmits⟩ := h.rule
    obtain rfl : rule = ⟨ed25519Mechanism, keyIdentity trusted⟩ := List.mem_singleton.mp hrule
    have hentry := hadmits.identity (Verifier.identityKeySha256, trusted.text)
      (by rw [Verifier.keyIdentity_entries]; exact List.mem_singleton.mpr rfl)
    have hsame : (Verifier.identityKeySha256, trusted.text) =
        (Verifier.identityKeySha256, digest.text) := List.mem_singleton.mp hentry
    exact ⟨h.subject, (Sha256Digest.text_injective (Prod.mk.inj hsame).2).symm⟩
  · intro h
    obtain ⟨rfl, rfl⟩ := h
    exact ⟨rfl, _, List.mem_singleton.mpr rfl, rfl, fun _ hentry => hentry⟩

/-! ## Workflows that succeed -/

section

variable {VerifierError LoadError StoreError Receipt S : Type}
  {sem : S → (c : PortCall) →
    PortCall.Reply VerifierError LoadError StoreError Receipt c → S → Prop}
  {s s' : S} {policy : TrustPolicy} {manifest : BundleManifest}
  {manifestSubject expectedSubject : Sha256Digest} {receipt : Receipt}

theorem achieves_authorizePublisher {expected : Sha256Digest} {publisher : AuthorizedPublisher} :
    Achieves sem s (authorizePublisher policy expected) publisher s' ↔
      sem s (.verify expected) (.ok publisher.assertion) s' ∧
        policy.Authorizes publisher.assertion expected := by
  simp only [authorizePublisher, ask, achieves_bind, achieves_attempt, achieves_ofExcept,
    achieves_pure, mapError_eq_ok, TrustPolicy.authorize_eq_ok]
  constructor
  · intro h
    obtain ⟨assertion, s₁, hverify, _, _, ⟨hauthorized, rfl⟩, rfl, rfl⟩ := h
    exact ⟨hverify, hauthorized⟩
  · intro h
    exact ⟨publisher.assertion, s', h.1, (), s', ⟨h.2, rfl⟩, rfl, rfl⟩

theorem achieves_installAuthenticatedCandidate :
    Achieves sem s (installAuthenticatedCandidate policy manifest manifestSubject expectedSubject)
        receipt s' ↔
      manifestSubject = expectedSubject ∧ ∃ publisher s₁ candidates s₂ bundle,
        sem s (.verify expectedSubject) (.ok publisher.assertion) s₁ ∧
          policy.Authorizes publisher.assertion expectedSubject ∧
            sem s₁ (.load manifest) (.ok candidates) s₂ ∧
              verifyCandidate manifest manifestSubject expectedSubject candidates = .ok bundle ∧
                sem s₂ (.installAuthenticated bundle publisher) (.ok receipt) s' := by
  rw [installAuthenticatedCandidate, achieves_throwIf_bind, ne_eq, not_not]
  apply and_congr_right
  intro hsubject
  simp only [ask, achieves_bind, achieves_adapt, achieves_authorizePublisher, achieves_attempt,
    achieves_ofExcept, achieves_throwIf, mapError_eq_ok, ne_eq, not_not]
  constructor
  · intro h
    obtain ⟨publisher, s₁, ⟨hverify, hauthorized⟩, candidates, s₂, hload, bundle, _,
      ⟨hverified, rfl⟩, _, _, ⟨_, rfl⟩, hinstall⟩ := h
    exact ⟨publisher, s₁, candidates, _, bundle, hverify, hauthorized, hload, hverified, hinstall⟩
  · intro h
    obtain ⟨publisher, s₁, candidates, s₂, bundle, hverify, hauthorized, hload, hverified,
      hinstall⟩ := h
    have hsame : publisher.subject = bundle.subject := by
      rw [(verifyCandidate_eq_ok.mp hverified).2]
      exact hauthorized.subject.trans hsubject.symm
    exact ⟨publisher, s₁, ⟨hverify, hauthorized⟩, candidates, s₂, hload, bundle, s₂,
      ⟨hverified, rfl⟩, (), s₂, ⟨hsame, rfl⟩, hinstall⟩

end

/-! ## Ports -/

section

variable {verifier : CliEd25519Verifier} {loader : CliCandidateLoader} {root : Bytes}
  {fs fs' : Fs} {manifest : BundleManifest} {manifestSubject expectedSubject : Sha256Digest}
  {o : InstallOutcome}

theorem serves_load {r : PortReply (.load manifest)} :
    (ports host verifier loader root).Serves RootEffect fs (.load manifest) r fs' ↔
      r = loader.load host manifest ∧ fs' = fs :=
  Handler.serves_done rfl

/-- The adapter's assertion is about the key that it was given. -/
theorem serves_verify {subject : Sha256Digest} {assertion : PublisherAssertion} :
    (ports host verifier loader root).Serves RootEffect fs (.verify subject) (.ok assertion) fs' ↔
      (Accepts host.library subject verifier.publicKey verifier.signature ∧
        assertion = keyAssertion subject (sha256Of verifier.publicKey)) ∧ fs' = fs := by
  rw [Handler.serves_done (r := Verifier.verify host.library subject verifier.publicKey
    verifier.signature) rfl]
  exact and_congr_left fun _ => eq_comm.trans verify_eq_ok

theorem serves_installAuthenticated {bundle : VerifiedBundle} {publisher : AuthorizedPublisher}
    {receipt : StoreReceipt} :
    (ports host verifier loader root).Serves RootEffect fs (.installAuthenticated bundle publisher)
        (.ok receipt) fs' ↔
      Achieves RootEffect fs (installInto root bundle (some publisher)) receipt fs' := by
  simp only [Handler.Serves, ports, Achieves]

/-! ## The command -/

/-- The bundle that the candidate at the loader's path turns out to be. -/
structure Acquires (host : Host Key) (loader : CliCandidateLoader) (manifest : BundleManifest)
    (subject : Sha256Digest) (candidates : List CandidateFile) (bundle : VerifiedBundle) :
    Prop where
  load : loader.load host manifest = .ok candidates
  verified : verifyCandidate manifest subject subject candidates = .ok bundle

/-- A trusted key of 32 bytes and its signature of the subject. -/
structure Authenticates (host : Host Key) (publisher : PublisherInputs) (subject : Sha256Digest)
    (publicKey signature : Bytes) : Prop where
  keyFile : Readable host publisher.publicKey Verifier.publicKeyBytes publicKey
  signatureFile : Readable host publisher.signature Verifier.signatureBytes signature
  accepted : Accepts host.library subject publicKey signature
  trusted : Denotes publisher.trustedKeySha256 (sha256Of publicKey)

theorem achieves_installAuthenticated {publisher : PublisherInputs} :
    Achieves RootEffect fs (installAuthenticated host loader root manifest manifestSubject
        expectedSubject publisher) o fs' ↔
      manifestSubject = expectedSubject ∧ ∃ publicKey signature candidates bundle receipt,
        Authenticates host publisher expectedSubject publicKey signature ∧
          Acquires host loader manifest expectedSubject candidates bundle ∧
            Achieves RootEffect fs (installInto root bundle
              (some ⟨keyAssertion expectedSubject (sha256Of publicKey)⟩)) receipt fs' ∧
              o = outcome receipt authenticatedInstallationRecordFormat
                (.verifiedAndAuthorized (sha256Of publicKey).text) := by
  simp only [installAuthenticated, achieves_ofExcept_bind, readExactFile_eq_ok,
    parseDigestArgument_eq_ok, singleEd25519Policy_eq, Except.ok.injEq, exists_eq_left']
  simp only [achieves_bind, achieves_withError, achieves_handle,
    achieves_installAuthenticatedCandidate, serves_load, achieves_pure]
  constructor
  · intro h
    obtain ⟨publicKey, ⟨hkey, _⟩, signature, ⟨hsignature, _⟩, trusted, htrusted, receipt, _,
      ⟨rfl, publisher', _, candidates, _, bundle, hverify, hauthorized, ⟨hload, rfl⟩, hverified,
        hinstall⟩, rfl, rfl⟩ := h
    obtain ⟨⟨haccepted, hassertion⟩, rfl⟩ := serves_verify.mp hverify
    rw [hassertion] at hauthorized
    obtain ⟨_, rfl⟩ := keyPolicy_authorizes.mp hauthorized
    obtain rfl : publisher' = ⟨keyAssertion manifestSubject (sha256Of publicKey)⟩ :=
      congrArg AuthorizedPublisher.mk hassertion
    exact ⟨rfl, publicKey, signature, candidates, bundle, receipt,
      ⟨hkey, hsignature, haccepted, htrusted⟩, ⟨hload.symm, hverified⟩,
      serves_installAuthenticated.mp hinstall, rfl⟩
  · intro h
    obtain ⟨rfl, publicKey, signature, candidates, bundle, receipt, hauth, hacquires, hinstall,
      rfl⟩ := h
    exact ⟨publicKey, ⟨hauth.keyFile, hauth.accepted.keyLength⟩, signature,
      ⟨hauth.signatureFile, hauth.accepted.signatureLength⟩, sha256Of publicKey, hauth.trusted,
      receipt, fs', ⟨rfl, _, fs, candidates, fs, bundle,
        serves_verify.mpr ⟨⟨hauth.accepted, rfl⟩, rfl⟩, keyPolicy_authorizes.mpr ⟨rfl, rfl⟩,
        ⟨hacquires.load.symm, rfl⟩, hacquires.verified,
        serves_installAuthenticated.mpr hinstall⟩, rfl, rfl⟩

end

/-- The manifest file and what it decodes to. -/
structure Declares (host : Host Key) (args : InstallArgs) (manifestBytes : Bytes)
    (manifest : BundleManifest) : Prop where
  file : Readable host args.bundleManifest maxBundleManifestBytes manifestBytes
  decoded : decodeBundleManifest host.fromSlice manifestBytes .default = .ok manifest

def InstallArgs.loader (args : InstallArgs) : CliCandidateLoader :=
  ⟨args.candidate, args.candidateFormat⟩

section

variable {args : InstallArgs} {manifest : BundleManifest} {manifestBytes : Bytes}

theorem Declares.canonical (h : Declares host args manifestBytes manifest) :
    encodeBundleManifest manifest = .ok manifestBytes :=
  (decodeBundleManifest_sound h.decoded).2.2

theorem Declares.subject (h : Declares host args manifestBytes manifest) :
    bundleSubjectDigest manifest = .ok (sha256Of manifestBytes) :=
  bundleSubjectDigest_of_encode h.canonical

theorem readManifest_eq_ok : readManifest host args = .ok manifest ↔
    ∃ manifestBytes, Declares host args manifestBytes manifest := by
  simp only [readManifest, bind_eq_ok, readBoundedFile_eq_ok, mapError_eq_ok]
  constructor
  · intro h
    obtain ⟨manifestBytes, hfile, hdecoded⟩ := h
    exact ⟨manifestBytes, hfile, hdecoded⟩
  · intro h
    obtain ⟨manifestBytes, h⟩ := h
    exact ⟨manifestBytes, h.file, h.decoded⟩

/-- What the command does after the subject has been compared. -/
def Delivers (host : Host Key) (args : InstallArgs) (fs : Fs) (manifest : BundleManifest)
    (subject : Sha256Digest) (root : Bytes) (o : InstallOutcome) (fs' : Fs) : Prop :=
  match args.publisher with
  | none => Achieves RootEffect fs
      (installDigestOnly host args.loader root manifest subject subject) o fs'
  | some publisher => Achieves RootEffect fs
      (installAuthenticated host args.loader root manifest subject subject publisher) o fs'

theorem achieves_install {fs fs' : Fs} {o : InstallOutcome} :
    Achieves RootEffect fs (install host args) o fs' ↔ ∃ manifestBytes manifest root,
      Declares host args manifestBytes manifest ∧ Denotes args.subject (sha256Of manifestBytes) ∧
        storeRoot host args = .ok root ∧
          Delivers host args fs manifest (sha256Of manifestBytes) root o fs' := by
  simp only [install, achieves_ofExcept_bind, achieves_throwIf_bind, readManifest_eq_ok,
    mapError_eq_ok, parseDigestArgument_eq_ok, ne_eq, not_not]
  constructor
  · intro h
    obtain ⟨manifest, ⟨manifestBytes, hdeclares⟩, subject, hsubject, expected, hdenotes, rfl, root,
      hroot, hrest⟩ := h
    obtain rfl : sha256Of manifestBytes = subject :=
      Except.ok.inj (hdeclares.subject.symm.trans hsubject)
    refine ⟨manifestBytes, manifest, root, hdeclares, hdenotes, hroot, ?_⟩
    unfold Delivers
    cases hpublisher : args.publisher with
    | none =>
        rw [hpublisher] at hrest
        exact hrest
    | some publisher =>
        rw [hpublisher] at hrest
        exact hrest
  · intro h
    obtain ⟨manifestBytes, manifest, root, hdeclares, hdenotes, hroot, hrest⟩ := h
    refine ⟨manifest, ⟨manifestBytes, hdeclares⟩, _, hdeclares.subject, _, hdenotes, rfl, root,
      hroot, ?_⟩
    unfold Delivers at hrest
    cases hpublisher : args.publisher with
    | none =>
        rw [hpublisher] at hrest
        exact hrest
    | some publisher =>
        rw [hpublisher] at hrest
        exact hrest

end

/-! ## What is left in the store -/

/-- The bytes of a record: a document of the format that the publisher decides. -/
def IsRecord (subject : Sha256Digest) (publisher : Option AuthorizedPublisher) (record : Bytes) :
    Prop :=
  ∃ document : InstallationRecord, document.bundleSubject = subject.text ∧
    document.rootIdentity = "sha256/" ++ subject.text ∧
      record = (installationDocument document publisher).toVec ++ Text.utf8 ['\n']

theorem isRecord_of_bytes {bundle : VerifiedBundle} {publisher : Option AuthorizedPublisher}
    {record : Bytes} (h : installationRecordBytes bundle publisher = .ok record) :
    IsRecord bundle.subject publisher record := by
  simp only [installationRecordBytes, bind_eq_ok, rejectIf_eq_ok, exists_const, pure, Except.pure,
    Except.ok.injEq] at h
  obtain ⟨_, files, _, treeDigest, _, _, rfl⟩ := h
  exact ⟨_, rfl, rfl, rfl⟩

/-- The files of the manifest and this record are below the root of the subject, nothing else. -/
def LeavesInstalled (subject : Sha256Digest) (publisher : Option AuthorizedPublisher)
    (manifest : BundleManifest) (fs : Fs) : Prop :=
  ∃ store record, IsRecord subject publisher record ∧
    InstalledAsDeclared store (fs.below (subjectRoot subject)) manifest record

/-- The receipt of an installation. -/
def IsReceipt (subject : Sha256Digest) (receipt : StoreReceipt) : Prop :=
  ∃ reused, receipt.installed = ⟨subject, subjectRoot subject,
    subjectRoot subject ++ [installationRecordPath.text], reused⟩

theorem installInto_leaves {loader : CliCandidateLoader} {manifest : BundleManifest}
    {subject : Sha256Digest} {candidates : List CandidateFile} {bundle : VerifiedBundle}
    {publisher : Option AuthorizedPublisher} {root : Bytes} {receipt : StoreReceipt} {fs fs' : Fs}
    (hacquires : Acquires host loader manifest subject candidates bundle) (hnames : PlainNames fs')
    (h : Achieves RootEffect fs (installInto root bundle publisher) receipt fs') :
    LeavesInstalled subject publisher manifest fs' ∧ IsReceipt subject receipt := by
  obtain ⟨trace, h⟩ := h
  obtain ⟨store, hverified, reused, hreceipt⟩ := installInto_ends 0 h
  obtain ⟨record, hrecord, hdeclared⟩ := hverified.asDeclared hnames hacquires.verified
  have hsubject : bundle.subject = subject := by
    rw [(verifyCandidate_eq_ok.mp hacquires.verified).2]
    rfl
  rw [hsubject] at hdeclared hreceipt
  refine ⟨⟨store, record, hsubject ▸ isRecord_of_bytes hrecord, hdeclared⟩, reused, ?_⟩
  rw [hreceipt, Install.receipt, hsubject]

/-! ## Authenticated installations -/

/-- What an authenticated installation has read. -/
structure Exchange where
  manifestBytes : Bytes
  manifest : BundleManifest
  publicKey : Bytes
  signature : Bytes
  candidates : List CandidateFile

namespace Exchange

def subject (x : Exchange) : Sha256Digest := sha256Of x.manifestBytes

def keySha256 (x : Exchange) : Sha256Digest := sha256Of x.publicKey

end Exchange

/-- Every input is bound to the others. -/
structure Exchanged (host : Host Key) (args : InstallArgs) (publisher : PublisherInputs)
    (x : Exchange) : Prop where
  manifestFile : host.Holds args.bundleManifest x.manifestBytes
  valid : Constructible .default x.manifest
  canonical : encodeBundleManifest x.manifest = .ok x.manifestBytes
  subject : Denotes args.subject x.subject
  keyFile : host.Holds publisher.publicKey x.publicKey
  trusted : Denotes publisher.trustedKeySha256 x.keySha256
  signatureFile : host.Holds publisher.signature x.signature
  accepted : Accepts host.library x.subject x.publicKey x.signature
  loaded : args.loader.load host x.manifest = .ok x.candidates
  contents : ∃ bundle, verifyCandidate x.manifest x.subject x.subject x.candidates = .ok bundle

/-- The inputs are bound to the installed tree, to its record and to what is reported. -/
structure Bound (host : Host Key) (args : InstallArgs) (publisher : PublisherInputs) (x : Exchange)
    (fs : Fs) (o : InstallOutcome) : Prop extends Exchanged host args publisher x where
  installed : LeavesInstalled x.subject (some ⟨keyAssertion x.subject x.keySha256⟩) x.manifest fs
  reported : ∃ receipt, IsReceipt x.subject receipt ∧
    o = outcome receipt authenticatedInstallationRecordFormat
      (.verifiedAndAuthorized x.keySha256.text)

section

variable {args : InstallArgs} {publisher : PublisherInputs} {fs fs' : Fs} {o : InstallOutcome}

/-- An authenticated installation has exchanged its inputs before it turns to the store. -/
theorem exchanged_of_achieves (hpublisher : args.publisher = some publisher)
    (h : Achieves RootEffect fs (install host args) o fs') :
    ∃ x, Exchanged host args publisher x ∧
      (PlainNames fs' → Bound host args publisher x fs' o) := by
  obtain ⟨manifestBytes, manifest, root, hdeclares, hsubject, _, hdelivers⟩ := achieves_install.mp h
  rw [Delivers, hpublisher] at hdelivers
  obtain ⟨_, publicKey, signature, candidates, bundle, receipt, hauth, hacquires, hinstall, rfl⟩ :=
    achieves_installAuthenticated.mp hdelivers
  have hexchanged : Exchanged host args publisher
      ⟨manifestBytes, manifest, publicKey, signature, candidates⟩ := {
    manifestFile := hdeclares.file.contents
    valid := (decodeBundleManifest_sound hdeclares.decoded).2.1
    canonical := hdeclares.canonical
    subject := hsubject
    keyFile := hauth.keyFile.contents
    trusted := hauth.trusted
    signatureFile := hauth.signatureFile.contents
    accepted := hauth.accepted
    loaded := hacquires.load
    contents := ⟨bundle, hacquires.verified⟩ }
  refine ⟨_, hexchanged, ?_⟩
  intro hnames
  obtain ⟨hleaves, hreceipt⟩ := installInto_leaves hacquires hnames hinstall
  exact ⟨hexchanged, hleaves, receipt, hreceipt, rfl⟩

end

/-! ## Changed inputs -/

/-- SHA-256 tells these two apart if they differ. -/
def Distinguished (bytes bytes' : Bytes) : Prop := sha256Of bytes = sha256Of bytes' → bytes = bytes'

/-- One input differs from what was exchanged, and what it is checked against does not. -/
inductive Changed (args : InstallArgs) (publisher : PublisherInputs) (x : Exchange)
    (host' : Host Key) (args' : InstallArgs) (publisher' : PublisherInputs) : Prop where
  | manifest {bytes : Bytes} (hfile : host'.Holds args'.bundleManifest bytes)
      (hother : bytes ≠ x.manifestBytes) (hsha : Distinguished bytes x.manifestBytes)
      (hsubject : args'.subject = args.subject)
  | candidate {candidates : List CandidateFile} {file file' : CandidateFile}
      (hmanifest : host'.Holds args'.bundleManifest x.manifestBytes)
      (hload : args'.loader.load host' x.manifest = .ok candidates) (hfile : file ∈ candidates)
      (hfile' : file' ∈ x.candidates) (hpath : file.path = file'.path)
      (hother : file.bytes ≠ file'.bytes) (hsha : Distinguished file.bytes file'.bytes)
  | key {publicKey : Bytes} (hfile : host'.Holds publisher'.publicKey publicKey)
      (hother : publicKey ≠ x.publicKey) (hsha : Distinguished publicKey x.publicKey)
      (htrusted : publisher'.trustedKeySha256 = publisher.trustedKeySha256)
  | fingerprint {digest : Sha256Digest} (hfile : host'.Holds publisher'.publicKey x.publicKey)
      (hdenotes : Denotes publisher'.trustedKeySha256 digest) (hother : digest ≠ x.keySha256)
  /-- The key has signed another subject, and its signature binds. -/
  | signature {subject : Sha256Digest} {signature : Bytes}
      (hmanifest : host'.Holds args'.bundleManifest x.manifestBytes)
      (hkey : host'.Holds publisher'.publicKey x.publicKey)
      (hfile : host'.Holds publisher'.signature signature)
      (hsigned : Accepts host'.library subject x.publicKey signature)
      (hbinding : host'.library.Binding x.publicKey signature
        (Text.bytes (subjectMessage subject)) (Text.bytes (subjectMessage x.subject)))
      (hother : subject ≠ x.subject)

section

variable {args args' : InstallArgs} {publisher publisher' : PublisherInputs} {x x' : Exchange}
  {host' : Host Key}

/-- Candidates of one manifest agree file by file. -/
theorem bytes_of_contents {manifest : BundleManifest} {subject subject' : Sha256Digest}
    {candidates candidates' : List CandidateFile} {bundle bundle' : VerifiedBundle}
    (h : verifyCandidate manifest subject subject candidates = .ok bundle)
    (h' : verifyCandidate manifest subject' subject' candidates' = .ok bundle')
    {file file' : CandidateFile} (hfile : file ∈ candidates) (hfile' : file' ∈ candidates')
    (hpath : file.path = file'.path) : sha256Of file.bytes = sha256Of file'.bytes := by
  have hexact := (verifyCandidate_eq_ok.mp h).1.exact
  have hexact' := (verifyCandidate_eq_ok.mp h').1.exact
  obtain ⟨declared, hdeclared, hsame⟩ :=
    List.mem_map.mp ((hexact.paths _).mp (List.mem_map_of_mem hfile))
  have hmatch := hexact.content declared hdeclared file hfile hsame.symm
  have hmatch' := hexact'.content declared hdeclared file' hfile' (hpath ▸ hsame.symm)
  exact Sha256Digest.text_injective (hmatch.digest.trans hmatch'.digest.symm)

/-- Two installations that succeed do not differ in one input alone. -/
theorem Exchanged.not_changed (h : Exchanged host args publisher x)
    (h' : Exchanged host' args' publisher' x') :
    ¬ Changed args publisher x host' args' publisher' := by
  intro hchanged
  cases hchanged with
  | manifest hfile hother hsha hsubject =>
      obtain rfl := hfile.unique h'.manifestFile
      have hsame := h'.subject
      rw [hsubject] at hsame
      exact hother (hsha (hsame.unique h.subject))
  | candidate hmanifest hload hfile hfile' hpath hother hsha =>
      have hbytes := hmanifest.unique h'.manifestFile
      have hcanonical := h.canonical
      rw [hbytes, ← h'.canonical] at hcanonical
      have hsame := encodeBundleManifest_injective hcanonical
      rw [hsame, h'.loaded] at hload
      cases hload
      obtain ⟨bundle, hcontents⟩ := h.contents
      obtain ⟨bundle', hcontents'⟩ := h'.contents
      rw [hsame] at hcontents
      exact hother (hsha (bytes_of_contents hcontents' hcontents hfile hfile' hpath))
  | key hfile hother hsha htrusted =>
      obtain rfl := hfile.unique h'.keyFile
      have hsame := h'.trusted
      rw [htrusted] at hsame
      exact hother (hsha (hsame.unique h.trusted))
  | fingerprint hfile hdenotes hother =>
      have hkey := hfile.unique h'.keyFile
      apply hother
      rw [Exchange.keySha256, hkey]
      exact hdenotes.unique h'.trusted
  | signature hmanifest hkey hfile hsigned hbinding hother =>
      obtain rfl := hfile.unique h'.signatureFile
      have hsame := hkey.unique h'.keyFile
      have hsubject : x.subject = x'.subject := congrArg sha256Of (hmanifest.unique h'.manifestFile)
      rw [hsame] at hsigned hbinding
      rw [hsubject] at hbinding hother
      exact hother (hsigned.subject_unique hbinding h'.accepted)

end

/-- A successful authenticated installation binds its inputs to each other, to what it leaves in
the store and to its record. With one of them changed no installation succeeds, and the signed
message names one subject. -/
theorem install_binds (host : Host Key) (args : InstallArgs) (publisher : PublisherInputs)
    (fs fs' : Fs) (o : InstallOutcome) (hpublisher : args.publisher = some publisher)
    (hnames : PlainNames fs') (h : Achieves RootEffect fs (install host args) o fs') :
    (∃ x, Bound host args publisher x fs' o ∧
      ∀ (host' : Host Key) (args' : InstallArgs) (publisher' : PublisherInputs) (fs₁ fs₂ : Fs)
        (o' : InstallOutcome), args'.publisher = some publisher' →
          Changed args publisher x host' args' publisher' →
            ¬ Achieves RootEffect fs₁ (install host' args') o' fs₂) ∧
    Function.Injective subjectMessage := by
  obtain ⟨x, hexchanged, hbound⟩ := exchanged_of_achieves hpublisher h
  refine ⟨⟨x, hbound hnames, ?_⟩, subjectMessage_injective⟩
  intro host' args' publisher' fs₁ fs₂ o' hpublisher' hchanged h'
  obtain ⟨x', hexchanged', _⟩ := exchanged_of_achieves hpublisher' h'
  exact hexchanged.not_changed hexchanged' hchanged

/-! ## A signed bundle -/

def regularFile (bytes : Bytes) : InputFile := ⟨some ⟨true, bytes.length⟩, some bytes⟩

theorem readable_regularFile {maximumBytes : Nat}
    (hfile : host.file path = some (regularFile bytes))
    (hbound : bytes.length ≤ maximumBytes) : Readable host path maximumBytes bytes :=
  ⟨⟨_, hfile, rfl, hbound⟩, hbound⟩

/-- A directory with the file of the sample manifest. -/
def sampleNode (path : Path) : Option Node :=
  if path = [] then some (sampleDirectory 1)
  else if path = ["a"] then some (publishedFile [97])
  else none

def sampleTree : Directory.Tree where
  node := sampleNode
  readDir directory := if directory = [] then ["a"] else []
  mem_readDir := by
    intro directory name
    by_cases hroot : directory = []
    · simp [hroot, sampleNode]
    · have hlong : directory ++ [name] ≠ ["a"] := by
        intro h
        exact (List.append_eq_singleton_iff.mp h).elim (fun h => hroot h.1)
          fun h => absurd h.2 (by simp)
      simp [hroot, hlong, sampleNode]
  readDir_nodup := by
    intro directory
    split <;> simp

def sampleKey : Bytes :=
  [215, 90, 152, 1, 130, 177, 10, 183, 213, 75, 254, 211, 201, 100, 7, 58, 14, 225, 114, 243, 218,
    166, 35, 37, 175, 2, 26, 104, 247, 7, 81, 26]

def sampleManifestBytes : Bytes := oneFileManifest.document.toJson.toVec

/-- The signature of the sample manifest under the sample key. -/
def sampleSignature : Bytes :=
  [98, 123, 195, 59, 52, 210, 35, 8, 57, 189, 205, 167, 44, 143, 33, 5, 102, 217, 174, 28, 135, 83,
    79, 202, 130, 126, 47, 166, 71, 1, 149, 92, 90, 167, 114, 142, 20, 58, 194, 219, 188, 211, 246,
    8, 19, 132, 207, 108, 98, 158, 233, 8, 238, 12, 17, 184, 100, 61, 21, 217, 250, 239, 175, 5]

/-- A library that knows one key, and its signature of one subject only. -/
def sampleLibrary (subject : Sha256Digest) : Ed25519 Unit where
  fromBytes bytes := if bytes = sampleKey then some () else none
  isWeak _ := false
  verifyStrict _ message signature :=
    message = Text.bytes (subjectMessage subject) ∧ signature = sampleSignature

theorem sampleLibrary_accepts (subject : Sha256Digest) :
    Accepts (sampleLibrary subject) subject sampleKey sampleSignature := by
  refine ⟨rfl, rfl, (), ?_, rfl, ?_⟩
  · simp [sampleLibrary]
  · simp [sampleLibrary]

def sampleHost : Host Unit where
  file path :=
    if path = Text.bytes "manifest" then some (regularFile sampleManifestBytes)
    else if path = Text.bytes "key" then some (regularFile sampleKey)
    else if path = Text.bytes "signature" then some (regularFile sampleSignature)
    else none
  directory _ := sampleTree
  xdgDataHome := none
  home := none
  library := sampleLibrary (sha256Of sampleManifestBytes)
  fromSlice := Json.visitBytes

def samplePublisher : PublisherInputs :=
  ⟨Text.bytes "key", Text.bytes "signature", (sha256Of sampleKey).text⟩

def sampleArgs : InstallArgs where
  candidate := Text.bytes "bundle"
  bundleManifest := Text.bytes "manifest"
  subject := (sha256Of sampleManifestBytes).text
  candidateFormat := .directory
  store := some (Text.bytes "/store")
  format := .human
  publisher := some samplePublisher

theorem sample_declares : Declares sampleHost sampleArgs sampleManifestBytes oneFileManifest := by
  have hsize : sampleManifestBytes.length ≤ maxBundleManifestBytes := by decide +kernel
  constructor
  · exact readable_regularFile (by simp [sampleHost, sampleArgs]) hsize
  · exact decodeBundleManifest_complete Json.visitBytes_readsCompact hsize
      (constructible_iff.mpr oneFileManifest.accepted) rfl

theorem sample_authenticates :
    Authenticates sampleHost samplePublisher (sha256Of sampleManifestBytes) sampleKey
      sampleSignature := by
  constructor
  · exact readable_regularFile (by decide) (by decide)
  · exact readable_regularFile (by decide) (by decide)
  · exact sampleLibrary_accepts _
  · exact .inl rfl

theorem sampleBytes_bounded : ([97] : Bytes).length ≤ maxBundleFileBytes := by decide

def sampleCandidate : CandidateFile := ⟨samplePath, [97], sampleBytes_bounded⟩

/-- The sample bundle under another subject. -/
def sampleBundleOf (subject : Sha256Digest) : VerifiedBundle :=
  { sampleBundle with subject := subject }

theorem verifyCandidate_sampleBundleOf (subject : Sha256Digest) :
    verifyCandidate oneFileManifest subject subject [sampleCandidate] =
      .ok (sampleBundleOf subject) := by
  obtain ⟨hsample, hbundle⟩ := verifyCandidate_eq_ok.mp verifyCandidate_sample
  refine verifyCandidate_eq_ok.mpr ⟨⟨rfl, hsample.count, hsample.expanded, hsample.exact⟩, ?_⟩
  rw [sampleBundleOf, hbundle]
  rfl

theorem sampleBundleOf_admitted (subject digest : Sha256Digest) :
    Admitted 0o022 (sampleBundleOf subject) (some ⟨keyAssertion subject digest⟩) := by
  refine ⟨?_, ?_, by decide +kernel⟩
  · exact decide_eq_false (not_not_intro rfl)
  · show (sampleBundle.files.any fun file => isReserved file.path) = false
    decide +kernel

theorem sampleTree_load :
    Directory.loadCandidate sampleTree oneFileManifest none = .ok [sampleCandidate] := by
  decide

/-- The sample is installed into a store with nothing but its root. -/
theorem sample_installs : ∃ o fs', Achieves RootEffect emptyStoreFs (install sampleHost sampleArgs)
    o fs' ∧ PlainNames fs' := by
  have hverified := verifyCandidate_sampleBundleOf (sha256Of sampleManifestBytes)
  have hacquires : Acquires sampleHost sampleArgs.loader oneFileManifest
      (sha256Of sampleManifestBytes) [sampleCandidate]
      (sampleBundleOf (sha256Of sampleManifestBytes)) :=
    ⟨congrArg (Except.mapError CliCandidateLoadError.directory) sampleTree_load, hverified⟩
  have hnames : PlainNames emptyStoreFs := by
    intro path name hnode
    exact absurd (emptyStoreFs_absent (by simp)) hnode
  obtain ⟨receipt, fs', hinstall, hplain⟩ := @installInto_first 0o022 sampleStore
    (sampleBundleOf (sha256Of sampleManifestBytes))
    (some ⟨keyAssertion (sha256Of sampleManifestBytes) (sha256Of sampleKey)⟩) emptyStoreFs
    (Text.bytes "/store") emptyStoreFs_idle emptyStoreFs_root (sampleBundleOf_admitted _ _)
    ⟨_, _, _, _, hverified⟩ (emptyStoreFs_absent (List.cons_ne_nil _ _)) (emptyStoreFs_free _)
    (placeable_samplePath rfl) hnames
  have hdelivers : Delivers sampleHost sampleArgs emptyStoreFs oneFileManifest
      (sha256Of sampleManifestBytes) (Text.bytes "/store")
      (outcome receipt authenticatedInstallationRecordFormat
        (.verifiedAndAuthorized (sha256Of sampleKey).text)) fs' :=
    achieves_installAuthenticated.mpr ⟨rfl, sampleKey, sampleSignature, [sampleCandidate], _,
      receipt, sample_authenticates, hacquires, hinstall, rfl⟩
  exact ⟨_, fs', achieves_install.mpr ⟨sampleManifestBytes, oneFileManifest, Text.bytes "/store",
    sample_declares, .inl rfl, rfl, hdelivers⟩, hplain⟩

theorem install_binds_sample : ∃ o fs',
    Achieves RootEffect emptyStoreFs (install sampleHost sampleArgs) o fs' ∧
      ∃ x, Bound sampleHost sampleArgs samplePublisher x fs' o := by
  obtain ⟨o, fs', h, hnames⟩ := sample_installs
  obtain ⟨⟨x, hbound, _⟩, _⟩ :=
    install_binds sampleHost sampleArgs samplePublisher emptyStoreFs fs' o rfl hnames h
  exact ⟨o, fs', h, x, hbound⟩

end Invokrum.Delivery
