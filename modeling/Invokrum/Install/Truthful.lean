import Invokrum.Base.Handlers
import Invokrum.Install.Exact

/-!
# Installations among failures

Any operation may fail at any time here, but no operation lies: a value that it
returns is the value that the file system has. Whatever fails on the way, an
installation that succeeds has seen its tree verified, in the state it leaves.
-/

namespace Invokrum.Install

open Programs Invokrum.Distribution Invokrum.Acquisition Invokrum.FileSystem
open Outcome Ordered
open Directory (PinnedRoot loadCandidate readCandidateFile treeEntries loadCandidate_exact
  manifestFromVerified_eq_ok)
open Text (Bytes)

/-- What the directory loader returns is what it finds. -/
def Found (fs : Fs) : (op : Op) → op.Value → Prop
  | .openSource root, _ =>
      (viewed (fs.below root) fun tree => (PinnedRoot.open tree).map fun _ => ()) = .ok ()
  | .load root manifest allowed, candidates =>
      (viewed (fs.below root) fun tree => loadCandidate tree manifest allowed) = .ok candidates
  | .readExactWithLimit root path maximum, bytes =>
      (viewed (fs.below root) fun tree => readCandidateFile tree path maximum) = .ok bytes
  | _, _ => True

/-- A call among failures. -/
def Truthful (fs : Fs) (c : Call) (r : Reply c) (fs' : Fs) : Prop :=
  Performs False fs c r fs' ∧ ∀ value, r = .ok value → Found fs c.op value

/-- Without failures nothing lies either. -/
theorem truthful_faultless (umask : Nat) (fs : Fs) (c : Call) :
    Truthful fs c (faultless umask fs c).1 (faultless umask fs c).2 := by
  constructor
  · have hperforms := performs_faultless umask fs c
    obtain ⟨site, op⟩ := c
    unfold Performs at hperforms ⊢
    split at hperforms
    · exact hperforms
    · cases op with
      | removeFile p => exact ⟨hperforms.1, False.elim⟩
      | removeDirAll p => exact ⟨hperforms.1, False.elim⟩
      | _ => exact hperforms
  · intro value h
    obtain ⟨site, op⟩ := c
    cases op with
    | openSource root => exact h
    | load root manifest allowed => exact h
    | readExactWithLimit root path maximum => exact h
    | _ => trivial

variable {umask : Nat} {store : LinuxInstallStore} {bundle : VerifiedBundle}
  {publisher : Option AuthorizedPublisher} {fs fs' : Fs} {trace : List (Event Call Reply)}
  {installed : InstalledBundle} {site : Site} {root : Path}

/-! ## Verifications -/

/-- A run of this program that succeeds among failures succeeds without. -/
abbrev Reliable {α : Type} (umask : Nat) (x : Installation α) : Prop :=
  Confirms (faultless umask) Truthful x

theorem reliable_symlinkMetadata {p : Path} {wrap : IoError → LinuxInstallStoreError} :
    Reliable umask (call site (.symlinkMetadata p) wrap) := by
  apply Confirms.attempt
  intro fs metadata fs' h
  obtain ⟨hlook, rfl⟩ := h.1
  exact Prod.ext hlook rfl

theorem reliable_openSource {wrap : LocalCandidateError → LinuxInstallStoreError} :
    Reliable umask (call site (.openSource root) wrap) := by
  apply Confirms.attempt
  intro fs value fs' h
  obtain rfl : fs' = fs := h.1
  exact Prod.ext (h.2 value rfl) rfl

theorem reliable_load {manifest : BundleManifest} {allowed : Option (BundlePath × Nat)}
    {wrap : LocalCandidateError → LinuxInstallStoreError} :
    Reliable umask (call site (.load root manifest allowed) wrap) := by
  apply Confirms.attempt
  intro fs candidates fs' h
  obtain rfl : fs' = fs := h.1
  exact Prod.ext (h.2 candidates rfl) rfl

theorem reliable_readExactWithLimit {path : BundlePath} {maximum : Nat}
    {wrap : LocalCandidateError → LinuxInstallStoreError} :
    Reliable umask (call site (.readExactWithLimit root path maximum) wrap) := by
  apply Confirms.attempt
  intro fs bytes fs' h
  obtain ⟨_, _, rfl⟩ := h.1
  exact Prod.ext (h.2 bytes rfl) rfl

theorem reliable_verifyPrivateDirectory {directory : Path} :
    Reliable umask (verifyPrivateDirectory store site directory) :=
  Confirms.bind reliable_symlinkMetadata fun _ => Confirms.throwIf

theorem reliable_verifyInstalledPathPermissions {path : BundlePath} :
    Reliable umask (verifyInstalledPathPermissions store site root path) := by
  apply Confirms.bind (Confirms.forM fun _ _ => reliable_verifyPrivateDirectory)
  intro _
  exact Confirms.bind reliable_symlinkMetadata fun _ => Confirms.throwIf

theorem reliable_verifyInstallationPermissions :
    Reliable umask (verifyInstallationPermissions store site root bundle) := by
  apply Confirms.bind reliable_verifyPrivateDirectory
  intro _
  apply Confirms.bind (Confirms.forM fun _ _ => reliable_verifyInstalledPathPermissions)
  intro _
  exact reliable_verifyInstalledPathPermissions

theorem reliable_verifyExistingInstallation :
    Reliable umask (verifyExistingInstallation store root bundle publisher) := by
  apply Confirms.mapError
  refine Confirms.bind reliable_verifyInstallationPermissions fun _ => ?_
  refine Confirms.bind Confirms.ofExcept fun _ => ?_
  refine Confirms.bind reliable_openSource fun _ => ?_
  refine Confirms.bind reliable_load fun _ => ?_
  refine Confirms.bind Confirms.ofExcept fun _ => ?_
  refine Confirms.bind reliable_readExactWithLimit fun _ => ?_
  refine Confirms.bind Confirms.ofExcept fun _ => ?_
  exact Confirms.bind Confirms.throwIf fun _ => reliable_verifyInstallationPermissions

/-! ## Whole installations -/

/-- A first part that arrived at a value. -/
theorem executes_bind_ok {α β : Type} {x : Installation α} {f : α → Installation β} {b : β}
    (h : Executes Truthful fs (x >>= f).run trace (.ok b) fs') :
    ∃ a fs₁ front back, Executes Truthful fs x.run front (.ok a) fs₁ ∧
      Executes Truthful fs₁ (f a).run back (.ok b) fs' := by
  rcases executes_bind.mp h with ⟨e, _, hb⟩ | ⟨a, fs₁, front, back, hfront, hback, _⟩
  · cases hb
  · exact ⟨a, fs₁, front, back, hfront, hback⟩

/-- Every successful installation ends with the tree verified, and with this receipt. -/
def Ends (umask : Nat) (store : LinuxInstallStore) (bundle : VerifiedBundle)
    (publisher : Option AuthorizedPublisher) (installed : InstalledBundle) (fs : Fs) : Prop :=
  Verified umask store bundle publisher fs ∧
    ∃ reused, installed = receipt bundle (subjectRoot bundle.subject) reused

theorem ends_of_reverified {reused : Bool}
    (h : Executes Truthful fs (do
      verifyExistingInstallation store (subjectRoot bundle.subject) bundle publisher
      pure (receipt bundle (subjectRoot bundle.subject) reused) :
        Installation InstalledBundle).run trace (.ok installed) fs') :
    Ends umask store bundle publisher installed fs' := by
  obtain ⟨u, fs₁, front, back, hverify, hpure⟩ := executes_bind_ok h
  obtain ⟨_, hreceipt, rfl⟩ := executes_pure.mp hpure
  have houtcome := @reliable_verifyExistingInstallation umask store bundle publisher
    (subjectRoot bundle.subject) fs front u fs' hverify
  obtain ⟨rfl, hverified⟩ := verified_of_outcome houtcome
  exact ⟨hverified, reused, Except.ok.inj hreceipt⟩

theorem promote_ends {staging : Path}
    (h : Executes Truthful fs (promote store staging bundle publisher).run trace (.ok installed)
      fs') : Ends umask store bundle publisher installed fs' := by
  obtain ⟨_, fs₁, _, _, _, h⟩ := executes_bind_ok h
  obtain ⟨_, fs₂, _, _, _, h⟩ := executes_bind_ok h
  obtain ⟨reply, fs₃, _, _, _, h⟩ := executes_bind_ok h
  cases reply with
  | ok v =>
      obtain ⟨_, fs₄, _, _, _, h⟩ := executes_bind_ok h
      exact ends_of_reverified h
  | error e =>
      obtain ⟨found, fs₄, _, _, _, h⟩ := executes_bind_ok h
      cases found with
      | true =>
          obtain ⟨_, fs₅, _, _, _, h⟩ := executes_bind_ok h
          exact ends_of_reverified h
      | false =>
          obtain ⟨_, hthrow, _⟩ := executes_throw.mp h
          cases hthrow

theorem installLocked_ends
    (h : Executes Truthful fs (installLocked store bundle publisher).run trace (.ok installed)
      fs') : Ends umask store bundle publisher installed fs' := by
  obtain ⟨found, fs₁, _, _, _, h⟩ := executes_bind_ok h
  cases found with
  | true => exact ends_of_reverified h
  | false =>
      obtain ⟨staging, fs₂, _, _, _, h⟩ := executes_bind_ok h
      obtain ⟨_, fs₃, _, _, _, hpromote⟩ := executes_bind_ok (executes_onError_ok.mp h)
      exact promote_ends hpromote

/-- Releasing the lock leaves every installed tree alone. -/
theorem dropSubjectLock_below {subject : Sha256Digest} {u : Except LinuxInstallStoreError Unit}
    (h : Executes Truthful fs (dropSubjectLock subject).run trace u fs') (subject' : Sha256Digest) :
    fs'.below (subjectRoot subject') = fs.below (subjectRoot subject') := by
  have hsync : ∀ {fs₁ : Fs} {back : List (Event Call Reply)},
      Executes Truthful fs₁ (do
        let _ ← request .lock (.syncDirectory locksDirectory) : Installation Unit).run back u fs' →
          fs' = fs₁ := by
    intro fs₁ back h
    rcases executes_bind.mp h with ⟨e, hreply, _⟩ | ⟨_, fs₂, _, _, hreply, hpure, _⟩
    · obtain ⟨_, _, _, hv⟩ := executes_reply.mp hreply
      cases hv
    · obtain ⟨reply, hcall, _, _⟩ := executes_reply.mp hreply
      obtain ⟨_, _, rfl⟩ := executes_pure.mp hpure
      cases reply with
      | ok v => exact hcall.1.2
      | error e => exact hcall.1
  rcases executes_bind.mp h with ⟨e, hreply, _⟩ | ⟨_, fs₁, _, _, hreply, hrest, _⟩
  · obtain ⟨_, _, _, hv⟩ := executes_reply.mp hreply
    cases hv
  · obtain ⟨reply, hcall, _, _⟩ := executes_reply.mp hreply
    rw [hsync hrest]
    cases reply with
    | ok v =>
        have hremoved : fs.removeFile (lockPath subject) = .ok fs₁ := hcall.1
        rw [Fs.removeFile_eq_ok hremoved]
        exact below_unlocked fs subject subject'
    | error e =>
        obtain ⟨rfl, _⟩ := hcall.1
        rfl

/-- Whatever fails on the way, a successful installation leaves a verified tree. -/
theorem installBundleWithPublisher_ends
    (h : Executes Truthful fs (installBundleWithPublisher store bundle publisher).run trace
      (.ok installed) fs') : Ends umask store bundle publisher installed fs' := by
  obtain ⟨_, fs₁, _, _, _, h⟩ := executes_bind_ok h
  obtain ⟨_, fs₂, _, _, _, h⟩ := executes_bind_ok h
  obtain ⟨_, fs₃, _, _, _, h⟩ := executes_bind_ok h
  obtain ⟨_, fs₄, _, _, _, h⟩ := executes_bind_ok h
  obtain ⟨_, fs₅, _, _, _, h⟩ := executes_bind_ok h
  obtain ⟨_, fs₆, _, _, _, h⟩ := executes_bind_ok h
  obtain ⟨_, fs₇, _, _, _, h⟩ := executes_bind_ok h
  obtain ⟨fs₈, _, _, _, hbody, hrelease, _⟩ := executes_guarded.mp h
  obtain ⟨hverified, hreceipt⟩ := @installLocked_ends umask _ _ _ _ _ _ _ hbody
  exact ⟨hverified.congr (dropSubjectLock_below hrelease bundle.subject), hreceipt⟩

/-! ## Declared contents -/

/-- Every verified file comes from a candidate. -/
theorem candidate_of_mem_zipWith {declared : List BundleFile} {sorted : List CandidateFile}
    (h : List.Forall₂ IsDeclared declared sorted) {file : VerifiedFile}
    (hfile : file ∈ List.zipWith verifiedFile declared sorted) :
    ∃ candidate ∈ sorted, file.path = candidate.path ∧ file.bytes = candidate.bytes := by
  induction h with
  | nil => cases hfile
  | cons hd _ ih =>
      rw [List.zipWith_cons_cons] at hfile
      rcases List.mem_cons.mp hfile with rfl | hrest
      · exact ⟨_, List.mem_cons_self, rfl, rfl⟩
      · obtain ⟨candidate, hcandidate, hsame⟩ := ih hrest
        exact ⟨candidate, List.mem_cons_of_mem _ hcandidate, hsame⟩

theorem paths_of_zipWith {declared : List BundleFile} {sorted : List CandidateFile}
    (h : List.Forall₂ IsDeclared declared sorted) :
    (List.zipWith verifiedFile declared sorted).map (·.path) = declared.map (·.path) := by
  induction h with
  | nil => rfl
  | cons hd _ ih =>
      rw [List.zipWith_cons_cons, List.map_cons, List.map_cons, ih]
      exact congrArg (· :: _) hd.path

theorem sameFile_of_declared {declared : List BundleFile} {sorted sorted' : List CandidateFile}
    (h : List.Forall₂ IsDeclared declared sorted) (h' : List.Forall₂ IsDeclared declared sorted') :
    List.Forall₂ SameFile (List.zipWith verifiedFile declared sorted)
      (List.zipWith verifiedFile declared sorted') := by
  induction h generalizing sorted' with
  | nil => exact .nil
  | cons hd _ ih =>
      cases h' with
      | cons hd' hrest =>
          exact .cons ⟨hd.path.trans hd'.path.symm, hd.length.trans hd'.length.symm, rfl⟩ (ih hrest)

/-- Bundles verified against one manifest for one subject differ in nothing that is recorded. -/
theorem sameBundle_of_manifest {manifest : BundleManifest} {subject expected expected' :
      Sha256Digest} {candidates candidates' : List CandidateFile} {bundle' : VerifiedBundle}
    (h : verifyCandidate manifest subject expected candidates = .ok bundle)
    (h' : verifyCandidate manifest subject expected' candidates' = .ok bundle') :
    SameBundle bundle bundle' := by
  obtain ⟨hverifies, rfl⟩ := verifyCandidate_eq_ok.mp h
  obtain ⟨hverifies', rfl⟩ := verifyCandidate_eq_ok.mp h'
  exact ⟨rfl, rfl, sameFile_of_declared (matches_iff.mp hverifies.exact).2
    (matches_iff.mp hverifies'.exact).2⟩

/-- The nodes below a root are the files of a manifest, as it declares them, and a record. -/
structure InstalledAsDeclared (store : LinuxInstallStore) (nodes : Path → Option Node)
    (manifest : BundleManifest) (record : Bytes) : Prop where
  root : ∃ n, nodes [] = some n ∧ PrivateDirectory store n
  file : ∀ declared ∈ manifest.files, ∃ n, nodes (components declared.path) = some n ∧
    PrivateFile store n ∧ n.bytes.length = declared.byteLength.toNat ∧
      Digest.sha256LowerHex n.bytes = declared.digest.text
  record : ∃ n, nodes (components installationRecordPath) = some n ∧ PrivateFile store n ∧
    n.bytes = record
  only : ∀ path, nodes path ≠ none → path = [] ∨
    path ∈ treeEntries (manifest.files.map (·.path) ++ [installationRecordPath])

section

variable {manifest : BundleManifest} {subject expected : Sha256Digest}
  {candidates : List CandidateFile}

/-- The files that a re-verification loaded, as a bundle, and where they are. -/
theorem Verified.found (h : Verified umask store bundle publisher fs) (hnames : PlainNames fs)
    (hbundle : verifyCandidate manifest subject expected candidates = .ok bundle) :
    ∃ loaded found, verifyCandidate manifest subject bundle.subject loaded = .ok found ∧
      ∀ file ∈ loaded, ∃ n, fs.below (subjectRoot bundle.subject) (components file.path) = some n ∧
        n.bytes = file.bytes := by
  obtain ⟨manifest', loaded, record, hsteps⟩ := verifyExistingInstallation_eq_ok.mp h
  obtain rfl : manifest' = manifest :=
    Except.ok.inj (hsteps.declared.symm.trans (manifestFromVerified_eq_ok hbundle))
  obtain ⟨found, hfound⟩ := hsteps.content
  obtain ⟨tree, htree, hload⟩ := viewed_eq_ok hsteps.load
  have hloads := (loadCandidate_exact (plain_of_below hnames htree)).mp hload
  have hsubject : bundle.subject = subject := by rw [(verifyCandidate_eq_ok.mp hbundle).2]; rfl
  rw [verifyLoaded, mapError_eq_ok] at hfound
  exact ⟨loaded, found, hsubject ▸ hfound, htree ▸ hloads.bytes⟩

/-- A verified tree has every file of the manifest, with its declared length and digest. -/
theorem Verified.asDeclared (h : Verified umask store bundle publisher fs) (hnames : PlainNames fs)
    (hbundle : verifyCandidate manifest subject expected candidates = .ok bundle) :
    ∃ record, installationRecordBytes bundle publisher = .ok record ∧
      InstalledAsDeclared store (fs.below (subjectRoot bundle.subject)) manifest record := by
  obtain ⟨loaded, found, hfound, hbytes⟩ := h.found hnames hbundle
  have hsame := sameBundle_of_manifest hbundle hfound
  obtain ⟨hverifies, hof⟩ := verifyCandidate_eq_ok.mp hfound
  have hpairs := (matches_iff.mp hverifies.exact).2
  -- The files of `found` come from the tree itself, so no digest can deceive about them.
  have hfree : CollisionFree (fs.below (subjectRoot bundle.subject)) found := by
    intro file hfile n hnode _
    rw [hof] at hfile
    obtain ⟨candidate, hcandidate, hpath, hfilebytes⟩ := candidate_of_mem_zipWith hpairs hfile
    obtain ⟨n', hnode', hn'⟩ := hbytes candidate ((mem_sortByKey _).mp hcandidate)
    rw [← hpath, hnode] at hnode'
    cases hnode'
    exact hn'.trans hfilebytes.symm
  have hverified : Verified umask store found publisher fs := by
    rw [Verified, ← hsame.verifyExistingInstallation, ← hsame.subject]
    exact h
  rw [hsame.subject] at hfree ⊢
  obtain ⟨_, _, _, hsteps⟩ := verifyExistingInstallation_eq_ok.mp hverified
  have hexact := installedExactly_of_steps hnames ⟨_, _, _, _, hfound⟩ hfree hsteps
  obtain ⟨n, hnode, hprivate, hrecord⟩ := hexact.record
  refine ⟨n.bytes, by rw [hsame.installationRecordBytes, hrecord], hexact.root, ?_,
    ⟨n, hnode, hprivate, rfl⟩, ?_⟩
  · intro declared hdeclared
    obtain ⟨candidate, hcandidate, hmatch⟩ := exists_of_forall₂ hpairs hdeclared
    obtain ⟨file, hfile, hpath, hfilebytes⟩ := verifiedFile_of_mem hpairs hcandidate
    obtain ⟨n, hnode, hprivate, hsamebytes⟩ := hexact.file file (by rw [hof]; exact hfile)
    refine ⟨n, ?_, hprivate, ?_, ?_⟩
    · rw [← hmatch.path, ← hpath, hnode]
    · rw [hsamebytes, hfilebytes, hmatch.length]
    · rw [hsamebytes, hfilebytes, hmatch.digest]
  · intro path hpath
    have hpaths : installedPaths found =
        manifest.files.map (·.path) ++ [installationRecordPath] := by
      rw [installedPaths, hof]
      exact congrArg (· ++ _) (paths_of_zipWith hpairs)
    rw [← hpaths]
    exact hexact.only path hpath

end

end Invokrum.Install
