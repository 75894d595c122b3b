import Invokrum.Directory.Agreement
import Invokrum.Directory.Exact
import Invokrum.Install.Provenance
import Invokrum.Install.RecordSize

/-!
# What a re-verification accepts

The re-verification succeeds on a tree exactly when the tree is the
installation: the files of the bundle, the record and the directories on the
way to them, all private, with the right bytes, and nothing else.
-/

namespace Invokrum.Install

open Outcome Ordered Programs Environment Invokrum.Distribution Invokrum.Acquisition
open Invokrum.FileSystem
open Directory (Tree Apart Holds Loads PinnedRoot Accepts parents treeEntries declaredPaths
  logicalKey maxDirectoryDepth maxVisibleEntries loadCandidate readCandidateFile
  readDeclaredFile manifestFromVerified_eq_ok loadCandidate_exact)
open Text (Bytes)

/-! ## Exact installations -/

structure PrivateDirectory (store : LinuxInstallStore) (n : Node) : Prop where
  kind : n.kind = .directory
  device : n.metadata.device = store.rootDevice
  mode : n.metadata.mode &&& 0o777 = privateDirectoryMode

structure PrivateFile (store : LinuxInstallStore) (n : Node) : Prop where
  kind : n.kind = .file
  device : n.metadata.device = store.rootDevice
  links : n.metadata.links = 1
  mode : n.metadata.mode &&& 0o777 = privateFileMode

/-- The files of an installation: those of the bundle and the record. -/
def installedPaths (bundle : VerifiedBundle) : List BundlePath :=
  bundle.files.map (·.path) ++ [installationRecordPath]

/-- The nodes below a root are the installation of this bundle for this publisher. -/
structure InstalledExactly (store : LinuxInstallStore) (nodes : Path → Option Node)
    (bundle : VerifiedBundle) (publisher : Option AuthorizedPublisher) : Prop where
  root : ∃ n, nodes [] = some n ∧ PrivateDirectory store n
  directory : ∀ path ∈ installedPaths bundle, ∀ directory ∈ parents path,
    ∃ n, nodes directory = some n ∧ PrivateDirectory store n
  file : ∀ file ∈ bundle.files, ∃ n, nodes (components file.path) = some n ∧
    PrivateFile store n ∧ n.bytes = file.bytes
  record : ∃ n, nodes (components installationRecordPath) = some n ∧ PrivateFile store n ∧
    installationRecordBytes bundle publisher = .ok n.bytes
  only : ∀ path, nodes path ≠ none → path = [] ∨ path ∈ treeEntries (installedPaths bundle)
  apart : ∀ p q : BundlePath, nodes (components p) ≠ none → nodes (components q) ≠ none →
    logicalKey p = logicalKey q → p = q
  depth : ∀ path, nodes path ≠ none → path.length ≤ maxDirectoryDepth + 1
  entries : (treeEntries (installedPaths bundle)).length ≤ maxVisibleEntries

/-- No file of the tree has the digest of another file of the bundle. -/
def CollisionFree (nodes : Path → Option Node) (bundle : VerifiedBundle) : Prop :=
  ∀ file ∈ bundle.files, ∀ n, nodes (components file.path) = some n →
    Digest.sha256LowerHex n.bytes = Digest.sha256LowerHex file.bytes → n.bytes = file.bytes

variable {umask : Nat} {store : LinuxInstallStore} {bundle : VerifiedBundle}
  {publisher : Option AuthorizedPublisher} {fs : Fs} {root : Path} {site : Site}

/-! ## Permissions -/

theorem safePrivateDirectory_eq_true {n : Node} :
    safePrivateDirectory n.metadata store.rootDevice = true ↔ PrivateDirectory store n := by
  simp only [safePrivateDirectory, Bool.and_eq_true, beq_iff_eq]
  constructor
  · intro h
    exact ⟨h.1.1, h.1.2, h.2⟩
  · intro h
    exact ⟨⟨h.kind, h.device⟩, h.mode⟩

theorem safePrivateFile_eq_true {n : Node} :
    safePrivateFile n.metadata store.rootDevice = true ↔ PrivateFile store n := by
  simp only [safePrivateFile, Bool.and_eq_true, beq_iff_eq]
  constructor
  · intro h
    exact ⟨h.1.1.1, h.1.1.2, h.1.2, h.2⟩
  · intro h
    exact ⟨⟨⟨h.kind, h.device⟩, h.links⟩, h.mode⟩

/-- A look at a path, followed by a check of the metadata. -/
theorem checked_eq_ok {path : Path} (safe : Metadata → Bool) {e : LinuxInstallStoreError} :
    ((faultless umask).outcome (do
      let metadata ← call site (.symlinkMetadata path) fun _ => e
      Fallible.throwIf (safe metadata = false) e : Installation Unit) fs).1 = .ok () ↔
      ∃ n, fs.node path = some n ∧ safe n.metadata = true := by
  cases hnode : fs.node path with
  | some n =>
      rw [bind_of_ok (symlinkMetadata_outcome hnode), outcome_throwIf]
      by_cases hsafe : safe n.metadata = true
      · simp [hsafe]
      · simp [hsafe]
  | none =>
      have hlook : (faultless umask).outcome (call site (.symlinkMetadata path) fun _ => e) fs =
          (.error e, fs) := by
        show ((fs.symlinkMetadata path).mapError _, fs) = _
        rw [Fs.symlinkMetadata, hnode]
        rfl
      rw [bind_of_error hlook]
      simp

theorem verifyPrivateDirectory_eq_ok {path : Path} :
    ((faultless umask).outcome (verifyPrivateDirectory store site path) fs).1 = .ok () ↔
      ∃ n, fs.node path = some n ∧ PrivateDirectory store n := by
  simp only [← safePrivateDirectory_eq_true]
  exact checked_eq_ok fun metadata => safePrivateDirectory metadata store.rootDevice

theorem verifyPrivateFile_eq_ok {path : Path} :
    ((faultless umask).outcome (verifyPrivateFile store site path) fs).1 = .ok () ↔
      ∃ n, fs.node path = some n ∧ PrivateFile store n := by
  simp only [← safePrivateFile_eq_true]
  exact checked_eq_ok fun metadata => safePrivateFile metadata store.rootDevice

theorem mem_directoriesFrom {root rest d : Path} :
    d ∈ directoriesFrom root rest ↔ ∃ pre, pre ≠ [] ∧ pre <+: rest ∧ d = root ++ pre := by
  induction rest generalizing root with
  | nil =>
      simp only [directoriesFrom, List.not_mem_nil, List.prefix_nil, false_iff, not_exists, not_and]
      intro pre hne hnil
      exact absurd hnil hne
  | cons component rest ih =>
      rw [directoriesFrom, List.mem_cons, ih]
      constructor
      · intro h
        rcases h with rfl | ⟨pre, hne, hpre, rfl⟩
        · exact ⟨[component], by simp, ⟨rest, rfl⟩, rfl⟩
        · exact ⟨component :: pre, by simp, List.cons_prefix_cons.mpr ⟨rfl, hpre⟩, by simp⟩
      · intro h
        obtain ⟨pre, hne, hpre, rfl⟩ := h
        cases pre with
        | nil => exact absurd rfl hne
        | cons first pre =>
            obtain ⟨rfl, hrest⟩ := List.cons_prefix_cons.mp hpre
            by_cases hempty : pre = []
            · exact .inl (by rw [hempty])
            · exact .inr ⟨pre, hempty, hrest, by simp⟩

theorem mem_directoriesFrom_parents {path : BundlePath} {d : Path} :
    d ∈ directoriesFrom root (components path).dropLast ↔
      ∃ directory ∈ parents path, d = root ++ directory := by
  simp only [mem_directoriesFrom, Directory.mem_parents_iff, and_assoc]

/-- A file and the directories on the way to it are private. -/
def PathPrivate (store : LinuxInstallStore) (nodes : Path → Option Node) (path : BundlePath) :
    Prop :=
  (∀ directory ∈ parents path, ∃ n, nodes directory = some n ∧ PrivateDirectory store n) ∧
    ∃ n, nodes (components path) = some n ∧ PrivateFile store n

theorem verifyInstalledPathPermissions_eq_ok {path : BundlePath} :
    ((faultless umask).outcome (verifyInstalledPathPermissions store site root path) fs).1 =
        .ok () ↔ PathPrivate store (fs.below root) path := by
  have hstill : ∀ d ∈ directoriesFrom root (components path).dropLast,
      ((faultless umask).outcome (verifyPrivateDirectory store site d) fs).2 = fs := by
    intro d hd
    obtain ⟨directory, _, rfl⟩ := mem_directoriesFrom_parents.mp hd
    exact (reads_verifyPrivateDirectory (List.prefix_append root directory) fs).1
  have hreads : ReadsBelow umask root
      ((directoriesFrom root (components path).dropLast).forM
        (verifyPrivateDirectory store site)) := by
    apply Reads.forM
    intro d hd
    obtain ⟨directory, _, rfl⟩ := mem_directoriesFrom_parents.mp hd
    exact reads_verifyPrivateDirectory (List.prefix_append root directory)
  rw [verifyInstalledPathPermissions, outcome_bind_still (hreads fs).1]
  simp only [verifyPrivateFile_eq_ok]
  constructor
  · intro h
    obtain ⟨_, hdirectories, hfile⟩ := h
    refine ⟨?_, hfile⟩
    intro directory hdirectory
    have hone := (outcome_forM_still hstill).mp hdirectories (root ++ directory)
      (mem_directoriesFrom_parents.mpr ⟨directory, hdirectory, rfl⟩)
    exact verifyPrivateDirectory_eq_ok.mp hone
  · intro h
    refine ⟨⟨⟩, (outcome_forM_still hstill).mpr ?_, h.2⟩
    intro d hd
    obtain ⟨directory, hdirectory, rfl⟩ := mem_directoriesFrom_parents.mp hd
    exact verifyPrivateDirectory_eq_ok.mpr (h.1 directory hdirectory)

theorem verifyInstallationPermissions_eq_ok :
    ((faultless umask).outcome (verifyInstallationPermissions store site root bundle) fs).1 =
        .ok () ↔ (∃ n, fs.below root [] = some n ∧ PrivateDirectory store n) ∧
      ∀ path ∈ installedPaths bundle, PathPrivate store (fs.below root) path := by
  have hroot : ReadsBelow umask root (verifyPrivateDirectory store site root) :=
    reads_verifyPrivateDirectory (List.prefix_refl root)
  have hpath : ∀ path : BundlePath, ReadsBelow umask root
      (verifyInstalledPathPermissions store site root path) :=
    fun path => reads_verifyInstalledPathPermissions
  have hfiles : ReadsBelow umask root
      (bundle.files.forM fun file => verifyInstalledPathPermissions store site root file.path) :=
    Reads.forM fun file _ => hpath file.path
  have hstill : ∀ file ∈ bundle.files, ((faultless umask).outcome
      (verifyInstalledPathPermissions store site root file.path) fs).2 = fs :=
    fun file _ => (hpath file.path fs).1
  have hforM : ((faultless umask).outcome (bundle.files.forM fun file =>
      verifyInstalledPathPermissions store site root file.path) fs).1 = .ok ⟨⟩ ↔
        ∀ file ∈ bundle.files, PathPrivate store (fs.below root) file.path := by
    rw [outcome_forM_still hstill]
    exact forall₂_congr fun file _ => verifyInstalledPathPermissions_eq_ok
  have hnode : fs.below root [] = fs.node root := by rw [Fs.below, List.append_nil]
  rw [verifyInstallationPermissions, outcome_bind_still (hroot fs).1, hnode]
  simp only [outcome_bind_still (hfiles fs).1, verifyInstalledPathPermissions_eq_ok]
  constructor
  · intro h
    obtain ⟨_, hprivate, _, hall, hrecord⟩ := h
    refine ⟨verifyPrivateDirectory_eq_ok.mp hprivate, ?_⟩
    intro path hmem
    rcases List.mem_append.mp hmem with hmem | hmem
    · obtain ⟨file, hfile, rfl⟩ := List.mem_map.mp hmem
      exact hforM.mp hall file hfile
    · rw [List.mem_singleton.mp hmem]
      exact hrecord
  · intro h
    have hall := hforM.mpr fun file hfile =>
      h.2 _ (List.mem_append_left _ (List.mem_map_of_mem hfile))
    have hrecord := h.2 _ (List.mem_append_right _ List.mem_cons_self)
    exact ⟨(), verifyPrivateDirectory_eq_ok.mpr h.1, ⟨⟩, hall, hrecord⟩

/-! ## The steps of a re-verification -/

/-- What every step of a successful re-verification found. -/
structure StepsPass (umask : Nat) (store : LinuxInstallStore) (fs : Fs) (root : Path)
    (bundle : VerifiedBundle) (publisher : Option AuthorizedPublisher) (manifest : BundleManifest)
    (candidates : List CandidateFile) (record : Bytes) : Prop where
  permissions :
    ((faultless umask).outcome (verifyInstallationPermissions store .target root bundle) fs).1 =
      .ok ()
  declared : manifestFromVerified bundle = .ok manifest
  source : viewed (fs.below root) (fun tree => (PinnedRoot.open tree).map fun _ => ()) = .ok ()
  load : viewed (fs.below root) (fun tree => loadCandidate tree manifest
    (some (installationRecordPath, maxInstallationRecordBytes))) = .ok candidates
  content : ∃ verified, verifyLoaded manifest bundle candidates = .ok verified
  read : viewed (fs.below root) (fun tree =>
    readCandidateFile tree installationRecordPath maxInstallationRecordBytes) = .ok record
  record : installationRecordBytes bundle publisher = .ok record

theorem matchesInstallation_eq_ok :
    ((faultless umask).outcome (matchesInstallation store root bundle publisher) fs).1 = .ok () ↔
      ∃ manifest candidates record,
        StepsPass umask store fs root bundle publisher manifest candidates record := by
  have hpermissions : ReadsBelow umask root
      (verifyInstallationPermissions store .target root bundle) :=
    reads_verifyInstallationPermissions
  have hcall : ∀ {op : Op} {wrap : op.Error → LinuxInstallStoreError} {v : op.Value},
      ((faultless umask).outcome (call .target op wrap) fs).1 = .ok v ↔
        (answer umask fs op).1 = .ok v := by
    intro op wrap v
    show (answer umask fs op).1.mapError wrap = .ok v ↔ _
    rw [mapError_eq_ok]
  have hsame : ∀ {actual expected : Bytes},
      ((faultless umask).outcome (Fallible.throwIf (actual ≠ expected)
        LinuxInstallStoreError.existingInstallationMismatch : Installation Unit) fs).1 = .ok () ↔
          actual = expected := by
    intro actual expected
    rw [outcome_throwIf]
    by_cases heq : actual = expected <;> simp [heq]
  have hthrow : ∀ {actual expected : Bytes},
      ((faultless umask).outcome (Fallible.throwIf (actual ≠ expected)
        LinuxInstallStoreError.existingInstallationMismatch : Installation Unit) fs).2 = fs := by
    intro actual expected
    rw [outcome_throwIf]
  unfold matchesInstallation
  rw [outcome_bind_still (hpermissions fs).1]
  constructor
  · intro h
    obtain ⟨_, hfirst, h⟩ := h
    obtain ⟨manifest, hmanifest, h⟩ := (outcome_bind_still rfl).mp h
    obtain ⟨_, hopen, h⟩ := (outcome_bind_still rfl).mp h
    obtain ⟨candidates, hload, h⟩ := (outcome_bind_still rfl).mp h
    obtain ⟨verified, hverified, h⟩ := (outcome_bind_still rfl).mp h
    obtain ⟨actual, hread, h⟩ := (outcome_bind_still rfl).mp h
    obtain ⟨expected, hrecord, h⟩ := (outcome_bind_still rfl).mp h
    obtain ⟨_, heq, _⟩ := (outcome_bind_still hthrow).mp h
    obtain rfl := hsame.mp heq
    exact ⟨manifest, candidates, actual, hfirst, hmanifest, hcall.mp hopen, hcall.mp hload,
      ⟨verified, hverified⟩, hcall.mp hread, hrecord⟩
  · intro h
    obtain ⟨manifest, candidates, record, hsteps⟩ := h
    obtain ⟨verified, hverified⟩ := hsteps.content
    refine ⟨(), hsteps.permissions, ?_⟩
    refine (outcome_bind_still rfl).mpr ⟨manifest, hsteps.declared, ?_⟩
    refine (outcome_bind_still rfl).mpr ⟨(), hcall.mpr hsteps.source, ?_⟩
    refine (outcome_bind_still rfl).mpr ⟨candidates, hcall.mpr hsteps.load, ?_⟩
    refine (outcome_bind_still rfl).mpr ⟨verified, hverified, ?_⟩
    refine (outcome_bind_still rfl).mpr ⟨record, hcall.mpr hsteps.read, ?_⟩
    refine (outcome_bind_still rfl).mpr ⟨record, hsteps.record, ?_⟩
    exact (outcome_bind_still hthrow).mpr ⟨(), hsame.mpr rfl, hsteps.permissions⟩

theorem verifyExistingInstallation_eq_ok :
    ((faultless umask).outcome (verifyExistingInstallation store root bundle publisher) fs).1 =
        .ok () ↔ ∃ manifest candidates record,
      StepsPass umask store fs root bundle publisher manifest candidates record := by
  rw [← matchesInstallation_eq_ok, verifyExistingInstallation, outcome_mapError, mapError_eq_ok]

/-! ## Exactness -/

/-- No name has a separator in it. -/
def PlainNames (fs : Fs) : Prop :=
  ∀ path name, fs.node (path ++ [name]) ≠ none → '/' ∉ name.toList

theorem plain_of_below (hnames : PlainNames fs) {tree : Tree} (htree : tree.node = fs.below root) :
    tree.Plain := by
  constructor
  · intro path name hnode
    rw [htree, Fs.below, ← List.append_assoc] at hnode
    obtain ⟨n, hn, hkind⟩ := fs.closed _ _ hnode
    simp [Tree.isDirectory, htree, Fs.below, hn, hkind]
  · intro path name hnode
    rw [htree, Fs.below, ← List.append_assoc] at hnode
    exact hnames _ _ hnode

theorem installationRecordBytes_length {record : Bytes}
    (h : installationRecordBytes bundle publisher = .ok record) :
    record.length ≤ maxInstallationRecordBytes := by
  simp only [installationRecordBytes, bind_eq_ok, rejectIf_eq_ok, exists_const, pure, Except.pure,
    Except.ok.injEq] at h
  obtain ⟨_, _, _, _, _, hlimit, rfl⟩ := h
  exact Nat.not_lt.mp hlimit

/-- The candidates that a bundle was verified from, in its own order. -/
structure VerifiedFrom (bundle : VerifiedBundle) (manifest : BundleManifest)
    (files : List CandidateFile) : Prop where
  reconstructed : manifestFromVerified bundle = .ok manifest
  paths : bundle.files.map (·.path) = manifest.files.map (·.path)
  declared : ∀ file ∈ bundle.files, ∃ declared ∈ manifest.files,
    file.path = declared.path ∧ file.digest = declared.digest
  candidates : files.map (·.path) = manifest.files.map (·.path)
  bytes : ∀ file ∈ files, ∃ verified ∈ bundle.files,
    verified.path = file.path ∧ verified.bytes = file.bytes
  loaded : verifyLoaded manifest bundle files = .ok bundle

theorem verifiedFile_of_mem {declared : List BundleFile} {sorted : List CandidateFile}
    (h : List.Forall₂ IsDeclared declared sorted) {candidate : CandidateFile}
    (hcandidate : candidate ∈ sorted) : ∃ file ∈ List.zipWith verifiedFile declared sorted,
      file.path = candidate.path ∧ file.bytes = candidate.bytes := by
  induction h with
  | nil => cases hcandidate
  | cons hd _ ih =>
      rw [List.zipWith_cons_cons]
      rcases List.mem_cons.mp hcandidate with rfl | hrest
      · exact ⟨_, List.mem_cons_self, rfl, rfl⟩
      · obtain ⟨file, hfile, hsame⟩ := ih hrest
        exact ⟨file, List.mem_cons_of_mem _ hfile, hsame⟩

theorem paths_of_describes {candidates : List CandidateFile} {declared : List BundleFile}
    {files : List VerifiedFile} (h : List.Forall₂ (Describes candidates) declared files) :
    files.map (·.path) = declared.map (·.path) ∧ ∀ file ∈ files, ∃ d ∈ declared,
      file.path = d.path ∧ file.digest = d.digest := by
  induction h with
  | nil => simp
  | cons hd _ ih =>
      refine ⟨by rw [List.map_cons, List.map_cons, ih.1, hd.path], ?_⟩
      intro file hfile
      rcases List.mem_cons.mp hfile with rfl | hfile
      · exact ⟨_, List.mem_cons_self, hd.path, hd.digest⟩
      · obtain ⟨d, hmem, hsame⟩ := ih.2 file hfile
        exact ⟨d, List.mem_cons_of_mem _ hmem, hsame⟩

theorem exists_verifiedFrom (h : bundle.IsVerified) :
    ∃ manifest files, VerifiedFrom bundle manifest files := by
  obtain ⟨manifest, subject, expected, candidates, hb⟩ := h
  have hmanifest := manifestFromVerified_eq_ok hb
  have hperm := sortByKey_perm CandidateFile.path candidates
  obtain ⟨hverifies, rfl⟩ := verifyCandidate_eq_ok.mp hb
  have hpairs := (matches_iff.mp hverifies.exact).2
  have hdescribes := paths_of_describes
    (describes_of_forall₂ (fun _ hc => hperm.mem_iff.mp hc) hpairs)
  refine ⟨manifest, sortByKey (·.path) candidates, hmanifest, hdescribes.1, hdescribes.2,
    (paths_of_forall₂ hpairs).symm, fun file hfile => verifiedFile_of_mem hpairs hfile, ?_⟩
  rw [verifyLoaded, mapError_eq_ok, verifyCandidate_eq_of_perm _ _ _ hperm, verifyCandidate_eq_ok]
  exact ⟨⟨rfl, hverifies.count, hverifies.expanded, hverifies.exact⟩, rfl⟩

/-- The paths that the re-verification declares to the loader. -/
theorem VerifiedFrom.installedPaths {manifest : BundleManifest} {files : List CandidateFile}
    (h : VerifiedFrom bundle manifest files) (maximum : Nat) :
    declaredPaths manifest (some (installationRecordPath, maximum)) =
      Install.installedPaths bundle := by
  rw [declaredPaths, Install.installedPaths, h.paths]
  rfl

/-- Candidates that verify against the manifest of a bundle have its bytes, up to a collision. -/
theorem bytes_of_verifyLoaded {manifest : BundleManifest} {files loaded : List CandidateFile}
    {verified : VerifiedBundle} {nodes : Path → Option Node} (hbundle : bundle.IsVerified)
    (hfrom : VerifiedFrom bundle manifest files) (hfree : CollisionFree nodes bundle)
    (hloaded : ∀ file ∈ loaded, ∃ n, nodes (components file.path) = some n ∧ n.bytes = file.bytes)
    (h : verifyLoaded manifest bundle loaded = .ok verified) {file : VerifiedFile}
    (hfile : file ∈ bundle.files) :
    ∃ n, nodes (components file.path) = some n ∧ n.bytes = file.bytes := by
  rw [verifyLoaded, mapError_eq_ok, verifyCandidate_eq_ok] at h
  have hpairs := (matches_iff.mp h.1.exact).2
  obtain ⟨declared, hdeclared, hpath, hdigest⟩ := hfrom.declared file hfile
  obtain ⟨candidate, hcandidate, hmatch⟩ := exists_of_forall₂ hpairs hdeclared
  obtain ⟨n, hnode, hbytes⟩ := hloaded candidate ((mem_sortByKey _).mp hcandidate)
  rw [hmatch.path, ← hpath] at hnode
  refine ⟨n, hnode, hfree file hfile n hnode ?_⟩
  rw [hbytes, hmatch.digest, ← hdigest, hbundle.digest hfile]

theorem installedExactly_of_steps {manifest : BundleManifest} {candidates : List CandidateFile}
    {record : Bytes} (hnames : PlainNames fs) (hbundle : bundle.IsVerified)
    (hfree : CollisionFree (fs.below root) bundle)
    (h : StepsPass umask store fs root bundle publisher manifest candidates record) :
    InstalledExactly store (fs.below root) bundle publisher := by
  obtain ⟨manifest', files, hfrom⟩ := exists_verifiedFrom hbundle
  obtain rfl : manifest' = manifest := Except.ok.inj (hfrom.reconstructed.symm.trans h.declared)
  obtain ⟨hroot, hprivate⟩ := verifyInstallationPermissions_eq_ok.mp h.permissions
  obtain ⟨tree, htree, hload⟩ := viewed_eq_ok h.load
  have hloads := (loadCandidate_exact (plain_of_below hnames htree)).mp hload
  obtain ⟨device, hholds⟩ := hloads.holds
  have hdepth := hloads.depth
  have hentries := hloads.entries
  rw [hfrom.installedPaths] at hholds hdepth hentries
  have hbytes := hloads.bytes
  have hapart := hloads.apart
  have honly := hholds.only
  rw [htree] at hbytes honly
  unfold Apart at hapart
  rw [htree] at hapart
  have hfile : ∀ path ∈ installedPaths bundle, ∀ n,
      fs.below root (components path) = some n → PrivateFile store n := by
    intro path hpath n hnode
    obtain ⟨_, n', hnode', hfile⟩ := hprivate path hpath
    rw [hnode] at hnode'
    cases hnode'
    exact hfile
  obtain ⟨verified, hverified⟩ := h.content
  refine ⟨hroot, fun path hpath => (hprivate path hpath).1, ?_, ?_, honly, hapart, ?_, hentries⟩
  · intro file hmem
    obtain ⟨n, hnode, hsame⟩ := bytes_of_verifyLoaded hbundle hfrom hfree hbytes hverified hmem
    exact ⟨n, hnode,
      hfile _ (List.mem_append_left _ (List.mem_map_of_mem hmem)) n hnode, hsame⟩
  · obtain ⟨hread, _⟩ := viewed_read h.read
    obtain ⟨n, hnode, _, hsame⟩ := Fs.readFile_eq_ok hread
    refine ⟨n, hnode, hfile _ (List.mem_append_right _ List.mem_cons_self) n hnode, ?_⟩
    rw [hsame]
    exact h.record
  · intro path hnode
    rcases honly path hnode with rfl | hentry
    · exact Nat.zero_le _
    · rcases Directory.mem_treeEntries.mp hentry with ⟨file, hmem, rfl⟩ | ⟨file, hmem, hparent⟩
      · exact hdepth file hmem
      · exact Nat.le_trans (Nat.le_of_lt (Directory.length_of_mem_parents hparent))
          (hdepth file hmem)

theorem InstalledExactly.pathPrivate {nodes : Path → Option Node}
    (h : InstalledExactly store nodes bundle publisher) {path : BundlePath}
    (hpath : path ∈ installedPaths bundle) : PathPrivate store nodes path := by
  refine ⟨h.directory path hpath, ?_⟩
  rcases List.mem_append.mp hpath with hpath | hpath
  · obtain ⟨file, hfile, rfl⟩ := List.mem_map.mp hpath
    obtain ⟨n, hnode, hfile, _⟩ := h.file file hfile
    exact ⟨n, hnode, hfile⟩
  · obtain ⟨n, hnode, hfile, _⟩ := h.record
    rw [List.mem_singleton.mp hpath]
    exact ⟨n, hnode, hfile⟩

theorem steps_of_plain (hplain : ∀ tree : Tree, tree.node = fs.below root → tree.Plain)
    (hbundle : bundle.IsVerified) (h : InstalledExactly store (fs.below root) bundle publisher) :
    ∃ manifest candidates record,
      StepsPass umask store fs root bundle publisher manifest candidates record := by
  obtain ⟨manifest, files, hfrom⟩ := exists_verifiedFrom hbundle
  obtain ⟨tree, htree⟩ := Directory.exists_tree h.only
  obtain ⟨r, hr, _, hrecord⟩ := h.record
  have hlimit := installationRecordBytes_length hrecord
  have hholds : Holds tree store.rootDevice (installedPaths bundle) := by
    constructor
    · obtain ⟨n, hnode, hdirectory⟩ := h.root
      exact ⟨n, htree ▸ hnode, hdirectory.kind, hdirectory.device⟩
    · intro path hpath
      obtain ⟨_, n, hnode, hfile⟩ := h.pathPrivate hpath
      exact ⟨n, htree ▸ hnode, hfile.kind, hfile.links, hfile.device⟩
    · intro path hpath directory hparent
      obtain ⟨n, hnode, hdirectory⟩ := h.directory path hpath directory hparent
      exact ⟨n, htree ▸ hnode, hdirectory.kind, hdirectory.device⟩
    · intro path hnode
      exact h.only path (htree ▸ hnode)
  have hdepth : ∀ path ∈ installedPaths bundle,
      (components path).length ≤ maxDirectoryDepth + 1 := by
    intro path hpath
    obtain ⟨_, n, hnode, _⟩ := h.pathPrivate hpath
    exact h.depth _ (by simp [hnode])
  obtain ⟨pinned, hopen, hdevice⟩ := hholds.open_eq_ok
  have hread : readCandidateFile tree installationRecordPath maxInstallationRecordBytes =
      .ok r.bytes := by
    rw [readCandidateFile, hopen, ok_bind]
    exact hholds.readDeclaredFile_eq_ok hdepth hopen hdevice
      (List.mem_append_right _ List.mem_cons_self) (htree ▸ hr) hlimit
  have hload : loadCandidate tree manifest
      (some (installationRecordPath, maxInstallationRecordBytes)) = .ok files := by
    rw [loadCandidate_exact (hplain tree htree)]
    constructor
    · exact ⟨_, hfrom.installedPaths _ ▸ hholds⟩
    · unfold Apart
      rw [htree]
      exact h.apart
    · exact hfrom.installedPaths _ ▸ hdepth
    · exact hfrom.installedPaths _ ▸ h.entries
    · intro path maximum hallowed n hnode
      cases hallowed
      rw [htree, hr] at hnode
      cases hnode
      exact hlimit
    · exact hfrom.candidates
    · intro file hfile
      obtain ⟨verified, hverified, hpath, hbytes⟩ := hfrom.bytes file hfile
      obtain ⟨n, hnode, _, hsame⟩ := h.file verified hverified
      rw [hpath] at hnode
      exact ⟨n, htree ▸ hnode, hsame.trans hbytes⟩
  refine ⟨manifest, files, r.bytes, ?_, hfrom.reconstructed, ?_, ?_, ⟨_, hfrom.loaded⟩, ?_, hrecord⟩
  · apply verifyInstallationPermissions_eq_ok.mpr
    exact ⟨h.root, fun path hpath => h.pathPrivate hpath⟩
  · rw [viewed_eq htree fun _ hnodes => by rw [Directory.open_congr hnodes], hopen]
    rfl
  · rw [viewed_load htree, hload]
  · rw [viewed_eq htree fun _ hnodes => Directory.readCandidateFile_congr hnodes _ _, hread]

theorem steps_of_installedExactly (hnames : PlainNames fs) (hbundle : bundle.IsVerified)
    (h : InstalledExactly store (fs.below root) bundle publisher) :
    ∃ manifest candidates record,
      StepsPass umask store fs root bundle publisher manifest candidates record :=
  steps_of_plain (fun _ htree => plain_of_below hnames htree) hbundle h

/-- The re-verification of an installed tree is exact. -/
theorem verifyExistingInstallation_exact (umask : Nat) (store : LinuxInstallStore) (fs : Fs)
    (root : Path) (bundle : VerifiedBundle) (publisher : Option AuthorizedPublisher)
    (hnames : PlainNames fs) (hbundle : bundle.IsVerified)
    (hfree : CollisionFree (fs.below root) bundle) :
    ((faultless umask).outcome (verifyExistingInstallation store root bundle publisher) fs).1 =
        .ok () ↔ InstalledExactly store (fs.below root) bundle publisher := by
  rw [verifyExistingInstallation_eq_ok]
  constructor
  · intro h
    obtain ⟨manifest, candidates, record, hsteps⟩ := h
    exact installedExactly_of_steps hnames hbundle hfree hsteps
  · intro h
    exact steps_of_installedExactly hnames hbundle h

/-! ## An installation of one file -/

def publishedFile (bytes : Bytes) : Node := ⟨⟨.file, 1, 2, 1, 0o600⟩, bytes⟩

theorem publishedFile_private (bytes : Bytes) : PrivateFile sampleStore (publishedFile bytes) := by
  refine ⟨rfl, rfl, rfl, ?_⟩
  show 0o600 &&& 0o777 = privateFileMode
  decide

/-- The sample bundle with this record, at the root. -/
def publishedNode (record : Bytes) (path : Path) : Option Node :=
  if path = [] then some (sampleDirectory 1)
  else if path = ["a"] then some (publishedFile [97])
  else if path = [".invokrum-installation.json"] then some (publishedFile record)
  else none

theorem publishedNode_cases {record : Bytes} {path : Path} (h : publishedNode record path ≠ none) :
    path = [] ∨ path = ["a"] ∨ path = [".invokrum-installation.json"] := by
  by_contra hother
  rw [not_or, not_or] at hother
  apply h
  rw [publishedNode, if_neg hother.1, if_neg hother.2.1, if_neg hother.2.2]

def publishedFs (record : Bytes) : Fs where
  node := publishedNode record
  nextInode := 3
  closed := by
    intro path name hnode
    have hpath : path = [] := by
      rcases publishedNode_cases hnode with h | h | h
      · simp at h
      · exact (List.append_eq_singleton_iff.mp h).elim (fun h => h.1) fun h => absurd h.2 (by simp)
      · exact (List.append_eq_singleton_iff.mp h).elim (fun h => h.1) fun h => absurd h.2 (by simp)
    rw [hpath]
    exact ⟨_, rfl, rfl⟩

theorem verifyExistingInstallation_exact_sample :
    ∃ record, installationRecordBytes sampleBundle none = .ok record ∧
      ((faultless 0o022).outcome (verifyExistingInstallation sampleStore [] sampleBundle none)
        (publishedFs record)).1 = .ok () := by
  have hverified : sampleBundle.IsVerified := ⟨_, _, _, _, verifyCandidate_sample⟩
  have hmatching : publisherMismatch sampleBundle none = false := rfl
  obtain ⟨record, hrecord, _⟩ := exists_record hverified hmatching
  have hsample : components samplePath = ["a"] := by decide
  have hevidence : components installationRecordPath = [".invokrum-installation.json"] := by
    decide
  have hparents : parents samplePath = [] ∧ parents installationRecordPath = [] := by
    decide +kernel
  have hbelow : (publishedFs record).below [] = publishedNode record := rfl
  have hpath : ∀ p : BundlePath, publishedNode record (components p) ≠ none →
      p = samplePath ∨ p = installationRecordPath := by
    intro p hnode
    rcases publishedNode_cases hnode with h | h | h
    · exact absurd h (components_ne_nil p)
    · exact .inl (Directory.components_injective (h.trans hsample.symm))
    · exact .inr (Directory.components_injective (h.trans hevidence.symm))
  have hnames : PlainNames (publishedFs record) := by
    intro path name hnode
    rcases publishedNode_cases hnode with h | h | h
    · simp at h
    · have hname : name = "a" := by simpa using congrArg List.getLast? h
      rw [hname]
      decide
    · have hname : name = ".invokrum-installation.json" := by simpa using congrArg List.getLast? h
      rw [hname]
      decide
  have hfree : CollisionFree (publishedNode record) sampleBundle := by
    intro file hfile n hnode _
    obtain rfl : file = ⟨samplePath, [97], sampleDigest⟩ := by simpa [sampleBundle] using hfile
    rw [hsample] at hnode
    exact (congrArg Node.bytes (Option.some.inj hnode)).symm
  refine ⟨record, hrecord, ?_⟩
  rw [verifyExistingInstallation_exact 0o022 sampleStore (publishedFs record) [] sampleBundle none
    hnames hverified (hbelow ▸ hfree), hbelow]
  constructor
  · exact ⟨_, rfl, rfl, rfl, rfl⟩
  · intro path hmem directory hdirectory
    have hnone : parents path = [] := by
      rcases List.mem_pair.mp hmem with rfl | rfl
      · exact hparents.1
      · exact hparents.2
    rw [hnone] at hdirectory
    cases hdirectory
  · intro file hfile
    obtain rfl : file = ⟨samplePath, [97], sampleDigest⟩ := by simpa [sampleBundle] using hfile
    rw [hsample]
    exact ⟨_, rfl, publishedFile_private [97], rfl⟩
  · rw [hevidence]
    exact ⟨_, rfl, publishedFile_private record, hrecord⟩
  · intro path hnode
    rw [Directory.mem_treeEntries]
    rcases publishedNode_cases hnode with h | h | h
    · exact .inl h
    · exact .inr (.inl ⟨samplePath, by simp [installedPaths, sampleBundle], by rw [h, hsample]⟩)
    · exact .inr (.inl ⟨installationRecordPath, by simp [installedPaths], by rw [h, hevidence]⟩)
  · intro p q hp hq hkey
    have hdiffer : logicalKey samplePath ≠ logicalKey installationRecordPath := by decide
    rcases hpath p hp with rfl | rfl
    · rcases hpath q hq with rfl | rfl
      · rfl
      · exact absurd hkey hdiffer
    · rcases hpath q hq with rfl | rfl
      · exact absurd hkey.symm hdiffer
      · rfl
  · intro path hnode
    rcases publishedNode_cases hnode with rfl | rfl | rfl <;> decide
  · decide

end Invokrum.Install
