import Invokrum.Base.Safety
import Invokrum.Base.Success
import Invokrum.Install.Concurrent
import Invokrum.Install.Staging

/-!
# The first installation of a subject

On a file system without failures an admitted bundle whose subject has no root
yet is installed exactly when its paths can stand next to each other in one
directory tree within the limits of the loader. Nothing but the root of the
subject is left of the work, and the same request is answered from it again.
-/

namespace Invokrum.Install

open Outcome Programs Environment Invokrum.Distribution Invokrum.Acquisition
open Invokrum.FileSystem
open Directory (Tree Holds PinnedRoot parents treeEntries logicalKey maxDirectoryDepth
  maxVisibleEntries loadCandidate readCandidateFile loadCandidate_exact)
open Text (Bytes)

variable {umask : Nat} {store : LinuxInstallStore} {bundle : VerifiedBundle}
  {publisher : Option AuthorizedPublisher} {fs fs' : Fs} {root : Path} {record : Bytes}

/-! ## Bundles that have a place -/

/-- The files of a bundle and its record fit into one tree that the loader accepts. -/
structure Placeable (bundle : VerifiedBundle) : Prop where
  unnested : Unnested (installedPaths bundle)
  apart : ∀ p q : BundlePath, components p ∈ treeEntries (installedPaths bundle) →
    components q ∈ treeEntries (installedPaths bundle) → logicalKey p = logicalKey q → p = q
  depth : ∀ path ∈ installedPaths bundle, (components path).length ≤ maxDirectoryDepth + 1
  entries : (treeEntries (installedPaths bundle)).length ≤ maxVisibleEntries

/-- The content of an installation. -/
def installedContent (bundle : VerifiedBundle) (record : Bytes) : List (BundlePath × Bytes) :=
  bundle.files.map contentOf ++ [(installationRecordPath, record)]

theorem paths_contentOf (bundle : VerifiedBundle) :
    (bundle.files.map contentOf).map (·.1) = bundle.files.map (·.path) := by
  rw [List.map_map]
  rfl

theorem paths_installedContent (bundle : VerifiedBundle) (record : Bytes) :
    (installedContent bundle record).map (·.1) = installedPaths bundle := by
  rw [installedContent, List.map_append, paths_contentOf, installedPaths]
  rfl

theorem installedPaths_nodup (hverified : bundle.IsVerified)
    (hunreserved : (bundle.files.any fun file => isReserved file.path) = false) :
    (installedPaths bundle).Nodup := by
  obtain ⟨manifest, files, hfrom⟩ := exists_verifiedFrom hverified
  rw [installedPaths, List.nodup_append]
  refine ⟨hfrom.paths ▸ manifest.accepted.distinct, List.nodup_singleton _, ?_⟩
  intro path hpath path' hpath' heq
  obtain ⟨file, hfile, rfl⟩ := List.mem_map.mp hpath
  have hreserved : isReserved installationRecordPath = true := by decide +kernel
  rw [List.any_eq_false] at hunreserved
  apply hunreserved file hfile
  rw [heq, List.mem_singleton.mp hpath', hreserved]

/-- A tree without the record has fewer entries. -/
theorem treeEntries_length_le {paths paths' : List BundlePath} (h : ∀ p ∈ paths, p ∈ paths') :
    (treeEntries paths).length ≤ (treeEntries paths').length := by
  have hdistinct : (treeEntries paths).Nodup := List.nodup_dedup _
  apply (List.subperm_of_subset hdistinct _).length_le
  intro path hpath
  rw [Directory.mem_treeEntries] at *
  rcases hpath with ⟨p, hp, heq⟩ | ⟨p, hp, hparent⟩
  · exact .inl ⟨p, h p hp, heq⟩
  · exact .inr ⟨p, h p hp, hparent⟩

/-! ## Staged trees -/

section

variable {files : List (BundlePath × Bytes)} {tree : Tree}

theorem Staged.plain (h : Staged store root files fs) (htree : tree.node = fs.below root) :
    tree.Plain :=
  plain_of_entries htree fun q hq => h.only q (htree ▸ hq)

theorem Staged.exists_tree (h : Staged store root files fs) :
    ∃ tree : Tree, tree.node = fs.below root :=
  Directory.exists_tree h.only

/-- Entries of a staged tree are as far apart as its paths. -/
theorem Staged.apart (h : Staged store root files fs) {paths : List BundlePath}
    (hpaths : ∀ p ∈ files.map (·.1), p ∈ paths)
    (hapart : ∀ p q : BundlePath, components p ∈ treeEntries paths →
      components q ∈ treeEntries paths → logicalKey p = logicalKey q → p = q) (p q : BundlePath)
    (hp : fs.below root (components p) ≠ none) (hq : fs.below root (components q) ≠ none)
    (hkey : logicalKey p = logicalKey q) : p = q := by
  have hentry : ∀ r : BundlePath, fs.below root (components r) ≠ none →
      components r ∈ treeEntries paths := by
    intro r hr
    have hthere := (h.only _ hr).resolve_left (components_ne_nil r)
    rw [Directory.mem_treeEntries] at *
    rcases hthere with ⟨path, hpath, heq⟩ | ⟨path, hpath, hparent⟩
    · exact .inl ⟨path, hpaths path hpath, heq⟩
    · exact .inr ⟨path, hpaths path hpath, hparent⟩
  exact hapart p q (hentry p hp) (hentry q hq) hkey

end

theorem installedExactly_of_staged (hplaceable : Placeable bundle)
    (hrecord : installationRecordBytes bundle publisher = .ok record)
    (h : Staged store root (installedContent bundle record) fs) :
    InstalledExactly store (fs.below root) bundle publisher := by
  have hpaths := paths_installedContent bundle record
  have honly := h.only
  rw [hpaths] at honly
  constructor
  · obtain ⟨n, hn, hprivate⟩ := safeAt_iff.mp h.top
    exact ⟨n, by rw [Fs.below, List.append_nil, hn], hprivate⟩
  · intro path hpath d hd
    rw [← hpaths] at hpath
    obtain ⟨file, hfile, rfl⟩ := List.mem_map.mp hpath
    exact safeAt_iff.mp (h.directory file hfile d hd)
  · intro file hfile
    exact h.file (contentOf file) (List.mem_append_left _ (List.mem_map_of_mem hfile))
  · obtain ⟨n, hn, hprivate, hbytes⟩ :=
      h.file (installationRecordPath, record) (List.mem_append_right _ List.mem_cons_self)
    exact ⟨n, hn, hprivate, hbytes ▸ hrecord⟩
  · exact honly
  · exact h.apart (fun p hp => hpaths ▸ hp) hplaceable.apart
  · intro path hnode
    rcases honly path hnode with rfl | hentry
    · exact Nat.zero_le _
    · rcases Directory.mem_treeEntries.mp hentry with ⟨file, hfile, rfl⟩ | ⟨file, hfile, hparent⟩
      · exact hplaceable.depth file hfile
      · exact Nat.le_trans (Nat.le_of_lt (Directory.length_of_mem_parents hparent))
          (hplaceable.depth file hfile)
  · exact hplaceable.entries

/-- The loader finds the staged files of a bundle. -/
theorem Staged.load_eq_ok (h : Staged store root (bundle.files.map contentOf) fs)
    (hplaceable : Placeable bundle) {manifest : BundleManifest} {candidates : List CandidateFile}
    (hfrom : VerifiedFrom bundle manifest candidates) :
    viewed (fs.below root) (fun tree => loadCandidate tree manifest none) = .ok candidates := by
  obtain ⟨tree, htree⟩ := h.exists_tree
  have hpaths : Directory.declaredPaths manifest none = bundle.files.map (·.path) := by
    rw [Directory.declaredPaths, hfrom.paths]
    exact List.append_nil _
  have hsub : ∀ p ∈ bundle.files.map (·.path), p ∈ installedPaths bundle :=
    fun p hp => List.mem_append_left _ hp
  have hholds := h.holds htree
  rw [paths_contentOf] at hholds
  rw [viewed_load htree, loadCandidate_exact (h.plain htree)]
  constructor
  · exact ⟨_, hpaths ▸ hholds⟩
  · unfold Directory.Apart
    rw [htree]
    exact h.apart (fun p hp => hsub p (paths_contentOf bundle ▸ hp)) hplaceable.apart
  · rw [hpaths]
    exact fun path hpath => hplaceable.depth path (hsub path hpath)
  · rw [hpaths]
    exact Nat.le_trans (treeEntries_length_le hsub) hplaceable.entries
  · intro path maximum hallowed
    cases hallowed
  · exact hfrom.candidates
  · intro file hfile
    obtain ⟨verified, hverified, hpath, hbytes⟩ := hfrom.bytes file hfile
    obtain ⟨n, hn, _, hsame⟩ := h.file (contentOf verified) (List.mem_map_of_mem hverified)
    refine ⟨n, ?_, hsame.trans hbytes⟩
    rw [htree, ← hpath]
    exact hn

/-! ## Staging -/

theorem InstalledExactly.plain (h : InstalledExactly store (fs.below root) bundle publisher)
    (tree : Tree) (htree : tree.node = fs.below root) : tree.Plain :=
  plain_of_entries htree fun q hq => h.only q (htree ▸ hq)

theorem verifyInstallationPermissions_outcome {site : Site}
    (h : InstalledExactly store (fs.below root) bundle publisher) :
    (faultless umask).outcome (verifyInstallationPermissions store site root bundle) fs =
      (.ok (), fs) := by
  apply Prod.ext
  · exact verifyInstallationPermissions_eq_ok.mpr ⟨h.root, fun path hpath => h.pathPrivate hpath⟩
  · exact (reads_verifyInstallationPermissions fs).1

theorem verifyExistingInstallation_outcome (hverified : bundle.IsVerified)
    (h : InstalledExactly store (fs.below root) bundle publisher) :
    (faultless umask).outcome (verifyExistingInstallation store root bundle publisher) fs =
      (.ok (), fs) := by
  apply Prod.ext
  · exact verifyExistingInstallation_eq_ok.mpr (steps_of_plain h.plain hverified h)
  · exact (reads_verifyExistingInstallation fs).1

theorem SafeAt.sync {site : Site} (h : SafeAt store fs root) :
    (faultless umask).outcome (syncDirectory site root) fs = (.ok (), fs) := by
  obtain ⟨n, hn, _⟩ := h
  exact syncDirectory_outcome hn

/-- A call that reads the tree below a root, when the reader accepts it. -/
theorem viewed_outcome {site : Site} {op : Op} {wrap : op.Error → LinuxInstallStoreError}
    {y : Except op.Error op.Value} {v : op.Value} (hop : answer umask fs op = (y, fs))
    (h : y = .ok v) : (faultless umask).outcome (call site op wrap) fs = (.ok v, fs) := by
  rw [h] at hop
  exact call_outcome hop

/-- The files and the record of a placeable bundle are staged in an empty private directory. -/
theorem stageBundle_outcome (hplaceable : Placeable bundle) (hverified : bundle.IsVerified)
    (hunreserved : (bundle.files.any fun file => isReserved file.path) = false)
    (hrecord : installationRecordBytes bundle publisher = .ok record)
    (hroot : SafeAt store fs root) (hempty : ∀ q ≠ [], fs.node (root ++ q) = none) :
    ∃ fs', (faultless umask).outcome (stageBundle store root bundle publisher) fs = (.ok (), fs') ∧
      InstalledExactly store (fs'.below root) bundle publisher ∧ Fs.SameOutside root fs fs' := by
  obtain ⟨manifest, candidates, hfrom⟩ := exists_verifiedFrom hverified
  have hpaths := paths_installedContent bundle record
  have hdistinct : ((installedContent bundle record).map (·.1)).Nodup :=
    hpaths ▸ installedPaths_nodup hverified hunreserved
  have hnested : Unnested ((installedContent bundle record).map (·.1)) :=
    hpaths ▸ hplaceable.unnested
  have hsub : ((bundle.files.map contentOf).map (·.1)).Sublist
      ((installedContent bundle record).map (·.1)) := (List.sublist_append_left _ _).map _
  obtain ⟨fs₁, hfiles, hstaged, hoff⟩ := @Staged.materializeFiles_outcome umask store fs root []
    bundle.files (staged_nil hroot hempty) (hsub.nodup hdistinct)
    fun p hp q hq => hnested p (hsub.subset hp) q (hsub.subset hq)
  obtain ⟨fs₂, hevidence, hcomplete, hoff'⟩ :=
    @Staged.materializeFile_outcome umask store fs₁ root installationRecordPath record _ hstaged
      hdistinct hnested
  have hexact := installedExactly_of_staged hplaceable hrecord hcomplete
  obtain ⟨_, _, record', hsteps⟩ := @steps_of_plain umask _ _ _ _ _ hexact.plain hverified hexact
  obtain rfl : record = record' := Except.ok.inj (hrecord.symm.trans hsteps.record)
  obtain ⟨tree, htree⟩ := hstaged.exists_tree
  obtain ⟨pinned, hopen, _⟩ := (hstaged.holds htree).open_eq_ok
  have hsource : viewed (fs₁.below root) (fun tree => (PinnedRoot.open tree).map fun _ => ()) =
      .ok () := by
    rw [viewed_eq htree fun _ hnodes => by rw [Directory.open_congr hnodes], hopen]
    rfl
  have hload := hstaged.load_eq_ok hplaceable hfrom
  refine ⟨fs₂, ?_, hexact, fun q hq => (hoff' q hq).trans (hoff q hq)⟩
  rw [stageBundle, bind_of_ok (verifyPrivateDirectory_outcome hroot), bind_of_ok hfiles,
    bind_of_ok hstaged.top.sync, hfrom.reconstructed, bind_of_ok outcome_ofExcept,
    bind_of_ok (viewed_outcome rfl hsource), bind_of_ok (viewed_outcome rfl hload), hfrom.loaded,
    bind_of_ok outcome_ofExcept, hrecord, bind_of_ok outcome_ofExcept, bind_of_ok hevidence,
    bind_of_ok (viewed_outcome rfl hsteps.read)]
  rw [bind_of_ok (a := ()) (by rw [outcome_throwIf, if_neg (by simp)]),
    bind_of_ok (verifyInstallationPermissions_outcome hexact)]
  exact hcomplete.top.sync

/-! ## The quarantine directory -/

theorem not_prefix_of_short {p q : Path} (h : q.length < p.length) : ¬ p <+: q :=
  fun hprefix => Nat.not_le.mpr h hprefix.length_le

/-- A quarantine directory is empty, private and new. -/
structure Quarantine (store : LinuxInstallStore) (root : Path) (fs fs' : Fs) : Prop where
  absent : fs.node root = none
  safe : SafeAt store fs' root
  made : ∃ n, fs'.node = Function.update fs.node root (some n)

theorem Quarantine.empty (h : Quarantine store root fs fs') (q : Path) (hq : q ≠ []) :
    fs'.node (root ++ q) = none := by
  obtain ⟨n, hn⟩ := h.made
  have hne : root ++ q ≠ root := by simpa using hq
  rw [hn, Function.update_of_ne hne]
  exact fs.absent_below h.absent q

theorem Quarantine.sameOutside (h : Quarantine store root fs fs') : Fs.SameOutside root fs fs' := by
  obtain ⟨n, hn⟩ := h.made
  exact Fs.sameOutside_update hn

theorem tryStaging_outcome {subject : Sha256Digest} {attempts : List Nat}
    (hstaging : SafeAt store fs stagingDirectory)
    (hfree : ∃ attempt ∈ attempts, fs.node (stagingPath subject attempt) = none) :
    ∃ attempt fs', (faultless umask).outcome (tryStaging store subject attempts) fs =
        (.ok (stagingPath subject attempt), fs') ∧
      Quarantine store (stagingPath subject attempt) fs fs' := by
  induction attempts with
  | nil => simp at hfree
  | cons attempt attempts ih =>
      by_cases hthere : fs.node (stagingPath subject attempt) = none
      · obtain ⟨d, hd, hnode, hprivate⟩ := @hstaging.parentDirectory _ _ _
          (subject.text ++ "." ++ toString attempt)
        obtain ⟨fs₁, hcreate, hnode₁⟩ := @Fs.createNode_absent fs (stagingPath subject attempt) d
          .directory 2 (privateDirectoryMode.ldiff umask) hthere hd
        have hreply : (faultless umask).outcome (request .staging
            (.createDir (stagingPath subject attempt) privateDirectoryMode)) fs =
              (.ok (.ok ()), fs₁) := by
          apply request_outcome
          show changed fs (fs.createNode (stagingPath subject attempt) .directory 2
            (privateDirectoryMode.ldiff umask)) = _
          rw [hcreate]
          rfl
        have hthere₁ : fs₁.node (stagingPath subject attempt) = some ⟨⟨.directory,
            d.metadata.device, fs.nextInode, 2, privateDirectoryMode.ldiff umask⟩, []⟩ := by
          rw [hnode₁, Function.update_self]
        obtain ⟨fs₂, hmode, hnode₂⟩ := @Fs.setMode_some fs₁ _ _ privateDirectoryMode hthere₁
        have hprotected : answer umask fs₁
            (.setPermissions (stagingPath subject attempt) privateDirectoryMode) =
              (.ok (), fs₂) := by
          show changed fs₁ (fs₁.setMode (stagingPath subject attempt) privateDirectoryMode) = _
          rw [hmode]
          rfl
        rw [hnode₁, Function.update_idem] at hnode₂
        have hsafe : SafeAt store fs₂ (stagingPath subject attempt) := by
          refine ⟨_, by rw [hnode₂, Function.update_self], ?_⟩
          simp [safePrivateDirectory, hprivate.device, privateDirectoryMode]
        have hquarantine : Quarantine store (stagingPath subject attempt) fs fs₂ :=
          ⟨hthere, hsafe, _, hnode₂⟩
        have hstill : SafeAt store fs₂ stagingDirectory :=
          hstaging.congr (hquarantine.sameOutside _
            (not_prefix_of_short (stagingPath_length subject attempt).ge))
        refine ⟨attempt, fs₂, ?_, hquarantine⟩
        rw [tryStaging, bind_of_ok hreply]
        show (faultless umask).outcome (call .stagingCheck
          (.setPermissions (stagingPath subject attempt) privateDirectoryMode) _ >>= _) fs₁ = _
        rw [bind_of_ok (call_outcome hprotected), bind_of_ok (verifyPrivateDirectory_outcome hsafe),
          bind_of_ok hstill.sync]
        rfl
      · have hreply : (faultless umask).outcome (request .staging
            (.createDir (stagingPath subject attempt) privateDirectoryMode)) fs =
              (.ok (.error .alreadyExists), fs) := by
          apply request_outcome
          show changed fs (fs.createNode (stagingPath subject attempt) .directory 2
            (privateDirectoryMode.ldiff umask)) = _
          rw [Fs.createNode_exists hthere]
          rfl
        have hrest : ∃ attempt ∈ attempts, fs.node (stagingPath subject attempt) = none := by
          obtain ⟨other, hmem, hnone⟩ := hfree
          rcases List.mem_cons.mp hmem with rfl | hmem
          · exact absurd hnone hthere
          · exact ⟨other, hmem, hnone⟩
        rw [tryStaging, bind_of_ok hreply]
        exact ih hrest

/-- One of the names for a quarantine directory is free. -/
def HasFreeAttempt (subject : Sha256Digest) (fs : Fs) : Prop :=
  ∃ attempt < maxStagingAttempts, fs.node (stagingPath subject attempt) = none

theorem createStaging_outcome {subject : Sha256Digest} (hprepared : Prepared store fs)
    (hfree : HasFreeAttempt subject fs) :
    ∃ attempt fs', (faultless umask).outcome (createStaging store subject) fs =
        (.ok (stagingPath subject attempt), fs') ∧
      Quarantine store (stagingPath subject attempt) fs fs' := by
  have hsafe : SafeAt store fs stagingDirectory :=
    hprepared.internal _ (by simp [internalDirectories])
  obtain ⟨attempt, hattempt, hnone⟩ := hfree
  rw [createStaging, bind_of_ok (ensurePrivateDirectory_safe hsafe)]
  exact tryStaging_outcome hsafe ⟨attempt, List.mem_range.mpr hattempt, hnone⟩

/-! ## Promotion -/

theorem stagingPath_apart (subject subject' : Sha256Digest) (attempt : Nat) (rest : Path) :
    ¬ stagingPath subject attempt <+: subjectRoot subject' ++ rest := by
  intro hprefix
  have hhead := head_of_stagingPath hprefix
  rw [head_of_subjectRoot (List.prefix_append _ rest)] at hhead
  simp at hhead

/-- A complete quarantine directory becomes the root of the subject. -/
theorem promote_outcome {attempt : Nat} (hprepared : Prepared store fs)
    (hverified : bundle.IsVerified) (habsent : fs.node (subjectRoot bundle.subject) = none)
    (hexact : InstalledExactly store (fs.below (stagingPath bundle.subject attempt)) bundle
      publisher) :
    ∃ fs', (faultless umask).outcome
        (promote store (stagingPath bundle.subject attempt) bundle publisher) fs =
          (.ok (receipt bundle (subjectRoot bundle.subject) false), fs') ∧
      InstalledExactly store (fs'.below (subjectRoot bundle.subject)) bundle publisher ∧
        ∀ q, ¬ subjectRoot bundle.subject <+: q →
          fs'.node q = if stagingPath bundle.subject attempt <+: q then none else fs.node q := by
  have hinstalled : SafeAt store fs installedDirectory :=
    hprepared.internal _ (by simp [internalDirectories])
  have hapart : ¬ stagingPath bundle.subject attempt <+: subjectRoot bundle.subject := by
    have happend := stagingPath_apart bundle.subject bundle.subject attempt []
    rwa [List.append_nil] at happend
  have hmove : fs.CanMove (stagingPath bundle.subject attempt) (subjectRoot bundle.subject) := by
    obtain ⟨d, hd, _⟩ := @hinstalled.parentDirectory _ _ _ bundle.subject.text
    obtain ⟨n, hn, hprivate⟩ := hexact.root
    rw [Fs.below, List.append_nil] at hn
    exact ⟨⟨n, hn, hprivate.kind⟩, Option.ne_none_iff_exists'.mpr ⟨d, hd⟩, hapart, .inl habsent⟩
  have hrename : (faultless umask).outcome (request .target
      (.rename (stagingPath bundle.subject attempt) (subjectRoot bundle.subject))) fs =
        (.ok (.ok ()), fs.moveTree _ _ hmove.parent hmove.apart) := by
    apply request_outcome
    show changed fs (moved fs _ _) = _
    rw [moved, dif_pos hmove]
    rfl
  have hbelow := Fs.below_moveTree fs hmove.parent hmove.apart
  have hmoved : InstalledExactly store
      ((fs.moveTree _ _ hmove.parent hmove.apart).below (subjectRoot bundle.subject)) bundle
        publisher := hbelow ▸ hexact
  have hstill : SafeAt store (fs.moveTree _ _ hmove.parent hmove.apart) installedDirectory :=
    hinstalled.congr (Fs.moveTree_outside fs hmove.parent hmove.apart
      (not_prefix_of_short (stagingPath_length bundle.subject attempt).ge)
      (not_prefix_of_short (show 2 ≤ (subjectRoot bundle.subject).length from Nat.le_refl 2)))
  refine ⟨fs.moveTree _ _ hmove.parent hmove.apart, ?_, hmoved, ?_⟩
  · rw [promote, bind_of_ok (ensureStoreRoot_kept hprepared.root),
      bind_of_ok (ensurePrivateDirectory_safe hinstalled), bind_of_ok hrename]
    show (faultless umask).outcome (syncDirectory .target installedDirectory >>= _) _ = _
    rw [bind_of_ok hstill.sync, bind_of_ok (verifyExistingInstallation_outcome hverified hmoved)]
    rfl
  · intro q hq
    split
    · next hstaged => exact Fs.moveTree_source fs hmove.parent hmove.apart hstaged hq
    · next hother => exact Fs.moveTree_outside fs hmove.parent hmove.apart hother hq

/-! ## Under the lock -/

theorem pathExistsNoFollow_absent {p : Path} {d : Node} (hparent : fs.parentDirectory p = some d)
    (habsent : fs.node p = none) :
    (faultless umask).outcome (pathExistsNoFollow p) fs = (.ok false, fs) := by
  have hlook : (faultless umask).outcome (request .target (.symlinkMetadata p)) fs =
      (.ok (.error .notFound), fs) := by
    apply request_outcome
    show (fs.symlinkMetadata p, fs) = _
    rw [Fs.symlinkMetadata, habsent, absentError_of_parent hparent habsent]
  rw [pathExistsNoFollow, bind_of_ok hlook]
  rfl

/-- The installation of this bundle is at the root of its subject, and nothing else has changed. -/
structure Placed (store : LinuxInstallStore) (bundle : VerifiedBundle)
    (publisher : Option AuthorizedPublisher) (fs fs' : Fs) : Prop where
  installed : InstalledExactly store (fs'.below (subjectRoot bundle.subject)) bundle publisher
  outside : Fs.SameOutside (subjectRoot bundle.subject) fs fs'

theorem installLocked_outcome (hprepared : Prepared store fs) (hplaceable : Placeable bundle)
    (hverified : bundle.IsVerified)
    (hunreserved : (bundle.files.any fun file => isReserved file.path) = false)
    (hrecord : installationRecordBytes bundle publisher = .ok record)
    (habsent : fs.node (subjectRoot bundle.subject) = none)
    (hfree : HasFreeAttempt bundle.subject fs) :
    ∃ fs', (faultless umask).outcome (installLocked store bundle publisher) fs =
        (.ok (receipt bundle (subjectRoot bundle.subject) false), fs') ∧
      Placed store bundle publisher fs fs' := by
  have hinstalled : SafeAt store fs installedDirectory :=
    hprepared.internal _ (by simp [internalDirectories])
  obtain ⟨d, hd, _⟩ := @hinstalled.parentDirectory _ _ _ bundle.subject.text
  obtain ⟨attempt, fs₁, hstaging, hquarantine⟩ := @createStaging_outcome umask _ _ _ hprepared hfree
  obtain ⟨fs₂, hstage, hexact, hoff⟩ := @stageBundle_outcome umask store bundle publisher fs₁ _
    record hplaceable hverified hunreserved hrecord hquarantine.safe hquarantine.empty
  have hsame : Fs.SameOutside (stagingPath bundle.subject attempt) fs fs₂ :=
    fun q hq => (hoff q hq).trans (hquarantine.sameOutside q hq)
  have hprepared₂ : Prepared store fs₂ :=
    hprepared.congr fun q hq => hsame q (not_prefix_of_short hq)
  have hroot := stagingPath_apart bundle.subject bundle.subject attempt []
  rw [List.append_nil] at hroot
  obtain ⟨fs₃, hpromote, hplaced, hframe⟩ := @promote_outcome umask store bundle publisher fs₂
    attempt hprepared₂ hverified ((hsame _ hroot).trans habsent) hexact
  have hwork : (faultless umask).outcome
      (stageAndPromote store (stagingPath bundle.subject attempt) bundle publisher) fs₁ =
        (.ok (receipt bundle (subjectRoot bundle.subject) false), fs₃) := by
    rw [stageAndPromote, bind_of_ok hstage, hpromote]
  refine ⟨fs₃, ?_, hplaced, ?_⟩
  · have hlook : (faultless umask).outcome (pathExistsNoFollow (subjectRoot bundle.subject)) fs =
        (.ok false, fs) := pathExistsNoFollow_absent hd habsent
    rw [installLocked, bind_of_ok hlook]
    show (faultless umask).outcome (createStaging store bundle.subject >>= _) fs = _
    rw [bind_of_ok hstaging, onError_of_ok hwork]
  · intro q hq
    rw [hframe q hq]
    split
    · next hstaged =>
        obtain ⟨rest, rfl⟩ := hstaged
        exact (fs.absent_below hquarantine.absent rest).symm
    · next hother => exact hsame q hother

/-! ## A whole installation -/

/-- Releasing the lock undoes what taking it did. -/
theorem LockedFrom.sameOutside {subject : Sha256Digest} {fs'' : Fs}
    (h : LockedFrom subject fs fs') (hsame : Fs.SameOutside (subjectRoot subject) fs' fs'') :
    Fs.SameOutside (subjectRoot subject) fs (fs''.removeTree (lockPath subject)) := by
  intro q hq
  rw [← h.released]
  by_cases hlock : lockPath subject <+: q
  · rw [Fs.removeTree_below fs'' hlock, Fs.removeTree_below fs' hlock]
  · rw [Fs.sameOutside_removeTree fs'' _ q hlock, Fs.sameOutside_removeTree fs' _ q hlock]
    exact hsame q hq

theorem HasFreeAttempt.congr {subject : Sha256Digest} (h : HasFreeAttempt subject fs)
    (hsame : ∀ attempt, fs'.node (stagingPath subject attempt) =
      fs.node (stagingPath subject attempt)) : HasFreeAttempt subject fs' := by
  obtain ⟨attempt, hattempt, hnone⟩ := h
  exact ⟨attempt, hattempt, (hsame attempt).trans hnone⟩

theorem install_places (hready : Ready store fs) (hadmitted : Admitted umask bundle publisher)
    (hverified : bundle.IsVerified) (hplaceable : Placeable bundle)
    (habsent : fs.node (subjectRoot bundle.subject) = none)
    (hfree : HasFreeAttempt bundle.subject fs) :
    ∃ fs', install umask store bundle publisher fs =
        (.ok (receipt bundle (subjectRoot bundle.subject) false), fs') ∧
      Placed store bundle publisher fs fs' := by
  obtain ⟨record, hrecord, _⟩ := exists_record hverified hadmitted.matching
  obtain ⟨fs₁, result, fs₂, hlocked, _, hwork, hinstall⟩ :=
    @install_admitted umask store bundle publisher fs hready hadmitted
  obtain ⟨n, _, hnode⟩ := hlocked.lock
  have hsame : ∀ q : Path, q.head? ≠ some ".locks" → fs₁.node q = fs.node q := by
    intro q hq
    have hne : q ≠ lockPath bundle.subject := by
      intro heq
      exact hq (heq ▸ rfl)
    rw [hnode, Function.update_of_ne hne]
  obtain ⟨fs₃, houtcome, hplaced⟩ := @installLocked_outcome umask store bundle publisher fs₁ record
    (hlocked.prepared hready.toPrepared) hplaceable hverified hadmitted.unreserved hrecord
    ((hsame _ (by simp [subjectRoot, installedDirectory])).trans habsent)
    (hfree.congr fun attempt => hsame _ (by simp [stagingPath, stagingDirectory]))
  rw [houtcome, Prod.mk.injEq] at hwork
  obtain ⟨rfl, rfl⟩ := hwork
  refine ⟨_, hinstall, ?_, hlocked.sameOutside hplaced.outside⟩
  rw [below_unlocked]
  exact hplaced.installed

/-! ## What an installation of an absent subject leaves -/

/-- What the only installation at work keeps where its subject had no root: the root is there
only after the promotion, and is then the installed tree. -/
structure First (bundle : VerifiedBundle) (publisher : Option AuthorizedPublisher) (fs : Fs)
    (p : Progress) : Prop where
  stage : p.stage.Valid bundle fs
  absent : p.promoted = false → fs.node (subjectRoot bundle.subject) = none
  installed : p.promoted = true → (⟨bundle, publisher⟩ : Request).InstalledIn fs

theorem First.move {reliable : Prop} {p p' : Progress} (h : First bundle publisher fs p)
    (hmove : Moves bundle publisher reliable fs p fs' p') : First bundle publisher fs' p' := by
  have hkept : p'.promoted = p.promoted → ∀ rest,
      fs'.node (subjectRoot bundle.subject ++ rest) =
        fs.node (subjectRoot bundle.subject ++ rest) := by
    intro hsame rest
    exact hmove.frame_target (Nat.le_add_left 2 rest.length) rfl (.inl hsame)
  refine ⟨hmove.valid h.stage, ?_, ?_⟩
  · intro hpromoted
    have hold : p.promoted = false := by
      by_contra hne
      have hnew := hmove.promoted_mono (Bool.eq_true_of_not_eq_false hne)
      rw [hpromoted] at hnew
      cases hnew
    have hroot := hkept (hpromoted.trans hold.symm) []
    rw [List.append_nil] at hroot
    exact hroot.trans (h.absent hold)
  · intro hpromoted
    cases hold : p.promoted with
    | true => exact (h.installed hold).congr (hkept (hpromoted.trans hold.symm))
    | false =>
        cases hmove with
        | promote attempt hheld hstage hnot hcomplete hcan =>
            have hholds := h.stage.holds
            rw [hstage] at hholds
            refine ⟨_, hcomplete, ?_⟩
            show Filled _ (Fs.below (Fs.moveTree _ _ _ _ _) (subjectRoot bundle.subject)) none _
            rw [Fs.below_moveTree]
            exact hholds
        | _ => cases hold.symm.trans hpromoted

/-- With whatever faults, a root that is there in the end is the installed tree. -/
theorem installedIn_of_executes {reliable : Prop} {trace : List (Event Call Reply)}
    {result : Except LinuxInstallStoreError InstalledBundle}
    (habsent : fs.node (subjectRoot bundle.subject) = none)
    (hrun : Executes (Performs reliable) fs (installBundleWithPublisher store bundle publisher).run
      trace result fs') (hthere : fs'.node (subjectRoot bundle.subject) ≠ none) :
    (⟨bundle, publisher⟩ : Request).InstalledIn fs' := by
  have hstart : First bundle publisher fs Phase.start.toProgress :=
    ⟨Stage.Valid.none bundle fs, fun _ => habsent, fun h => nomatch h⟩
  have hmeets : (installProtocol store bundle publisher).Meets (Phase.Received bundle publisher)
      Phase.Balanced Phase.start (installBundleWithPublisher store bundle publisher) :=
    meets_installBundleWithPublisher
  have hstep : ∀ (s : Fs) (g : Phase) (c : Call) (r : Reply c) (s' : Fs),
      First bundle publisher s g.toProgress → (installProtocol store bundle publisher).allowed g c →
        Performs reliable s c r s' → First bundle publisher s'
          ((installProtocol store bundle publisher).advance g c r).toProgress :=
    fun _ _ _ _ _ h hallowed hperforms => h.move (moves_of_performs hallowed hperforms)
  have hfirst := (hrun.obeys hstep hstart hmeets.obeys).1
  apply hfirst.installed
  by_contra hnot
  exact hthere (hfirst.absent (Bool.eq_false_of_not_eq_true hnot))

section

variable {nodes : Path → Option Node} {files : List (Path × Bytes)}

theorem filled_entry (hfiles : installedFiles bundle publisher = .ok files)
    (h : Filled (IsContentDirectory bundle) nodes none files) {path : Path}
    (hnode : nodes path ≠ none) : path = [] ∨ path ∈ treeEntries (installedPaths bundle) := by
  obtain ⟨n, hn⟩ := Option.ne_none_iff_exists'.mp hnode
  rw [Directory.mem_treeEntries]
  rcases h.only path n hn with ⟨_, directory, hmem, hprefix, hproper⟩ | ⟨_, hopened | hwritten⟩
  · by_cases hnil : path = []
    · exact .inl hnil
    · exact .inr (.inr ⟨directory, hmem, Directory.mem_parents.mpr ⟨hnil, hprefix, hproper⟩⟩)
  · cases hopened
  · obtain ⟨bytes, hmem⟩ := hwritten
    right; left
    simp only [installedFiles, bind_eq_ok, pure, Except.pure, Except.ok.injEq] at hfiles
    obtain ⟨record, _, rfl⟩ := hfiles
    rcases List.mem_append.mp hmem with hmem | hmem
    · obtain ⟨file, hfile, heq⟩ := List.mem_map.mp hmem
      cases heq
      exact ⟨file.path, List.mem_append_left _ (List.mem_map_of_mem hfile), rfl⟩
    · cases List.mem_singleton.mp hmem
      exact ⟨_, List.mem_append_right _ List.mem_cons_self, rfl⟩

end

/-- A tree that was written and then accepted by the loader belongs to a placeable bundle. -/
theorem placeable_of_verified (hverified : bundle.IsVerified)
    (h : Verified umask store bundle publisher fs)
    (hinstalled : (⟨bundle, publisher⟩ : Request).InstalledIn fs) : Placeable bundle := by
  obtain ⟨files, hfiles, hfilled⟩ := hinstalled
  have hcontent : Filled (IsContentDirectory bundle) (fs.below (subjectRoot bundle.subject)) none
      files := hfilled
  obtain ⟨manifest, candidates, hfrom⟩ := exists_verifiedFrom hverified
  obtain ⟨manifest', candidates', record, hsteps⟩ :=
    verifyExistingInstallation_eq_ok.mp (congrArg Prod.fst h.outcome)
  obtain rfl : manifest = manifest' :=
    Except.ok.inj (hfrom.reconstructed.symm.trans hsteps.declared)
  obtain ⟨tree, htree, hload⟩ := viewed_eq_ok hsteps.load
  have hplain : tree.Plain :=
    plain_of_entries htree fun q hq => filled_entry hfiles hcontent (htree ▸ hq)
  have hloads := (loadCandidate_exact hplain).mp hload
  obtain ⟨device, hholds⟩ := hloads.holds
  have hdepth := hloads.depth
  have hentries := hloads.entries
  rw [hfrom.installedPaths] at hholds hdepth hentries
  have hthere : ∀ p : BundlePath, components p ∈ treeEntries (installedPaths bundle) →
      tree.node (components p) ≠ none := by
    intro p hp hnone
    rcases Directory.mem_treeEntries.mp hp with ⟨path, hpath, heq⟩ | ⟨path, hpath, hparent⟩
    · obtain ⟨n, hn, _⟩ := hholds.file path hpath
      rw [heq, hn] at hnone
      cases hnone
    · obtain ⟨n, hn, _⟩ := hholds.directory path hpath _ hparent
      rw [hn] at hnone
      cases hnone
  refine ⟨?_, fun p q hp hq hkey => hloads.apart p q (hthere p hp) (hthere q hq) hkey, hdepth,
    hentries⟩
  intro p hp q hq hparent
  obtain ⟨n, hn, hfile, _⟩ := hholds.file p hp
  obtain ⟨n', hn', hdirectory, _⟩ := hholds.directory q hq _ hparent
  rw [hn] at hn'
  cases hn'
  rw [hfile] at hdirectory
  cases hdirectory

/-! ## The first installation and the next -/

/-- The bundle is at the root of its subject, nothing but the internal directories has changed
elsewhere, and the same request is now answered from there. -/
structure Established (umask : Nat) (store : LinuxInstallStore) (bundle : VerifiedBundle)
    (publisher : Option AuthorizedPublisher) (fs : Fs) (installed : InstalledBundle) (fs' : Fs) :
    Prop where
  receipt : installed = receipt bundle (subjectRoot bundle.subject) false
  exact : InstalledExactly store (fs'.below (subjectRoot bundle.subject)) bundle publisher
  frame : ∀ q, q ∉ internalDirectories → ¬ subjectRoot bundle.subject <+: q →
    fs'.node q = fs.node q
  again : ∃ fs'', install umask store bundle publisher fs' =
    (.ok (Install.receipt bundle (subjectRoot bundle.subject) true), fs'') ∧ fs''.node = fs'.node

theorem InstalledExactly.there {subject : Sha256Digest}
    (h : InstalledExactly store (fs.below (subjectRoot subject)) bundle publisher) :
    fs.node (subjectRoot subject) ≠ none := by
  obtain ⟨n, hn, _⟩ := h.root
  rw [Fs.below, List.append_nil] at hn
  simp [hn]

theorem install_again (hready : Ready store fs) (hadmitted : Admitted umask bundle publisher)
    (hverified : bundle.IsVerified)
    (h : InstalledExactly store (fs.below (subjectRoot bundle.subject)) bundle publisher) :
    ∃ fs', install umask store bundle publisher fs =
      (.ok (receipt bundle (subjectRoot bundle.subject) true), fs') ∧ fs'.node = fs.node := by
  obtain ⟨hsame, hreceipt⟩ := @install_there umask store bundle publisher fs hready h.there
  exact ⟨_, Prod.ext ((hreceipt _).mpr ⟨hadmitted,
    congrArg Prod.fst (verifyExistingInstallation_outcome hverified h), rfl⟩) rfl, hsame⟩

/-- A bundle that has a place is installed into an idle store without its subject. -/
theorem install_of_placeable (hidle : Idle store fs) (hroot : RootKept store fs)
    (hadmitted : Admitted umask bundle publisher) (hverified : bundle.IsVerified)
    (habsent : fs.node (subjectRoot bundle.subject) = none)
    (hfree : HasFreeAttempt bundle.subject fs) (hplaceable : Placeable bundle) :
    ∃ installed fs', install umask store bundle publisher fs = (.ok installed, fs') ∧
      Established umask store bundle publisher fs installed fs' := by
  obtain ⟨fs₀, hready, hsame, hinstall⟩ :=
    @install_idle umask store bundle publisher fs hidle hroot hadmitted.matching
  rw [← install_ready hready hadmitted.matching] at hinstall
  have habsent₀ : fs₀.node (subjectRoot bundle.subject) = none :=
    (hsame (subjectRoot bundle.subject) (not_internal_of_long (Nat.le_refl 2))).trans habsent
  have hfree₀ : HasFreeAttempt bundle.subject fs₀ :=
    hfree.congr fun attempt => hsame _ (not_internal_of_long (stagingPath_length _ attempt).ge)
  obtain ⟨fs₁, hplaces, hplaced⟩ :=
    install_places hready hadmitted hverified hplaceable habsent₀ hfree₀
  have h := hinstall.trans hplaces
  obtain ⟨hready', _, _⟩ := install_verified hidle h
  refine ⟨_, fs₁, h, rfl, hplaced.installed, ?_,
    install_again hready' hadmitted hverified hplaced.installed⟩
  intro q hinternal hq
  rw [hplaced.outside q hq, hsame q hinternal]

/-- The first installation of a subject succeeds exactly for placeable bundles, and establishes
them. -/
theorem install_first (umask : Nat) (store : LinuxInstallStore) (bundle : VerifiedBundle)
    (publisher : Option AuthorizedPublisher) (fs : Fs) (hidle : Idle store fs)
    (hroot : RootKept store fs) (hadmitted : Admitted umask bundle publisher)
    (hverified : bundle.IsVerified) (habsent : fs.node (subjectRoot bundle.subject) = none)
    (hfree : HasFreeAttempt bundle.subject fs) :
    ((∃ installed fs', install umask store bundle publisher fs = (.ok installed, fs')) ↔
      Placeable bundle) ∧
    ∀ installed fs', install umask store bundle publisher fs = (.ok installed, fs') →
      Established umask store bundle publisher fs installed fs' := by
  have hplaceable : ∀ installed fs', install umask store bundle publisher fs =
      (.ok installed, fs') → Placeable bundle := by
    intro installed fs' h
    obtain ⟨_, _, hend⟩ := install_verified hidle h
    obtain ⟨trace, hrun⟩ := achieves_of_outcome (performs_faultless umask) h
    exact placeable_of_verified hverified hend (installedIn_of_executes habsent hrun hend.there)
  constructor
  · constructor
    · intro h
      obtain ⟨installed, fs', h⟩ := h
      exact hplaceable installed fs' h
    · intro h
      obtain ⟨installed, fs', hinstall, _⟩ :=
        install_of_placeable hidle hroot hadmitted hverified habsent hfree h
      exact ⟨installed, fs', hinstall⟩
  · intro installed fs' h
    obtain ⟨installed', fs₁, hinstall, hestablished⟩ := install_of_placeable hidle hroot hadmitted
      hverified habsent hfree (hplaceable installed fs' h)
    rw [hinstall, Prod.mk.injEq] at h
    obtain ⟨hreceipt, rfl⟩ := h
    cases hreceipt
    exact hestablished

theorem subject_plain (subject : Sha256Digest) : '/' ∉ subject.text.toList := by
  intro hslash
  have hvalid := subject.valid
  simp only [Digest.validSha256, Bool.and_eq_true, beq_iff_eq, List.all_eq_true] at hvalid
  have hbyte : (47 : UInt8) ∈ Text.bytes subject.text := by
    simp only [Text.bytes, Text.utf8, List.mem_flatMap]
    exact ⟨'/', hslash, by decide⟩
  exact absurd (hvalid.2 _ hbyte) (by decide)

theorem internal_plain {path : Path} {name : String} (h : path ++ [name] ∈ internalDirectories) :
    '/' ∉ name.toList := by
  have hnil : path = [] := by
    have hlength := internal_length h
    rw [List.length_append, List.length_singleton] at hlength
    exact List.length_eq_zero_iff.mp (by omega)
  rw [hnil, List.nil_append] at h
  have hdirectory : name = ".staging" ∨ name = ".locks" ∨ name = "sha256" := by
    simpa [internalDirectories, stagingDirectory, locksDirectory, installedDirectory] using h
  rcases hdirectory with rfl | rfl | rfl <;> decide

theorem Established.plainNames {installed : InstalledBundle}
    (h : Established umask store bundle publisher fs installed fs') (hnames : PlainNames fs) :
    PlainNames fs' := by
  intro path name hnode
  by_cases hinternal : path ++ [name] ∈ internalDirectories
  · exact internal_plain hinternal
  · by_cases hroot : subjectRoot bundle.subject <+: path ++ [name]
    · obtain ⟨rest, hrest⟩ := hroot
      rcases List.eq_nil_or_concat rest with rfl | ⟨front, last, rfl⟩
      · rw [List.append_nil, subjectRoot] at hrest
        obtain ⟨_, hname⟩ := List.append_inj' hrest rfl
        rw [← (List.singleton_inj.mp hname)]
        exact subject_plain bundle.subject
      · rw [List.concat_eq_append, ← List.append_assoc] at hrest
        obtain ⟨hfront, hname⟩ := List.append_inj' hrest rfl
        rw [← hfront, ← hname, List.append_assoc] at hnode
        rw [← (List.singleton_inj.mp hname)]
        rcases h.exact.only _ hnode with hnil | hentry
        · simp at hnil
        · exact plain_of_mem_treeEntries hentry
    · rw [h.frame _ hinternal hroot] at hnode
      exact hnames path name hnode

/-- A bundle of one short path has a place. -/
theorem placeable_samplePath (h : bundle.files.map (·.path) = [samplePath]) : Placeable bundle := by
  have hpaths : installedPaths bundle = [samplePath, installationRecordPath] := by
    rw [installedPaths, h]
    rfl
  have hparents : parents samplePath = [] ∧ parents installationRecordPath = [] := by
    decide +kernel
  have hnone : ∀ path ∈ [samplePath, installationRecordPath], parents path = [] := by
    intro path hpath
    rcases List.mem_pair.mp hpath with rfl | rfl
    · exact hparents.1
    · exact hparents.2
  have hentry : ∀ p : BundlePath, components p ∈ treeEntries [samplePath, installationRecordPath] →
      p ∈ [samplePath, installationRecordPath] := by
    intro p hp
    rcases Directory.mem_treeEntries.mp hp with ⟨path, hpath, heq⟩ | ⟨path, hpath, hparent⟩
    · exact Directory.components_injective heq ▸ hpath
    · rw [hnone path hpath] at hparent
      cases hparent
  have hdiffer : logicalKey samplePath ≠ logicalKey installationRecordPath := by decide
  constructor
  · intro p _ q hq hparent
    rw [hnone q (hpaths ▸ hq)] at hparent
    cases hparent
  · intro p q hp hq hkey
    rw [hpaths] at hp hq
    rcases List.mem_pair.mp (hentry p hp) with rfl | rfl
    · rcases List.mem_pair.mp (hentry q hq) with rfl | rfl
      · rfl
      · exact absurd hkey hdiffer
    · rcases List.mem_pair.mp (hentry q hq) with rfl | rfl
      · exact absurd hkey.symm hdiffer
      · rfl
  · rw [hpaths]
    decide
  · rw [hpaths]
    decide

theorem emptyStoreFs_absent {p : Path} (hp : p ≠ []) : emptyStoreFs.node p = none := if_neg hp

theorem emptyStoreFs_idle : Idle sampleStore emptyStoreFs := by
  constructor
  · intro directory hdirectory
    left
    apply emptyStoreFs_absent
    intro hnil
    have hlength := internal_length hdirectory
    rw [hnil] at hlength
    cases hlength
  · intro subject
    exact emptyStoreFs_absent (List.cons_ne_nil _ _)

theorem emptyStoreFs_root : RootKept sampleStore emptyStoreFs := ⟨_, rfl, rfl, rfl, rfl, by decide⟩

theorem emptyStoreFs_free (subject : Sha256Digest) : HasFreeAttempt subject emptyStoreFs :=
  ⟨0, by decide, emptyStoreFs_absent (List.cons_ne_nil _ _)⟩

theorem install_first_sample : ∃ installed fs',
    install 0o022 sampleStore sampleBundle none emptyStoreFs = (.ok installed, fs') :=
  (install_first 0o022 sampleStore sampleBundle none emptyStoreFs emptyStoreFs_idle
    emptyStoreFs_root ⟨rfl, by decide +kernel, by decide +kernel⟩
    ⟨_, _, _, _, verifyCandidate_sample⟩ (emptyStoreFs_absent (List.cons_ne_nil _ _))
    (emptyStoreFs_free _)).1.mpr (placeable_samplePath rfl)

/-! ## Three runs of one request -/

/-- An installation that succeeds alone is a run while the others wait. -/
theorem reaches_of_install {ι : Type} [DecidableEq ι] {σ : Installations ι} {i : ι}
    {installed : InstalledBundle} (h : install umask store bundle publisher fs = (.ok installed, fs'))
    (hstate : σ.state = fs)
    (hthread : σ.thread i = .running (Request.program store ⟨bundle, publisher⟩)) :
    ∃ σ', Reaches (Performs False) σ σ' ∧ σ'.state = fs' ∧
      σ'.thread i = .running (.done (.ok installed)) ∧ ∀ j, j ≠ i → σ'.thread j = σ.thread j := by
  obtain ⟨trace, hrun⟩ := achieves_of_outcome (performs_faultless umask) h
  have hgoes := (hrun.mono fun _ _ _ _ hcall => hcall.unreliable).goes (t := [])
  obtain ⟨σ', hreaches, hstate', hthread', hothers⟩ := hgoes.reaches hstate hthread
  exact ⟨σ', hreaches, hstate', hthread', fun j hj => (hothers j hj).1⟩

def sampleRequests (_ : Fin 3) : Request := ⟨sampleBundle, none⟩

/-- One of three runs has placed the tree, the next has found it there, the last has crashed. -/
theorem concurrentInstalls_concordant_sample :
    ∃ (σ : Installations (Fin 3)) (installed installed' : InstalledBundle),
      σ.thread 0 = .running (.done (.ok installed)) ∧ installed.reused = false ∧
        σ.thread 1 = .running (.done (.ok installed')) ∧ installed'.reused = true ∧
          σ.thread 2 = .crashed ∧ Concordant sampleRequests σ ∧
            ∀ σ', Reaches (Performs False) σ σ' → TreesKept σ.state σ'.state := by
  have hverified : sampleBundle.IsVerified := ⟨_, _, _, _, verifyCandidate_sample⟩
  have habsent : ∀ subject, emptyStoreFs.node (subjectRoot subject) = none :=
    fun _ => emptyStoreFs_absent (List.cons_ne_nil _ _)
  let start : Installations (Fin 3) :=
    Config.start emptyStoreFs fun i => (sampleRequests i).program sampleStore
  obtain ⟨installed, fs₁, hfirst, hestablished⟩ := @install_of_placeable 0o022 sampleStore
    sampleBundle none emptyStoreFs emptyStoreFs_idle emptyStoreFs_root
    ⟨rfl, by decide +kernel, by decide +kernel⟩ hverified (habsent _) (emptyStoreFs_free _)
    (placeable_samplePath rfl)
  obtain ⟨fs₂, hagain, _⟩ := hestablished.again
  obtain ⟨σ₁, hreaches₁, hstate₁, hdone₁, hothers₁⟩ :=
    reaches_of_install (σ := start) (i := 0) hfirst rfl rfl
  obtain ⟨σ₂, hreaches₂, _, hdone₂, hothers₂⟩ :=
    reaches_of_install (i := 1) hagain hstate₁ (hothers₁ 1 (by decide))
  have hlast : σ₂.thread 2 = .running ((sampleRequests 2).program sampleStore) :=
    (hothers₂ 2 (by decide)).trans (hothers₁ 2 (by decide))
  have hreaches := (hreaches₁.trans hreaches₂).tail (.crash 2 hlast)
  obtain ⟨hconcordant, hkept⟩ := concurrentInstalls_concordant sampleStore sampleRequests
    emptyStoreFs (fun _ => hverified) habsent _ hreaches
  refine ⟨_, installed, receipt sampleBundle (subjectRoot sampleBundle.subject) true, ?_, ?_, ?_,
    rfl, ?_, hconcordant, hkept⟩
  · show Function.update σ₂.thread 2 .crashed 0 = _
    rw [Function.update_of_ne (by decide), hothers₂ 0 (by decide), hdone₁]
  · rw [hestablished.receipt]
    rfl
  · show Function.update σ₂.thread 2 .crashed 1 = _
    rw [Function.update_of_ne (by decide), hdone₂]
  · show Function.update σ₂.thread 2 .crashed 2 = _
    rw [Function.update_self]

end Invokrum.Install
