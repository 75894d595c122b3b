import Invokrum.Install.Concurrent
import Invokrum.Install.Faultless

/-!
# One installation after another

Without failures an installation leaves the store ready for the next one: the
internal directories are safe and no lock file is left. It changes nothing
outside the places of its subject, and nothing at all where its subject is
installed already.
-/

namespace Invokrum.Install

open Programs Environment Invokrum.Distribution Invokrum.Acquisition Invokrum.FileSystem
open Directory (PinnedRoot loadCandidate readCandidateFile)
open Text (Bytes)

/-- The quarantine directories of a subject and its root, with what is below them. -/
def Own (subject : Sha256Digest) (q : Path) : Prop :=
  subjectRoot subject <+: q ∨ ∃ attempt, stagingPath subject attempt <+: q

/-- Nothing but the places of the subject has changed since `fs₀`. -/
def OnlyOwn (subject : Sha256Digest) (fs₀ fs : Fs) : Prop :=
  ∀ q, ¬ Own subject q → fs.node q = fs₀.node q

variable {umask : Nat} {store : LinuxInstallStore} {bundle : VerifiedBundle}
  {publisher : Option AuthorizedPublisher} {subject : Sha256Digest} {fs₀ fs fs' : Fs}

theorem Own.below {p q : Path} (hown : Own subject p) (habove : p <+: q) : Own subject q := by
  rcases hown with hroot | ⟨attempt, hstaging⟩
  · exact .inl (hroot.trans habove)
  · exact .inr ⟨attempt, hstaging.trans habove⟩

theorem own_subjectRoot (subject : Sha256Digest) : Own subject (subjectRoot subject) :=
  .inl (List.prefix_refl _)

theorem own_stagingPath (subject : Sha256Digest) (attempt : Nat) :
    Own subject (stagingPath subject attempt) :=
  .inr ⟨attempt, List.prefix_refl _⟩

/-- The places of a subject lie two levels deep. -/
theorem not_own_of_short {q : Path} (hlength : q.length < 2) : ¬ Own subject q := by
  intro hown
  rcases hown with hroot | ⟨attempt, hstaging⟩
  · have hle := hroot.length_le
    have htwo : (subjectRoot subject).length = 2 := rfl
    omega
  · have hle := hstaging.length_le
    rw [stagingPath_length] at hle
    omega

theorem not_own_lockPath (subject' : Sha256Digest) (rest : Path) :
    ¬ Own subject (lockPath subject' ++ rest) := by
  intro hown
  have hlock : (lockPath subject' ++ rest).head? = some ".locks" := rfl
  rcases hown with hroot | ⟨attempt, hstaging⟩
  · rw [head_of_subjectRoot hroot] at hlock
    simp at hlock
  · rw [head_of_stagingPath hstaging] at hlock
    simp at hlock

theorem not_own_of_ne {subject' : Sha256Digest} (hne : subject ≠ subject') (rest : Path) :
    ¬ Own subject (subjectRoot subject' ++ rest) := by
  intro hown
  rcases hown with hroot | ⟨attempt, hstaging⟩
  · exact subjectRoot_not_above_of_ne hne rest hroot
  · have hhead : (subjectRoot subject' ++ rest).head? = some "sha256" := rfl
    rw [head_of_stagingPath hstaging] at hhead
    simp at hhead

/-! ## Programs that look at one tree -/

abbrev ReadsBelow {α : Type} (umask : Nat) (root : Path) (x : Installation α) : Prop :=
  (faultless umask).Reads (fun fs => fs.below root) x

variable {root : Path}

theorem node_eq_of_below {p : Path} (hroot : root <+: p) (h : fs.below root = fs'.below root) :
    fs.node p = fs'.node p := by
  obtain ⟨rest, rfl⟩ := hroot
  exact congrFun h rest

theorem reads_symlinkMetadata {site : Site} {p : Path} {e : LinuxInstallStoreError}
    (hroot : root <+: p) :
    ReadsBelow umask root (call site (.symlinkMetadata p) fun _ => e) := by
  apply Reads.attempt
  · intro fs
    rfl
  · intro fs fs' hview
    have hnode : fs'.node p = fs.node p := node_eq_of_below hroot hview
    show (fs'.symlinkMetadata p).mapError _ = (fs.symlinkMetadata p).mapError _
    unfold Fs.symlinkMetadata
    rw [hnode]
    cases fs.node p <;> rfl

theorem reads_verifyPrivateDirectory {site : Site} {directory : Path}
    (hroot : root <+: directory) :
    ReadsBelow umask root (verifyPrivateDirectory store site directory) :=
  Reads.bind (reads_symlinkMetadata hroot) fun _ => Reads.throwIf

theorem reads_verifyPrivateFile {site : Site} {path : Path} (hroot : root <+: path) :
    ReadsBelow umask root (verifyPrivateFile store site path) :=
  Reads.bind (reads_symlinkMetadata hroot) fun _ => Reads.throwIf

theorem reads_verifyInstalledPathPermissions {site : Site} {path : BundlePath} :
    ReadsBelow umask root (verifyInstalledPathPermissions store site root path) := by
  refine Reads.bind (Reads.forM ?_) fun _ => reads_verifyPrivateFile (List.prefix_append _ _)
  intro directory hdirectory
  obtain ⟨pre, _, rfl⟩ := directoriesFrom_prefix hdirectory
  exact reads_verifyPrivateDirectory (List.prefix_append _ _)

theorem reads_verifyInstallationPermissions {site : Site} :
    ReadsBelow umask root (verifyInstallationPermissions store site root bundle) := by
  apply Reads.bind (reads_verifyPrivateDirectory (List.prefix_refl _))
  intro _
  apply Reads.bind (Reads.forM fun _ _ => reads_verifyInstalledPathPermissions)
  intro _
  exact reads_verifyInstalledPathPermissions

/-- What the loader finds below a root depends on that tree. -/
theorem reads_viewed {c : Call} {wrap : c.op.Error → LinuxInstallStoreError}
    (h : ∃ f : (Path → Option Node) → Reply c, ∀ fs,
      faultless umask fs c = (f (fs.below root), fs)) :
    ReadsBelow umask root (Fallible.attempt c wrap) := by
  obtain ⟨f, hf⟩ := h
  apply Reads.attempt
  · intro fs
    rw [hf]
  · intro fs fs' hview
    rw [hf, hf, show fs'.below root = fs.below root from hview]

/-- Whether the tree is the installation depends on nothing else. -/
theorem reads_verifyExistingInstallation :
    ReadsBelow umask root (verifyExistingInstallation store root bundle publisher) := by
  apply Reads.mapError
  refine Reads.bind reads_verifyInstallationPermissions fun _ => ?_
  refine Reads.bind Reads.ofExcept fun manifest => ?_
  refine Reads.bind (reads_viewed ⟨fun nodes => viewed nodes fun tree =>
    (PinnedRoot.open tree).map fun _ => (), fun _ => rfl⟩) fun _ => ?_
  refine Reads.bind (reads_viewed ⟨fun nodes => viewed nodes fun tree =>
    loadCandidate tree manifest (some (installationRecordPath, maxInstallationRecordBytes)),
    fun _ => rfl⟩) fun _ => ?_
  refine Reads.bind Reads.ofExcept fun _ => ?_
  refine Reads.bind (reads_viewed ⟨fun nodes => viewed nodes fun tree =>
    readCandidateFile tree installationRecordPath maxInstallationRecordBytes,
    fun _ => rfl⟩) fun _ => ?_
  refine Reads.bind Reads.ofExcept fun _ => ?_
  exact Reads.bind Reads.throwIf fun _ => reads_verifyInstallationPermissions

/-! ## Programs that touch these places only -/

theorem OnlyOwn.answer (h : OnlyOwn subject fs₀ fs) {op : Op}
    (htouches : ∀ p ∈ op.touches, Own subject p) :
    OnlyOwn subject fs₀ (answer umask fs op).2 := by
  intro q hq
  rw [answer_frame umask fs op fun p hp hprefix => hq ((htouches p hp).below hprefix)]
  exact h q hq

abbrev KeepsOwn {α : Type} (umask : Nat) (subject : Sha256Digest) (fs₀ : Fs)
    (x : Installation α) : Prop :=
  (faultless umask).Keeps (OnlyOwn subject fs₀) (fun _ => True) x

theorem KeepsOwn.bind {α β : Type} {x : Installation α} {f : α → Installation β}
    (hx : KeepsOwn umask subject fs₀ x) (hf : ∀ a, KeepsOwn umask subject fs₀ (f a)) :
    KeepsOwn umask subject fs₀ (x >>= f) :=
  Keeps.bind hx fun a _ => hf a

theorem keepsOwn_throwIf {c : Prop} [Decidable c] {e : LinuxInstallStoreError} :
    KeepsOwn umask subject fs₀ (Fallible.throwIf c e) :=
  Keeps.throwIf fun _ => trivial

theorem keepsOwn_ofExcept {α : Type} {y : Except LinuxInstallStoreError α} :
    KeepsOwn umask subject fs₀ (Fallible.ofExcept y) :=
  Keeps.ofExcept fun _ _ => trivial

theorem keepsOwn_forM {β : Type} {g : β → Installation PUnit} {xs : List β}
    (h : ∀ y ∈ xs, KeepsOwn umask subject fs₀ (g y)) : KeepsOwn umask subject fs₀ (xs.forM g) :=
  Keeps.forM trivial h

theorem keepsOwn_request {site : Site} {op : Op} (htouches : ∀ p ∈ op.touches, Own subject p) :
    KeepsOwn umask subject fs₀ (request site op) :=
  Keeps.reply (fun _ h => h.answer htouches) fun _ => trivial

theorem keepsOwn_call {site : Site} {op : Op} {wrap : op.Error → LinuxInstallStoreError}
    (htouches : ∀ p ∈ op.touches, Own subject p) :
    KeepsOwn umask subject fs₀ (call site op wrap) :=
  Keeps.attempt fun _ h => h.answer htouches

theorem keepsOwn_look {site : Site} {op : Op} {wrap : op.Error → LinuxInstallStoreError}
    (hlooks : op.touches = []) : KeepsOwn umask subject fs₀ (call site op wrap) :=
  keepsOwn_call (by simp [hlooks])

theorem keepsOwn_at {site : Site} {op : Op} {wrap : op.Error → LinuxInstallStoreError} {p : Path}
    (hown : Own subject p) (htouches : op.touches = [p]) :
    KeepsOwn umask subject fs₀ (call site op wrap) :=
  keepsOwn_call (by simpa [htouches] using hown)

theorem keepsOwn_syncDirectory {site : Site} {directory : Path} :
    KeepsOwn umask subject fs₀ (syncDirectory site directory) :=
  keepsOwn_look rfl

theorem keepsOwn_ensurePrivateDirectory {site : Site} {directory : Path}
    (hown : Own subject directory) :
    KeepsOwn umask subject fs₀ (ensurePrivateDirectory store site directory) := by
  apply KeepsOwn.bind (keepsOwn_request fun _ hp => by cases hp)
  intro reply
  match reply with
  | .ok metadata => exact keepsOwn_throwIf
  | .error .notFound =>
      refine KeepsOwn.bind (keepsOwn_at hown rfl) fun _ => ?_
      refine KeepsOwn.bind (keepsOwn_at hown rfl) fun _ => ?_
      refine KeepsOwn.bind (keepsOwn_look rfl) fun _ => ?_
      exact KeepsOwn.bind keepsOwn_throwIf fun _ => keepsOwn_syncDirectory
  | .error .alreadyExists => exact Keeps.throw
  | .error .other => exact Keeps.throw

theorem keepsOwn_ensureRelativeDirectories {root parent : Path} (hown : Own subject root) :
    KeepsOwn umask subject fs₀ (ensureRelativeDirectories store root parent) := by
  unfold ensureRelativeDirectories
  split
  · apply keepsOwn_forM
    intro directory hdirectory
    obtain ⟨pre, _, rfl⟩ := directoriesFrom_prefix hdirectory
    exact keepsOwn_ensurePrivateDirectory (hown.below (List.prefix_append _ _))
  · exact Keeps.throw

theorem keepsOwn_materializeFile {root : Path} {path : BundlePath} {bytes : Bytes}
    (hown : Own subject root) :
    KeepsOwn umask subject fs₀ (materializeFile store root path bytes) := by
  have hfile : Own subject (root ++ components path) := hown.below (List.prefix_append _ _)
  refine KeepsOwn.bind (keepsOwn_ensureRelativeDirectories hown) fun _ => ?_
  refine KeepsOwn.bind (keepsOwn_at hfile rfl) fun _ => ?_
  refine KeepsOwn.bind (keepsOwn_at hfile rfl) fun _ => ?_
  refine KeepsOwn.bind (keepsOwn_look rfl) fun _ => ?_
  refine KeepsOwn.bind (keepsOwn_at hfile rfl) fun _ => ?_
  refine KeepsOwn.bind (keepsOwn_look rfl) fun _ => ?_
  exact KeepsOwn.bind keepsOwn_throwIf fun _ => keepsOwn_syncDirectory

theorem keepsOwn_stageBundle {staging : Path} (hown : Own subject staging) :
    KeepsOwn umask subject fs₀ (stageBundle store staging bundle publisher) := by
  have hverified : KeepsOwn umask subject fs₀ (verifyPrivateDirectory store .tree staging) :=
    (reads_verifyPrivateDirectory (List.prefix_refl _)).keeps _
  have hpermissions : KeepsOwn umask subject fs₀
      (verifyInstallationPermissions store .tree staging bundle) :=
    reads_verifyInstallationPermissions.keeps _
  refine KeepsOwn.bind hverified fun _ => ?_
  refine KeepsOwn.bind (keepsOwn_forM fun _ _ => keepsOwn_materializeFile hown) fun _ => ?_
  refine KeepsOwn.bind keepsOwn_syncDirectory fun _ => ?_
  refine KeepsOwn.bind keepsOwn_ofExcept fun _ => ?_
  refine KeepsOwn.bind (keepsOwn_look rfl) fun _ => ?_
  refine KeepsOwn.bind (keepsOwn_look rfl) fun _ => ?_
  refine KeepsOwn.bind keepsOwn_ofExcept fun _ => ?_
  refine KeepsOwn.bind keepsOwn_ofExcept fun _ => ?_
  refine KeepsOwn.bind (keepsOwn_materializeFile hown) fun _ => ?_
  refine KeepsOwn.bind (keepsOwn_look rfl) fun _ => ?_
  refine KeepsOwn.bind keepsOwn_throwIf fun _ => ?_
  exact KeepsOwn.bind hpermissions fun _ => keepsOwn_syncDirectory

theorem keepsOwn_pathExistsNoFollow {path : Path} :
    KeepsOwn umask subject fs₀ (pathExistsNoFollow path) := by
  apply KeepsOwn.bind (keepsOwn_request fun _ hp => by cases hp)
  intro reply
  match reply with
  | .ok metadata => exact Keeps.pure trivial
  | .error .notFound => exact Keeps.pure trivial
  | .error .alreadyExists => exact Keeps.throw
  | .error .other => exact Keeps.throw

theorem keepsOwn_cleanupStaging {staging : Path} (hown : Own subject staging) :
    KeepsOwn umask subject fs₀ (cleanupStaging staging) := by
  apply KeepsOwn.bind (keepsOwn_request fun _ hp => by cases hp)
  intro reply
  cases reply with
  | ok metadata =>
      refine KeepsOwn.bind (keepsOwn_request ?_) fun _ => Keeps.pure trivial
      simpa [Op.touches] using hown
  | error e => exact Keeps.pure trivial

/-! ## A store between installations -/

/-- The root of the store is the directory that was opened. -/
def RootKept (store : LinuxInstallStore) (fs : Fs) : Prop :=
  ∃ n, fs.node [] = some n ∧ n.kind = .directory ∧ n.metadata.device = store.rootDevice ∧
    n.metadata.inode = store.rootInode ∧ protectedRootMode n.metadata.mode = true

def SafeAt (store : LinuxInstallStore) (fs : Fs) (directory : Path) : Prop :=
  ∃ n, fs.node directory = some n ∧ safePrivateDirectory n.metadata store.rootDevice = true

def internalDirectories : List Path := [stagingDirectory, locksDirectory, installedDirectory]

/-- What every installation finds after its first steps. -/
structure Prepared (store : LinuxInstallStore) (fs : Fs) : Prop where
  root : RootKept store fs
  internal : ∀ directory ∈ internalDirectories, SafeAt store fs directory

structure Ready (store : LinuxInstallStore) (fs : Fs) : Prop extends Prepared store fs where
  unlocked : ∀ subject, fs.node (lockPath subject) = none

/-- No installation is under way. -/
structure Idle (store : LinuxInstallStore) (fs : Fs) : Prop where
  internal : ∀ directory ∈ internalDirectories,
    fs.node directory = none ∨ SafeAt store fs directory
  unlocked : ∀ subject, fs.node (lockPath subject) = none

theorem Ready.idle (h : Ready store fs) : Idle store fs where
  internal := fun directory hdirectory => .inr (h.internal directory hdirectory)
  unlocked := h.unlocked

theorem RootKept.congr (h : RootKept store fs) (hroot : fs'.node [] = fs.node []) :
    RootKept store fs' := by
  obtain ⟨n, hn, hkept⟩ := h
  exact ⟨n, hroot.trans hn, hkept⟩

theorem SafeAt.congr {directory : Path} (h : SafeAt store fs directory)
    (hdirectory : fs'.node directory = fs.node directory) : SafeAt store fs' directory := by
  obtain ⟨n, hn, hsafe⟩ := h
  exact ⟨n, hdirectory.trans hn, hsafe⟩

theorem internal_length {directory : Path} (h : directory ∈ internalDirectories) :
    directory.length = 1 := by
  simp only [internalDirectories, List.mem_cons, List.not_mem_nil, or_false] at h
  rcases h with rfl | rfl | rfl <;> rfl

theorem not_internal_of_long {q : Path} (h : 2 ≤ q.length) : q ∉ internalDirectories := by
  intro hq
  rw [internal_length hq] at h
  omega

/-- The root and the internal directories lie above the places of every subject. -/
theorem Prepared.congr (h : Prepared store fs₀) (hshort : ∀ q : Path, q.length < 2 →
    fs.node q = fs₀.node q) : Prepared store fs where
  root := h.root.congr (hshort [] (by simp))
  internal := by
    intro directory hdirectory
    apply (h.internal directory hdirectory).congr
    apply hshort
    rw [internal_length hdirectory]
    decide

theorem Prepared.onlyOwn (h : Prepared store fs₀) (hown : OnlyOwn subject fs₀ fs) :
    Prepared store fs :=
  h.congr fun q hq => hown q (not_own_of_short hq)

theorem Ready.onlyOwn (h : Ready store fs₀) (hown : OnlyOwn subject fs₀ fs) : Ready store fs where
  toPrepared := h.toPrepared.onlyOwn hown
  unlocked := by
    intro subject'
    have hlock := @not_own_lockPath subject subject' []
    rw [List.append_nil] at hlock
    rw [hown _ hlock]
    exact h.unlocked subject'

/-! ## The steps before the lock -/

theorem request_outcome {site : Site} {op : Op} {r : Except op.Error op.Value}
    (h : answer umask fs op = (r, fs')) :
    (faultless umask).outcome (request site op) fs = (.ok r, fs') := by
  rw [request, outcome_reply]
  show ((.ok (answer umask fs op).1, (answer umask fs op).2) : Except _ _ × Fs) = _
  rw [h]

theorem call_outcome {site : Site} {op : Op} {wrap : op.Error → LinuxInstallStoreError}
    {v : op.Value} (h : answer umask fs op = (.ok v, fs')) :
    (faultless umask).outcome (call site op wrap) fs = (.ok v, fs') := by
  rw [call, outcome_attempt]
  show ((answer umask fs op).1.mapError wrap, (answer umask fs op).2) = _
  rw [h]
  rfl

theorem symlinkMetadata_outcome {site : Site} {p : Path} {n : Node}
    {wrap : IoError → LinuxInstallStoreError} (h : fs.node p = some n) :
    (faultless umask).outcome (call site (.symlinkMetadata p) wrap) fs = (.ok n.metadata, fs) := by
  show ((fs.symlinkMetadata p).mapError wrap, fs) = _
  rw [Fs.symlinkMetadata_eq_ok.mpr ⟨n, h, rfl⟩]
  rfl

theorem ensureStoreRoot_kept (h : RootKept store fs) :
    (faultless umask).outcome (ensureStoreRoot store) fs = (.ok (), fs) := by
  obtain ⟨n, hn, hkind, hdevice, hinode, hmode⟩ := h
  have hdirectory : n.metadata.kind = .directory := hkind
  rw [ensureStoreRoot, bind_of_ok (symlinkMetadata_outcome hn), outcome_throwIf]
  simp [hdirectory, hdevice, hinode, hmode]

/-- Without the opened root an installation ends at once. -/
theorem ensureStoreRoot_changed (h : ¬ RootKept store fs) :
    (faultless umask).outcome (ensureStoreRoot store) fs = (.error .storeChanged, fs) := by
  cases hn : fs.node [] with
  | none =>
      have hlook : (faultless umask).outcome (call .store (.symlinkMetadata []) fun _ =>
          LinuxInstallStoreError.storeChanged) fs = (.error .storeChanged, fs) := by
        show ((fs.symlinkMetadata []).mapError _, fs) = _
        rw [Fs.symlinkMetadata, hn]
        rfl
      rw [ensureStoreRoot, bind_of_error hlook]
  | some n =>
      rw [ensureStoreRoot, bind_of_ok (symlinkMetadata_outcome hn), outcome_throwIf, if_pos]
      by_contra hvalid
      apply h
      simp only [not_or, not_not, ne_eq, Bool.not_eq_false] at hvalid
      obtain ⟨_, hkind, hdevice, hinode, hmode⟩ := hvalid
      exact ⟨n, hn, hkind, hdevice, hinode, hmode⟩

theorem ensurePrivateDirectory_safe {site : Site} {directory : Path}
    (h : SafeAt store fs directory) :
    (faultless umask).outcome (ensurePrivateDirectory store site directory) fs = (.ok (), fs) := by
  obtain ⟨n, hn, hsafe⟩ := h
  have hlook : (faultless umask).outcome (request site (.symlinkMetadata directory)) fs =
      (.ok (.ok n.metadata), fs) := by
    apply request_outcome
    show (fs.symlinkMetadata directory, fs) = _
    rw [Fs.symlinkMetadata_eq_ok.mpr ⟨n, hn, rfl⟩]
  rw [ensurePrivateDirectory, bind_of_ok hlook]
  show (faultless umask).outcome (Fallible.throwIf _ _) fs = _
  rw [outcome_throwIf, if_neg (by simp [hsafe])]

theorem syncDirectory_outcome {site : Site} {directory : Path} {n : Node}
    (h : fs.node directory = some n) :
    (faultless umask).outcome (syncDirectory site directory) fs = (.ok (), fs) := by
  apply call_outcome
  show (fs.sync directory, fs) = _
  rw [Fs.sync, h]

theorem absentError_of_parent {p : Path} {d : Node} (hparent : fs.parentDirectory p = some d)
    (habsent : fs.node p = none) : fs.absentError p = .notFound := by
  obtain ⟨hp, hd, hkind⟩ := Fs.parentDirectory_eq_some hparent
  rw [Fs.absentError, if_neg]
  intro hblocked
  simp only [List.any_eq_true, List.mem_inits, Option.any_eq_true, bne_iff_ne, ne_eq] at hblocked
  obtain ⟨q, hq, n, hn, hfile⟩ := hblocked
  rw [← List.dropLast_append_getLast hp] at hq
  rcases List.prefix_concat_iff.mp hq with rfl | hq
  · rw [List.dropLast_append_getLast, habsent] at hn
    cases hn
  · obtain ⟨rest, hrest⟩ := hq
    cases rest with
    | nil =>
        rw [List.append_nil] at hrest
        rw [hrest, hd] at hn
        cases hn
        exact hfile hkind
    | cons name rest =>
        rw [← hrest, fs.absent_below_file hn hfile] at hd
        cases hd

/-- A missing directory is created, private whatever the process mask. -/
theorem ensurePrivateDirectory_created {site : Site} {p : Path} {d : Node}
    (hparent : fs.parentDirectory p = some d) (hdevice : d.metadata.device = store.rootDevice)
    (habsent : fs.node p = none) :
    ∃ fs' n, (faultless umask).outcome (ensurePrivateDirectory store site p) fs = (.ok (), fs') ∧
      safePrivateDirectory n.metadata store.rootDevice = true ∧
      fs'.node = Function.update fs.node p (some n) := by
  obtain ⟨hp, hd, hkind⟩ := Fs.parentDirectory_eq_some hparent
  have hlook : (faultless umask).outcome (request site (.symlinkMetadata p)) fs =
      (.ok (.error .notFound), fs) := by
    apply request_outcome
    show (fs.symlinkMetadata p, fs) = _
    rw [Fs.symlinkMetadata, habsent, absentError_of_parent hparent habsent]
  obtain ⟨fs₁, hcreate, hnode₁⟩ := @Fs.createNode_absent fs p d .directory 2
    (privateDirectoryMode.ldiff umask) habsent hparent
  have hcreated : answer umask fs (.createDir p privateDirectoryMode) = (.ok (), fs₁) := by
    show changed fs (fs.createNode p .directory 2 (privateDirectoryMode.ldiff umask)) = _
    rw [hcreate]
    rfl
  have hthere : fs₁.node p = some
      ⟨⟨.directory, d.metadata.device, fs.nextInode, 2, privateDirectoryMode.ldiff umask⟩, []⟩ := by
    rw [hnode₁, Function.update_self]
  obtain ⟨fs₂, hmode, hnode₂⟩ := @Fs.setMode_some fs₁ p _ privateDirectoryMode hthere
  have hprotected : answer umask fs₁ (.setPermissions p privateDirectoryMode) = (.ok (), fs₂) := by
    show changed fs₁ (fs₁.setMode p privateDirectoryMode) = _
    rw [hmode]
    rfl
  rw [hnode₁, Function.update_idem] at hnode₂
  have hprivate : fs₂.node p = some
      ⟨⟨.directory, d.metadata.device, fs.nextInode, 2, privateDirectoryMode⟩, []⟩ := by
    rw [hnode₂, Function.update_self]
  have hne : p.dropLast ≠ p := by
    intro heq
    have hlength := congrArg List.length heq
    have hpos := List.length_pos_iff.mpr hp
    rw [List.length_dropLast] at hlength
    omega
  have hstill : fs₂.node p.dropLast = some d := by
    rw [hnode₂, Function.update_of_ne hne, hd]
  have hsafe : safePrivateDirectory
      ⟨.directory, d.metadata.device, fs.nextInode, 2, privateDirectoryMode⟩
      store.rootDevice = true := by
    simp [safePrivateDirectory, hdevice, privateDirectoryMode]
  refine ⟨fs₂, _, ?_, hsafe, hnode₂⟩
  rw [ensurePrivateDirectory, bind_of_ok hlook]
  show (faultless umask).outcome (call site (.createDir p privateDirectoryMode) _ >>= _) fs = _
  rw [bind_of_ok (call_outcome hcreated), bind_of_ok (call_outcome hprotected),
    bind_of_ok (symlinkMetadata_outcome hprivate)]
  rw [bind_of_ok (a := ()) (by rw [outcome_throwIf, if_neg (by simp [hsafe])])]
  exact syncDirectory_outcome hstill

theorem ensurePrivateDirectory_absent {site : Site} {name : String} (hroot : RootKept store fs)
    (habsent : fs.node [name] = none) :
    ∃ fs' n,
      (faultless umask).outcome (ensurePrivateDirectory store site [name]) fs = (.ok (), fs') ∧
      safePrivateDirectory n.metadata store.rootDevice = true ∧
      fs'.node = Function.update fs.node [name] (some n) := by
  obtain ⟨root, hnode, hkind, hdevice, _⟩ := hroot
  have hparent : fs.parentDirectory [name] = some root := by
    simp [Fs.parentDirectory, hnode, hkind]
  exact ensurePrivateDirectory_created hparent hdevice habsent

/-- An internal directory is safe after its step. -/
theorem ensureInternal_idle {site : Site} {directory : Path} (hroot : RootKept store fs)
    (hinternal : directory ∈ internalDirectories)
    (hidle : fs.node directory = none ∨ SafeAt store fs directory) :
    ∃ fs', (faultless umask).outcome (ensurePrivateDirectory store site directory) fs =
        (.ok (), fs') ∧
      SafeAt store fs' directory ∧ ∀ q, q ≠ directory → fs'.node q = fs.node q := by
  rcases hidle with habsent | hsafe
  · obtain ⟨name, rfl⟩ := List.length_eq_one_iff.mp (internal_length hinternal)
    obtain ⟨fs', n, houtcome, hsafe, hnode⟩ := ensurePrivateDirectory_absent hroot habsent
    refine ⟨fs', houtcome, ⟨n, by rw [hnode, Function.update_self], hsafe⟩, ?_⟩
    intro q hq
    rw [hnode, Function.update_of_ne hq]
  · exact ⟨fs, ensurePrivateDirectory_safe hsafe, hsafe, fun _ _ => rfl⟩

/-- What follows the preparation of the internal directories. -/
def installPrepared (store : LinuxInstallStore) (bundle : VerifiedBundle)
    (publisher : Option AuthorizedPublisher) : Installation InstalledBundle := do
  rejectReservedPaths bundle
  acquireSubjectLock store bundle.subject
  Fallible.guarded (installLocked store bundle publisher) (dropSubjectLock bundle.subject)

theorem install_mismatch (h : publisherMismatch bundle publisher = true) :
    install umask store bundle publisher fs = (.error .publisherSubjectMismatch, fs) := by
  rw [install, installBundleWithPublisher, bind_of_error]
  rw [outcome_throwIf, if_pos h]

theorem install_matching (h : publisherMismatch bundle publisher = false) :
    install umask store bundle publisher fs = (faultless umask).outcome (do
      ensureStoreRoot store
      ensurePrivateDirectory store .store stagingDirectory
      ensurePrivateDirectory store .store locksDirectory
      ensurePrivateDirectory store .store installedDirectory
      installPrepared store bundle publisher) fs := by
  rw [install, installBundleWithPublisher, bind_of_ok]
  · rfl
  · rw [outcome_throwIf, if_neg (by simp [h])]

/-- On a ready store the first steps change nothing. -/
theorem install_ready (hready : Ready store fs)
    (hmatching : publisherMismatch bundle publisher = false) :
    install umask store bundle publisher fs =
      (faultless umask).outcome (installPrepared store bundle publisher) fs := by
  have hsafe : ∀ directory ∈ internalDirectories, (faultless umask).outcome
      (ensurePrivateDirectory store .store directory) fs = (.ok (), fs) :=
    fun directory hdirectory => ensurePrivateDirectory_safe (hready.internal directory hdirectory)
  rw [install_matching hmatching, bind_of_ok (ensureStoreRoot_kept hready.root),
    bind_of_ok (hsafe stagingDirectory (by simp [internalDirectories])),
    bind_of_ok (hsafe locksDirectory (by simp [internalDirectories])),
    bind_of_ok (hsafe installedDirectory (by simp [internalDirectories]))]

theorem idleAt_congr {directory : Path}
    (h : fs.node directory = none ∨ SafeAt store fs directory)
    (hdirectory : fs'.node directory = fs.node directory) :
    fs'.node directory = none ∨ SafeAt store fs' directory := by
  rcases h with habsent | hsafe
  · exact .inl (hdirectory.trans habsent)
  · exact .inr (hsafe.congr hdirectory)

/-- The first steps make an idle store ready and change nothing but its internal directories. -/
theorem prepare_outcome (hidle : Idle store fs) (hroot : RootKept store fs) :
    ∃ fs', Ready store fs' ∧ (∀ q, q ∉ internalDirectories → fs'.node q = fs.node q) ∧
      ∀ {α : Type} (x : Installation α), (faultless umask).outcome (do
        ensureStoreRoot store
        ensurePrivateDirectory store .store stagingDirectory
        ensurePrivateDirectory store .store locksDirectory
        ensurePrivateDirectory store .store installedDirectory
        x) fs = (faultless umask).outcome x fs' := by
  have hstagingMem : stagingDirectory ∈ internalDirectories := by simp [internalDirectories]
  have hlocksMem : locksDirectory ∈ internalDirectories := by simp [internalDirectories]
  have hinstalledMem : installedDirectory ∈ internalDirectories := by simp [internalDirectories]
  have hlocksNe : locksDirectory ≠ stagingDirectory := by decide
  have hinstalledNe : installedDirectory ≠ stagingDirectory := by decide
  have hinstalledNe' : installedDirectory ≠ locksDirectory := by decide
  obtain ⟨fs₁, hstaging, hsafe₁, hsame₁⟩ := @ensureInternal_idle umask store fs .store
    stagingDirectory hroot hstagingMem (hidle.internal _ hstagingMem)
  have hroot₁ : RootKept store fs₁ := hroot.congr (hsame₁ [] (by decide))
  obtain ⟨fs₂, hlocks, hsafe₂, hsame₂⟩ := @ensureInternal_idle umask store fs₁ .store
    locksDirectory hroot₁ hlocksMem
    (idleAt_congr (hidle.internal _ hlocksMem) (hsame₁ _ hlocksNe))
  have hroot₂ : RootKept store fs₂ := hroot₁.congr (hsame₂ [] (by decide))
  obtain ⟨fs₃, hinstalled, hsafe₃, hsame₃⟩ := @ensureInternal_idle umask store fs₂ .store
    installedDirectory hroot₂ hinstalledMem
    (idleAt_congr (idleAt_congr (hidle.internal _ hinstalledMem) (hsame₁ _ hinstalledNe))
      (hsame₂ _ hinstalledNe'))
  have hsame : ∀ q, q ∉ internalDirectories → fs₃.node q = fs.node q := by
    intro q hq
    rw [hsame₃ q (fun heq => hq (heq ▸ hinstalledMem)), hsame₂ q (fun heq => hq (heq ▸ hlocksMem)),
      hsame₁ q (fun heq => hq (heq ▸ hstagingMem))]
  refine ⟨fs₃, ⟨⟨hroot₂.congr (hsame₃ [] (by decide)), ?_⟩, ?_⟩, hsame, ?_⟩
  · intro directory hdirectory
    simp only [internalDirectories, List.mem_cons, List.not_mem_nil, or_false] at hdirectory
    rcases hdirectory with rfl | rfl | rfl
    · exact (hsafe₁.congr (hsame₂ _ hlocksNe.symm)).congr (hsame₃ _ hinstalledNe.symm)
    · exact hsafe₂.congr (hsame₃ _ hinstalledNe'.symm)
    · exact hsafe₃
  · intro subject
    rw [hsame _ (not_internal_of_long (lockPath_length subject).ge)]
    exact hidle.unlocked subject
  · intro α x
    rw [bind_of_ok (ensureStoreRoot_kept hroot), bind_of_ok hstaging, bind_of_ok hlocks,
      bind_of_ok hinstalled]

theorem install_idle (hidle : Idle store fs) (hroot : RootKept store fs)
    (hmatching : publisherMismatch bundle publisher = false) :
    ∃ fs', Ready store fs' ∧ (∀ q, q ∉ internalDirectories → fs'.node q = fs.node q) ∧
      install umask store bundle publisher fs =
        (faultless umask).outcome (installPrepared store bundle publisher) fs' := by
  obtain ⟨fs', hready, hsame, hprepare⟩ := @prepare_outcome umask store fs hidle hroot
  exact ⟨fs', hready, hsame, (install_matching hmatching).trans (hprepare _)⟩

/-! ## The lock -/

/-- The process mask leaves the lock file private. -/
def Lockable (umask : Nat) : Prop := privateFileMode.ldiff umask &&& 0o777 = privateFileMode

instance (umask : Nat) : Decidable (Lockable umask) :=
  inferInstanceAs (Decidable (_ = _))

/-- The lock file is there and nothing else has changed. -/
structure LockedFrom (subject : Sha256Digest) (fs fs' : Fs) : Prop where
  absent : fs.node (lockPath subject) = none
  lock : ∃ n, n.kind = .file ∧ fs'.node = Function.update fs.node (lockPath subject) (some n)

theorem LockedFrom.released (h : LockedFrom subject fs fs') :
    (fs'.removeTree (lockPath subject)).node = fs.node := by
  obtain ⟨n, _, hnode⟩ := h.lock
  funext q
  by_cases hprefix : lockPath subject <+: q
  · obtain ⟨rest, rfl⟩ := hprefix
    rw [fs'.removeTree_below (List.prefix_append _ _), fs.absent_below h.absent]
  · have hne : q ≠ lockPath subject := by
      intro heq
      exact hprefix (heq ▸ List.prefix_refl _)
    rw [Fs.sameOutside_removeTree fs' _ q hprefix, hnode, Function.update_of_ne hne]

theorem removeLock_outcome {n : Node} (h : fs.node (lockPath subject) = some n)
    (hkind : n.kind = .file) :
    (faultless umask).outcome (request .lock (.removeFile (lockPath subject))) fs =
      (.ok (.ok ()), fs.removeTree (lockPath subject)) := by
  apply request_outcome
  show changed fs (fs.removeFile (lockPath subject)) = _
  rw [Fs.removeFile, h]
  simp only [hkind]
  rfl

theorem acquireSubjectLock_outcome (hready : Ready store fs) (subject : Sha256Digest) :
    ∃ fs', LockedFrom subject fs fs' ∧
      (faultless umask).outcome (acquireSubjectLock store subject) fs =
        if Lockable umask then (.ok (), fs')
        else (.error .storePathUnsafe, fs'.removeTree (lockPath subject)) := by
  have hlocksMem : locksDirectory ∈ internalDirectories := by simp [internalDirectories]
  obtain ⟨directory, hdirectory, hprivate⟩ := hready.internal _ hlocksMem
  simp only [safePrivateDirectory, Bool.and_eq_true, beq_iff_eq] at hprivate
  obtain ⟨⟨hkind, hdevice⟩, _⟩ := hprivate
  have habsent := hready.unlocked subject
  have hparent : fs.parentDirectory (lockPath subject) = some directory := by
    have hlast : (lockPath subject).dropLast = locksDirectory := rfl
    rw [Fs.parentDirectory, hlast, hdirectory]
    simp [lockPath, Node.kind, hkind]
  obtain ⟨fs₁, hcreate, hnode₁⟩ := @Fs.createNode_absent fs (lockPath subject) directory .file 1
    (privateFileMode.ldiff umask) habsent hparent
  have hthere : fs₁.node (lockPath subject) = some
      ⟨⟨.file, directory.metadata.device, fs.nextInode, 1, privateFileMode.ldiff umask⟩, []⟩ := by
    rw [hnode₁, Function.update_self]
  have hlocks : fs₁.node locksDirectory = some directory := by
    rw [hnode₁, Function.update_of_ne (by simp [locksDirectory, lockPath]), hdirectory]
  have hreply : (faultless umask).outcome
      (request .lock (.createNew (lockPath subject) privateFileMode)) fs = (.ok (.ok ()), fs₁) := by
    apply request_outcome
    show changed fs (fs.createNode (lockPath subject) .file 1 (privateFileMode.ldiff umask)) = _
    rw [hcreate]
    rfl
  have hsync : answer umask fs₁ (.syncAll (lockPath subject)) = (.ok (), fs₁) := by
    show (fs₁.sync (lockPath subject), fs₁) = _
    rw [Fs.sync, hthere]
  have hmetadata : answer umask fs₁ (.fileMetadata (lockPath subject)) = (.ok
      ⟨.file, directory.metadata.device, fs.nextInode, 1, privateFileMode.ldiff umask⟩, fs₁) := by
    show (fs₁.symlinkMetadata (lockPath subject), fs₁) = _
    rw [Fs.symlinkMetadata_eq_ok.mpr ⟨_, hthere, rfl⟩]
  have hsafe : safePrivateFile
      ⟨.file, directory.metadata.device, fs.nextInode, 1, privateFileMode.ldiff umask⟩
      store.rootDevice = decide (Lockable umask) := by
    rw [Bool.eq_iff_iff, decide_eq_true_iff]
    simp [safePrivateFile, hdevice, Lockable]
  refine ⟨fs₁, ⟨habsent, _, rfl, hnode₁⟩, ?_⟩
  rw [acquireSubjectLock, bind_of_ok (ensurePrivateDirectory_safe (hready.internal _ hlocksMem)),
    bind_of_ok hreply]
  show (faultless umask).outcome (call .lockCheck (.syncAll (lockPath subject)) _ >>= _) fs₁ = _
  rw [bind_of_ok (call_outcome hsync), bind_of_ok (call_outcome hmetadata)]
  by_cases hlockable : Lockable umask
  · rw [if_pos hlockable, checkLockFile, hsafe, if_neg (by simp [hlockable])]
    exact syncDirectory_outcome hlocks
  · rw [if_neg hlockable, checkLockFile, hsafe, if_pos (by simp [hlockable])]
    rw [bind_of_error]
    rw [bind_of_ok (removeLock_outcome hthere rfl)]
    rfl

theorem dropSubjectLock_outcome {n : Node} (h : fs.node (lockPath subject) = some n)
    (hkind : n.kind = .file) :
    ((faultless umask).outcome (dropSubjectLock subject) fs).2 =
      fs.removeTree (lockPath subject) := by
  rw [dropSubjectLock, bind_of_ok (removeLock_outcome h hkind)]
  rfl

/-! ## Under the lock -/

theorem keepsOwn_ensureInternal {site : Site} {directory : Path} (hprepared : Prepared store fs₀)
    (hinternal : directory ∈ internalDirectories) :
    KeepsOwn umask subject fs₀ (ensurePrivateDirectory store site directory) := by
  intro fs hfs
  rw [ensurePrivateDirectory_safe ((hprepared.onlyOwn hfs).internal directory hinternal)]
  exact ⟨hfs, fun _ _ => trivial⟩

theorem keeps_tryStaging (attempts : List Nat) :
    (faultless umask).Keeps (OnlyOwn subject fs₀) (Own subject)
      (tryStaging store subject attempts) := by
  induction attempts with
  | nil => exact Keeps.throw
  | cons attempt attempts ih =>
      have hown := own_stagingPath subject attempt
      have hverified : KeepsOwn umask subject fs₀
          (verifyPrivateDirectory store .stagingCheck (stagingPath subject attempt)) :=
        (reads_verifyPrivateDirectory (List.prefix_refl _)).keeps _
      refine Keeps.bind (keepsOwn_request ?_) fun reply _ => ?_
      · simpa [Op.touches] using hown
      · match reply with
        | .ok _ =>
            refine Keeps.bind (keepsOwn_at hown rfl) fun _ _ => ?_
            refine Keeps.bind hverified fun _ _ => ?_
            exact Keeps.bind keepsOwn_syncDirectory fun _ _ => Keeps.pure hown
        | .error .alreadyExists => exact ih
        | .error .notFound => exact Keeps.throw
        | .error .other => exact Keeps.throw

theorem keepsOwn_promote {staging : Path} (hprepared : Prepared store fs₀)
    (hown : Own bundle.subject staging) :
    KeepsOwn umask bundle.subject fs₀ (promote store staging bundle publisher) := by
  have hroot : KeepsOwn umask bundle.subject fs₀ (ensureStoreRoot store) := by
    intro fs hfs
    rw [ensureStoreRoot_kept (hprepared.onlyOwn hfs).root]
    exact ⟨hfs, fun _ _ => trivial⟩
  have hverify : KeepsOwn umask bundle.subject fs₀
      (verifyExistingInstallation store (subjectRoot bundle.subject) bundle publisher) :=
    reads_verifyExistingInstallation.keeps _
  refine KeepsOwn.bind hroot fun _ => ?_
  refine KeepsOwn.bind (keepsOwn_ensureInternal hprepared (by simp [internalDirectories]))
    fun _ => ?_
  refine KeepsOwn.bind (keepsOwn_request ?_) fun reply => ?_
  · simpa [Op.touches] using ⟨hown, own_subjectRoot bundle.subject⟩
  · cases reply with
    | ok v =>
        refine KeepsOwn.bind keepsOwn_syncDirectory fun _ => ?_
        exact KeepsOwn.bind hverify fun _ => Keeps.pure trivial
    | error e =>
        refine KeepsOwn.bind keepsOwn_pathExistsNoFollow fun found => ?_
        cases found with
        | true =>
            refine KeepsOwn.bind (keepsOwn_cleanupStaging hown) fun _ => ?_
            exact KeepsOwn.bind hverify fun _ => Keeps.pure trivial
        | false => exact Keeps.throw

theorem keepsOwn_installLocked (hprepared : Prepared store fs₀) :
    KeepsOwn umask bundle.subject fs₀ (installLocked store bundle publisher) := by
  refine KeepsOwn.bind keepsOwn_pathExistsNoFollow fun found => ?_
  cases found with
  | true =>
      exact KeepsOwn.bind (reads_verifyExistingInstallation.keeps _) fun _ => Keeps.pure trivial
  | false =>
      have hstaging : (faultless umask).Keeps (OnlyOwn bundle.subject fs₀) (Own bundle.subject)
          (createStaging store bundle.subject) :=
        Keeps.bind (keepsOwn_ensureInternal hprepared (by simp [internalDirectories])) fun _ _ =>
          keeps_tryStaging _
      refine Keeps.bind hstaging fun staging hown => ?_
      exact Keeps.onError
        (KeepsOwn.bind (keepsOwn_stageBundle hown) fun _ => keepsOwn_promote hprepared hown)
        (keepsOwn_cleanupStaging hown)

/-! ## A whole installation -/

/-- The installation gets as far as the root of its subject. -/
structure Admitted (umask : Nat) (bundle : VerifiedBundle)
    (publisher : Option AuthorizedPublisher) : Prop where
  matching : publisherMismatch bundle publisher = false
  unreserved : (bundle.files.any fun file => isReserved file.path) = false
  lockable : Lockable umask

theorem install_refused (hready : Ready store fs) (h : ¬ Admitted umask bundle publisher) :
    ∃ e fs', install umask store bundle publisher fs = (.error e, fs') ∧ fs'.node = fs.node := by
  cases hmatching : publisherMismatch bundle publisher with
  | true => exact ⟨_, fs, install_mismatch hmatching, rfl⟩
  | false =>
      rw [install_ready hready hmatching, installPrepared, rejectReservedPaths]
      cases hreserved : bundle.files.any fun file => isReserved file.path with
      | true =>
          refine ⟨.reservedMetadataPath, fs, ?_, rfl⟩
          rw [bind_of_error]
          rw [outcome_throwIf, if_pos rfl]
      | false =>
          have hlockable : ¬ Lockable umask := fun hlockable => h ⟨hmatching, hreserved, hlockable⟩
          obtain ⟨fs₁, hlocked, houtcome⟩ :=
            @acquireSubjectLock_outcome umask store fs hready bundle.subject
          rw [if_neg hlockable] at houtcome
          refine ⟨.storePathUnsafe, _, ?_, hlocked.released⟩
          rw [bind_of_ok (a := ()) (by rw [outcome_throwIf, if_neg (by simp)]),
            bind_of_error houtcome]

theorem LockedFrom.onlyOwn (h : LockedFrom subject fs fs') {fs'' : Fs}
    (hown : OnlyOwn subject fs' fs'') :
    OnlyOwn subject fs (fs''.removeTree (lockPath subject)) := by
  intro q hq
  rw [← h.released]
  by_cases hprefix : lockPath subject <+: q
  · rw [Fs.removeTree_below fs'' hprefix, Fs.removeTree_below fs' hprefix]
  · rw [Fs.sameOutside_removeTree fs'' _ q hprefix, Fs.sameOutside_removeTree fs' _ q hprefix]
    exact hown q hq

theorem LockedFrom.prepared (h : LockedFrom subject fs fs') (hprepared : Prepared store fs) :
    Prepared store fs' := by
  obtain ⟨n, _, hnode⟩ := h.lock
  apply hprepared.congr
  intro q hq
  have hne : q ≠ lockPath subject := by
    intro heq
    rw [heq, lockPath_length] at hq
    omega
  rw [hnode, Function.update_of_ne hne]

/-- An admitted installation does its work under the lock and then removes the lock. -/
theorem install_admitted (hready : Ready store fs) (h : Admitted umask bundle publisher) :
    ∃ fs₁ result fs₂, LockedFrom bundle.subject fs fs₁ ∧ OnlyOwn bundle.subject fs₁ fs₂ ∧
      (faultless umask).outcome (installLocked store bundle publisher) fs₁ = (result, fs₂) ∧
      install umask store bundle publisher fs =
        (result, fs₂.removeTree (lockPath bundle.subject)) := by
  obtain ⟨fs₁, hlocked, houtcome⟩ :=
    @acquireSubjectLock_outcome umask store fs hready bundle.subject
  rw [if_pos h.lockable] at houtcome
  cases hwork : (faultless umask).outcome (installLocked store bundle publisher) fs₁ with
  | mk result fs₂ =>
      have hown : OnlyOwn bundle.subject fs₁ fs₂ := by
        have hkeeps : KeepsOwn umask bundle.subject fs₁ (installLocked store bundle publisher) :=
          keepsOwn_installLocked (hlocked.prepared hready.toPrepared)
        have hend := (hkeeps fs₁ fun _ _ => rfl).1
        rwa [hwork] at hend
      obtain ⟨n, hkind, hnode⟩ := hlocked.lock
      have hlock := @not_own_lockPath bundle.subject bundle.subject []
      rw [List.append_nil] at hlock
      have hheld : fs₂.node (lockPath bundle.subject) = some n := by
        rw [hown _ hlock, hnode, Function.update_self]
      refine ⟨fs₁, result, fs₂, hlocked, hown, hwork, ?_⟩
      rw [install_ready hready h.matching, installPrepared, rejectReservedPaths, h.unreserved,
        bind_of_ok (a := ()) (by rw [outcome_throwIf, if_neg (by simp)]), bind_of_ok houtcome,
        outcome_guarded, hwork, dropSubjectLock_outcome hheld hkind]

/-- An installation on a ready store changes nothing but the places of its subject. -/
theorem install_onlyOwn (hready : Ready store fs) :
    OnlyOwn bundle.subject fs (install umask store bundle publisher fs).2 := by
  by_cases h : Admitted umask bundle publisher
  · obtain ⟨fs₁, result, fs₂, hlocked, hown, _, hinstall⟩ :=
      @install_admitted _ store _ _ fs hready h
    rw [hinstall]
    exact hlocked.onlyOwn hown
  · obtain ⟨e, fs', hinstall, hsame⟩ := @install_refused _ store _ _ fs hready h
    rw [hinstall]
    intro q _
    rw [hsame]

end Invokrum.Install
