import Invokrum.Install.Steps

/-!
# Installations obey the protocol

Each function of the store has one rule: the phases it may start in, and the
phases it returns or fails in, for all replies. Most functions are quiet. The
rule of the whole installation says what a receipt rests on, and balances what
a failed installation leaves against the faults it met.
-/

namespace Invokrum.Install

open Programs Invokrum.Distribution Invokrum.Acquisition Invokrum.FileSystem
open Programs.Protocol (Meets Quiet)
open Text (Bytes)

/-- Sites whose failures leave nothing behind. -/
def Site.plain : Site → Bool
  | .store => true
  | .lock => true
  | .tree => true
  | .target => true
  | _ => false

section

variable {store : LinuxInstallStore} {bundle : VerifiedBundle}
  {publisher : Option AuthorizedPublisher} {g : Phase}

/-! ## Calls -/

theorem meets_call {site : Site} {op : Op} {wrap : op.Error → LinuxInstallStoreError}
    {Ok : Phase → op.Value → Prop} {Err : Phase → Prop}
    (hallowed : Allowed bundle publisher g.toProgress ⟨site, op⟩)
    (hok : ∀ v, Ok ((installProtocol store bundle publisher).advance g ⟨site, op⟩ (.ok v)) v)
    (herror : ∀ e, Err ((installProtocol store bundle publisher).advance g ⟨site, op⟩ (.error e))) :
    (installProtocol store bundle publisher).Meets Ok Err g (call site op wrap) :=
  Meets.attempt (P := installProtocol store bundle publisher) hallowed hok herror

theorem meets_request {site : Site} {op : Op} {Ok : Phase → Except op.Error op.Value → Prop}
    {Err : Phase → Prop} (hallowed : Allowed bundle publisher g.toProgress ⟨site, op⟩)
    (hok : ∀ r, Ok ((installProtocol store bundle publisher).advance g ⟨site, op⟩ r) r) :
    (installProtocol store bundle publisher).Meets Ok Err g (request site op) :=
  Meets.reply (P := installProtocol store bundle publisher) hallowed hok

theorem meets_bindRequest {β : Type} {site : Site} {op : Op} {Ok : Phase → β → Prop}
    {Err : Phase → Prop} {f : Except op.Error op.Value → Installation β}
    (hallowed : Allowed bundle publisher g.toProgress ⟨site, op⟩)
    (hf : ∀ r, (installProtocol store bundle publisher).Meets Ok Err
      ((installProtocol store bundle publisher).advance g ⟨site, op⟩ r) (f r)) :
    (installProtocol store bundle publisher).Meets Ok Err g (request site op >>= f) := by
  let Mid : Phase → Except op.Error op.Value → Prop := fun g' r =>
    g' = (installProtocol store bundle publisher).advance g ⟨site, op⟩ r
  have hrequest : (installProtocol store bundle publisher).Meets Mid Err g (request site op) :=
    meets_request hallowed fun _ => rfl
  apply Meets.bind hrequest
  intro g' r hg
  subst hg
  exact hf r

/-! ## Quiet calls -/

theorem record_of_plain {f : Faults} {site : Site} {op : Op} (hsite : site.plain = true)
    (hremove : ∀ path, op ≠ .removeFile path) (r : Reply ⟨site, op⟩) :
    f.record store ⟨site, op⟩ r = f := by
  have hmarks : lockRefused ⟨site, op⟩ r = false ∧ stagingRefused store ⟨site, op⟩ r = false ∧
      probed ⟨site, op⟩ r = false ∧
      probeFound ⟨site, op⟩ r = false := by
    cases site with
    | lock =>
        cases op with
        | removeFile path => exact absurd rfl (hremove path)
        | _ => exact ⟨rfl, rfl, rfl, rfl⟩
    | lockCheck => cases hsite
    | stagingCheck => cases hsite
    | staging => cases hsite
    | cleanup => cases hsite
    | _ => exact ⟨rfl, rfl, rfl, rfl⟩
  obtain ⟨hlock, hstaging, hprobed, hfound⟩ := hmarks
  simp only [Faults.record, hlock, hstaging, hprobed, hfound, Bool.or_false]

theorem advance_of_plain {site : Site} {op : Op} (hsite : site.plain = true)
    (hremove : ∀ path, op ≠ .removeFile path) {r : Reply ⟨site, op⟩} {p : Progress}
    (hmove : g.toProgress.move ⟨site, op⟩ r = p) :
    (installProtocol store bundle publisher).advance g ⟨site, op⟩ r = { g with toProgress := p } := by
  show (⟨g.toProgress.move ⟨site, op⟩ r, g.faults.record store ⟨site, op⟩ r⟩ : Phase) = _
  rw [hmove, record_of_plain hsite hremove]

theorem advance_of_looks {site : Site} {op : Op} (hlooks : op.Looks) (hsite : site.plain = true)
    (r : Reply ⟨site, op⟩) :
    (installProtocol store bundle publisher).advance g ⟨site, op⟩ r = g := by
  have hremove : ∀ path, op ≠ .removeFile path := by
    intro path heq
    subst heq
    cases hlooks
  exact advance_of_plain hsite hremove (move_of_looks hlooks r)

theorem quiet_call {site : Site} {op : Op} {wrap : op.Error → LinuxInstallStoreError}
    (hlooks : op.Looks) (hsite : site.plain = true) :
    (installProtocol store bundle publisher).Quiet g (call site op wrap) :=
  meets_call (.look hlooks) (fun _ => advance_of_looks hlooks hsite _)
    fun _ => advance_of_looks hlooks hsite _

theorem quiet_request {site : Site} {op : Op} (hlooks : op.Looks) (hsite : site.plain = true) :
    (installProtocol store bundle publisher).Quiet g (request site op) :=
  meets_request (.look hlooks) fun r => advance_of_looks hlooks hsite r

theorem quiet_syncDirectory {site : Site} {directory : Path} (hsite : site.plain = true) :
    (installProtocol store bundle publisher).Quiet g (syncDirectory site directory) :=
  quiet_call (.syncDirectory directory) hsite

/-! ## Checks -/

theorem quiet_ensureStoreRoot :
    (installProtocol store bundle publisher).Quiet g (ensureStoreRoot store) :=
  (quiet_call (.symlinkMetadata []) rfl).bind fun _ => Quiet.throwIf

theorem quiet_verifyPrivateDirectory {site : Site} {directory : Path} (hsite : site.plain = true) :
    (installProtocol store bundle publisher).Quiet g
      (verifyPrivateDirectory store site directory) :=
  (quiet_call (.symlinkMetadata directory) hsite).bind fun _ => Quiet.throwIf

theorem quiet_verifyPrivateFile {site : Site} {path : Path} (hsite : site.plain = true) :
    (installProtocol store bundle publisher).Quiet g (verifyPrivateFile store site path) :=
  (quiet_call (.symlinkMetadata path) hsite).bind fun _ => Quiet.throwIf

theorem quiet_verifyInstalledPathPermissions {site : Site} {root : Path} {path : BundlePath}
    (hsite : site.plain = true) : (installProtocol store bundle publisher).Quiet g
      (verifyInstalledPathPermissions store site root path) :=
  (Quiet.forM fun _ _ => quiet_verifyPrivateDirectory hsite).bind fun _ =>
    quiet_verifyPrivateFile hsite

theorem quiet_verifyInstallationPermissions {site : Site} {root : Path}
    (hsite : site.plain = true) : (installProtocol store bundle publisher).Quiet g
      (verifyInstallationPermissions store site root bundle) := by
  have hfiles : (installProtocol store bundle publisher).Quiet g (bundle.files.forM fun file =>
      verifyInstalledPathPermissions store site root file.path) :=
    Quiet.forM fun _ _ => quiet_verifyInstalledPathPermissions hsite
  unfold verifyInstallationPermissions
  apply Quiet.bind (quiet_verifyPrivateDirectory hsite)
  intro _
  apply Quiet.bind hfiles
  intro _
  exact quiet_verifyInstalledPathPermissions hsite

theorem quiet_pathExistsNoFollow {path : Path} :
    (installProtocol store bundle publisher).Quiet g (pathExistsNoFollow path) := by
  apply (quiet_request (.symlinkMetadata path) rfl).bind
  intro r
  cases r with
  | ok metadata => exact Quiet.pure
  | error e =>
      cases e with
      | notFound => exact Quiet.pure
      | alreadyExists => exact Quiet.throw
      | other => exact Quiet.throw

theorem quiet_ensurePrivateDirectory {site : Site} {directory : Path}
    (hsite : site = .store ∨ site = .tree)
    (hcreate : ∀ mode, Allowed bundle publisher g.toProgress ⟨site, .createDir directory mode⟩)
    (hprotect : ∀ mode,
      Allowed bundle publisher g.toProgress ⟨site, .setPermissions directory mode⟩) :
    (installProtocol store bundle publisher).Quiet g
      (ensurePrivateDirectory store site directory) := by
  have hplain : site.plain = true := by
    rcases hsite with rfl | rfl <;> rfl
  have hcreated : (installProtocol store bundle publisher).Quiet g
      (call site (.createDir directory privateDirectoryMode) fun _ => .io) := by
    have hmove : ∀ r, (installProtocol store bundle publisher).advance g
        ⟨site, .createDir directory privateDirectoryMode⟩ r = g := by
      intro r
      apply advance_of_plain hplain (by simp)
      rcases hsite with rfl | rfl <;> rfl
    exact meets_call (hcreate _) (fun _ => hmove _) fun _ => hmove _
  have hprotected : (installProtocol store bundle publisher).Quiet g
      (call site (.setPermissions directory privateDirectoryMode) fun _ => .io) := by
    have hmove : ∀ r, (installProtocol store bundle publisher).advance g
        ⟨site, .setPermissions directory privateDirectoryMode⟩ r = g := by
      intro r
      apply advance_of_plain hplain (by simp)
      rcases hsite with rfl | rfl <;> rfl
    exact meets_call (hprotect _) (fun _ => hmove _) fun _ => hmove _
  apply (quiet_request (.symlinkMetadata directory) hplain).bind
  intro r
  cases r with
  | ok metadata => exact Quiet.throwIf
  | error e =>
      cases e with
      | notFound =>
          apply hcreated.bind
          intro _
          apply hprotected.bind
          intro _
          apply (quiet_call (.symlinkMetadata directory) hplain).bind
          intro _
          exact Quiet.throwIf.bind fun _ => quiet_syncDirectory hplain
      | alreadyExists => exact Quiet.throw
      | other => exact Quiet.throw

theorem quiet_ensureInternalDirectory {directory : Path} (hinternal : directory.length = 1) :
    (installProtocol store bundle publisher).Quiet g
      (ensurePrivateDirectory store .store directory) :=
  quiet_ensurePrivateDirectory (.inl rfl) (fun mode => .createInternal mode hinternal)
    fun mode => .protectInternal mode hinternal

/-! ## Work in the quarantine directory -/

/-- Every listed directory lies below `root`, on the way to `rest`. -/
theorem directoriesFrom_prefix {root rest d : Path} (h : d ∈ directoriesFrom root rest) :
    ∃ pre, pre <+: rest ∧ d = root ++ pre := by
  induction rest generalizing root with
  | nil => cases h
  | cons component rest ih =>
      rcases List.mem_cons.mp h with rfl | htail
      · exact ⟨[component], ⟨rest, rfl⟩, rfl⟩
      · obtain ⟨pre, hpre, rfl⟩ := ih htail
        refine ⟨component :: pre, List.cons_prefix_cons.mpr ⟨rfl, hpre⟩, ?_⟩
        rw [List.append_assoc]
        rfl

theorem isContentDirectory_of_prefix {path : BundlePath} (hpath : path ∈ contentPaths bundle)
    {pre : Path} (hpre : pre <+: (components path).dropLast) : IsContentDirectory bundle pre := by
  refine ⟨path, hpath, hpre.trans (List.dropLast_prefix _), fun heq => ?_⟩
  have hlength := hpre.length_le
  have hpos := List.length_pos_iff.mpr (components_ne_nil path)
  rw [heq, List.length_dropLast] at hlength
  omega

theorem quiet_ensureRelativeDirectories {attempt : Nat} {opened : Option Path}
    {written : List (Path × Bytes)} {path : BundlePath} (hpath : path ∈ contentPaths bundle)
    (hheld : g.lock = .held)
    (hstage : g.stage = .tree (stagingPath bundle.subject attempt) opened written) :
    (installProtocol store bundle publisher).Quiet g
      (ensureRelativeDirectories store (stagingPath bundle.subject attempt)
        (stagingPath bundle.subject attempt ++ components path).dropLast) := by
  unfold ensureRelativeDirectories
  split
  · apply Quiet.forM
    intro d hd
    rw [List.dropLast_append_of_ne_nil (components_ne_nil path), List.drop_left] at hd
    obtain ⟨pre, hpre, rfl⟩ := directoriesFrom_prefix hd
    have hdirectory := isContentDirectory_of_prefix hpath hpre
    exact quiet_ensurePrivateDirectory (.inr rfl)
      (fun mode => .createDirectory attempt pre mode hheld hstage hdirectory)
      fun mode => .protect .tree attempt pre mode hheld hstage
  · exact Quiet.throw

/-- The phase `g` with another stage. -/
def Phase.staged (g : Phase) (stage : Stage) : Phase := { g with stage := stage }

/-- `g` up to what has happened in a quarantine directory that is still there. -/
def Phase.LiveStage (g : Phase) (root : Path) (g' : Phase) : Prop :=
  ∃ stage, stage.liveAt = some root ∧ g' = g.staged stage

theorem Phase.LiveStage.tree (g : Phase) (root : Path) (opened : Option Path)
    (written : List (Path × Bytes)) : g.LiveStage root (g.staged (.tree root opened written)) :=
  ⟨_, rfl, rfl⟩

theorem advance_tree {op : Op} (hremove : ∀ path, op ≠ .removeFile path)
    {r : Reply ⟨.tree, op⟩} {stage stage' : Stage}
    (hmove : (g.staged stage).toProgress.move ⟨.tree, op⟩ r = (g.staged stage').toProgress) :
    (installProtocol store bundle publisher).advance (g.staged stage) ⟨.tree, op⟩ r =
      g.staged stage' :=
  advance_of_plain rfl hremove hmove

section

variable {attempt : Nat} {written : List (Path × Bytes)} {rest : Path}

theorem meets_createFile {wrap : IoError → LinuxInstallStoreError} (hheld : g.lock = .held) :
    (installProtocol store bundle publisher).Meets
      (fun g' _ => g' = g.staged (.tree (stagingPath bundle.subject attempt) (some rest) written))
      (g.LiveStage (stagingPath bundle.subject attempt))
      (g.staged (.tree (stagingPath bundle.subject attempt) none written))
      (call .tree (.createNew (stagingPath bundle.subject attempt ++ rest) privateFileMode)
        wrap) := by
  apply meets_call
  · exact .createFile attempt rest _ hheld rfl
  · intro _
    apply advance_tree (by simp)
    show Progress.mk g.lock (.tree _ (some (List.drop _ _)) written) _ _ _ = _
    rw [List.drop_left]
    rfl
  · intro _
    exact ⟨_, rfl, advance_tree (by simp) rfl⟩

theorem meets_writeAll {bytes : Bytes} {wrap : IoError → LinuxInstallStoreError}
    (hheld : g.lock = .held) :
    (installProtocol store bundle publisher).Meets
      (fun g' _ => g' = g.staged (.tree (stagingPath bundle.subject attempt) none
        (written ++ [(rest, bytes)])))
      (g.LiveStage (stagingPath bundle.subject attempt))
      (g.staged (.tree (stagingPath bundle.subject attempt) (some rest) written))
      (call .tree (.writeAll (stagingPath bundle.subject attempt ++ rest) bytes) wrap) := by
  apply meets_call
  · exact .writeFile attempt rest _ hheld rfl
  · intro _
    apply advance_tree (by simp)
    show Progress.mk g.lock (.tree _ none (written ++ [(List.drop _ _, bytes)])) _ _ _ = _
    rw [List.drop_left]
    rfl
  · intro _
    exact ⟨.tainted _, rfl, advance_tree (by simp) rfl⟩

theorem quiet_protect {opened : Option Path} {wrap : IoError → LinuxInstallStoreError}
    (hheld : g.lock = .held) :
    (installProtocol store bundle publisher).Quiet
      (g.staged (.tree (stagingPath bundle.subject attempt) opened written))
      (call .tree (.setPermissions (stagingPath bundle.subject attempt ++ rest) privateFileMode)
        wrap) := by
  apply meets_call
  · exact .protect .tree attempt rest _ hheld rfl
  · intro _
    exact advance_tree (by simp) rfl
  · intro _
    exact advance_tree (by simp) rfl

end

theorem meets_materializeFile {attempt : Nat} {written : List (Path × Bytes)} {path : BundlePath}
    {bytes : Bytes} (hpath : path ∈ contentPaths bundle) (hheld : g.lock = .held) :
    (installProtocol store bundle publisher).Meets
      (fun g' _ => g' = g.staged (.tree (stagingPath bundle.subject attempt) none
        (written ++ [(components path, bytes)])))
      (g.LiveStage (stagingPath bundle.subject attempt))
      (g.staged (.tree (stagingPath bundle.subject attempt) none written))
      (materializeFile store (stagingPath bundle.subject attempt) path bytes) := by
  dsimp only [materializeFile]
  have hdirectories : (installProtocol store bundle publisher).Quiet
      (g.staged (.tree (stagingPath bundle.subject attempt) none written))
      (ensureRelativeDirectories store (stagingPath bundle.subject attempt)
        (stagingPath bundle.subject attempt ++ components path).dropLast) :=
    quiet_ensureRelativeDirectories hpath hheld rfl
  apply Quiet.followed hdirectories (.tree ..)
  intro _
  apply Meets.bind (meets_createFile hheld)
  intro _ _ hg
  subst hg
  apply Meets.bind (meets_writeAll hheld)
  intro _ _ hg
  subst hg
  apply Quiet.followed (quiet_call (.syncAll _) rfl) (.tree ..)
  intro _
  apply Quiet.followed (quiet_protect hheld) (.tree ..)
  intro _
  apply Quiet.followed (quiet_call (.fileMetadata _) rfl) (.tree ..)
  intro _
  apply Quiet.followed Quiet.throwIf (.tree ..)
  intro _
  exact Quiet.meets (quiet_syncDirectory rfl) (fun _ => rfl) (.tree ..)

/-! ## Staging and re-verification -/

theorem installedFiles_eq_ok {record : Bytes}
    (h : installationRecordBytes bundle publisher = .ok record) :
    installedFiles bundle publisher =
      .ok (bundleContents bundle ++ [(components installationRecordPath, record)]) := by
  rw [installedFiles, h]
  rfl

theorem meets_materializeFiles {attempt : Nat} (hheld : g.lock = .held) :
    (installProtocol store bundle publisher).Meets
      (fun g' _ => g' = g.staged (.tree (stagingPath bundle.subject attempt) none
        (bundleContents bundle)))
      (g.LiveStage (stagingPath bundle.subject attempt))
      (g.staged (.tree (stagingPath bundle.subject attempt) none []))
      (bundle.files.forM fun file =>
        materializeFile store (stagingPath bundle.subject attempt) file.path file.bytes) := by
  let Inv : List VerifiedFile → Phase → Prop := fun rest g' => ∃ done, bundle.files = done ++ rest ∧
    g' = g.staged (.tree (stagingPath bundle.subject attempt) none
      (done.map fun file => (components file.path, file.bytes)))
  have hloop : (installProtocol store bundle publisher).Meets (fun g' _ => Inv [] g')
      (g.LiveStage (stagingPath bundle.subject attempt))
      (g.staged (.tree (stagingPath bundle.subject attempt) none []))
      (bundle.files.forM fun file =>
        materializeFile store (stagingPath bundle.subject attempt) file.path file.bytes) := by
    have hstart : Inv bundle.files
        (g.staged (.tree (stagingPath bundle.subject attempt) none [])) := ⟨[], rfl, rfl⟩
    apply Meets.forM hstart
    intro g' file rest hfile hinv
    obtain ⟨done, hdone, rfl⟩ := hinv
    have hpath : file.path ∈ contentPaths bundle :=
      List.mem_append_left _ (List.mem_map_of_mem hfile)
    apply Meets.mono _ (fun _ h => h) (meets_materializeFile hpath hheld)
    intro g' _ hg
    refine ⟨done ++ [file], by simp [hdone], ?_⟩
    rw [hg, List.map_append]
    rfl
  apply Meets.mono _ (fun _ h => h) hloop
  intro g' _ hinv
  obtain ⟨done, hdone, hg⟩ := hinv
  rw [List.append_nil] at hdone
  rw [hg, ← hdone]
  rfl

theorem quiet_readStaged {wrap : LocalCandidateError → LinuxInstallStoreError} (root : Path)
    (path : BundlePath) (maximum : Nat) :
    (installProtocol store bundle publisher).Quiet g
      (call .tree (.readExactWithLimit root path maximum) wrap) :=
  meets_call (.readStaged root path maximum) (fun _ => advance_of_plain rfl (by simp) rfl)
    fun _ => advance_of_plain rfl (by simp) rfl

theorem meets_stageBundle {attempt : Nat} (hheld : g.lock = .held) :
    (installProtocol store bundle publisher).Meets
      (fun g' _ => ∃ files, installedFiles bundle publisher = .ok files ∧
        g' = g.staged (.tree (stagingPath bundle.subject attempt) none files))
      (g.LiveStage (stagingPath bundle.subject attempt))
      (g.staged (.tree (stagingPath bundle.subject attempt) none []))
      (stageBundle store (stagingPath bundle.subject attempt) bundle publisher) := by
  have hrecordPath : installationRecordPath ∈ contentPaths bundle :=
    List.mem_append_right _ List.mem_cons_self
  unfold stageBundle
  apply Quiet.followed (quiet_verifyPrivateDirectory rfl) (.tree ..)
  intro _
  apply Meets.bind (meets_materializeFiles hheld)
  intro _ _ hg
  subst hg
  apply Quiet.followed (quiet_syncDirectory rfl) (.tree ..)
  intro _
  apply Quiet.followed Quiet.ofExcept (.tree ..)
  intro manifest
  apply Quiet.followed (quiet_call (.openSource _) rfl) (.tree ..)
  intro _
  apply Quiet.followed (quiet_call (.load _ _ _) rfl) (.tree ..)
  intro candidates
  apply Quiet.followed Quiet.ofExcept (.tree ..)
  intro _
  apply Meets.bindExcept (.tree ..)
  intro record hrecord
  apply Meets.bind (meets_materializeFile hrecordPath hheld)
  intro _ _ hg
  subst hg
  apply Quiet.followed (quiet_readStaged _ _ _) (.tree ..)
  intro persisted
  apply Quiet.followed Quiet.throwIf (.tree ..)
  intro _
  apply Quiet.followed (quiet_verifyInstallationPermissions rfl) (.tree ..)
  intro _
  exact Quiet.meets (quiet_syncDirectory rfl)
    (fun _ => ⟨_, installedFiles_eq_ok hrecord, rfl⟩) (.tree ..)

/-- The phase `g` after reading a record at the subject root. -/
def Phase.saw (g : Phase) (seen : Option Bytes) : Phase := { g with seen := seen }

/-- `g` up to what has been read at the subject root. -/
def Phase.Saw (g g' : Phase) : Prop := ∃ seen, g' = g.saw seen

theorem meets_readRecord {wrap : LocalCandidateError → LinuxInstallStoreError} (maximum : Nat) :
    (installProtocol store bundle publisher).Meets (fun g' bytes => g' = g.saw (some bytes))
      g.Saw g
      (call .target
        (.readExactWithLimit (subjectRoot bundle.subject) installationRecordPath maximum) wrap) :=
  meets_call (.readRecord maximum) (fun _ => advance_of_plain rfl (by simp) rfl)
    fun _ => ⟨g.seen, advance_of_plain rfl (by simp) rfl⟩

theorem meets_matchesInstallation :
    (installProtocol store bundle publisher).Meets
      (fun g' _ => ∃ record, installationRecordBytes bundle publisher = .ok record ∧
        g' = g.saw (some record))
      g.Saw g
      (matchesInstallation store (subjectRoot bundle.subject) bundle publisher) := by
  have hsame : g.Saw g := ⟨g.seen, rfl⟩
  unfold matchesInstallation
  apply Quiet.followed (quiet_verifyInstallationPermissions rfl) hsame
  intro _
  apply Quiet.followed Quiet.ofExcept hsame
  intro manifest
  apply Quiet.followed (quiet_call (.openSource _) rfl) hsame
  intro _
  apply Quiet.followed (quiet_call (.load _ _ _) rfl) hsame
  intro candidates
  apply Quiet.followed Quiet.ofExcept hsame
  intro _
  apply Meets.bind (meets_readRecord _)
  intro _ actualRecord hg
  subst hg
  apply Meets.bindExcept ⟨_, rfl⟩
  intro expectedRecord hrecord
  apply Meets.bindThrowIf (fun _ => ⟨_, rfl⟩)
  intro heq
  have hsame : actualRecord = expectedRecord := not_not.mp heq
  exact Quiet.meets (quiet_verifyInstallationPermissions rfl) (fun _ => ⟨_, hsame ▸ hrecord, rfl⟩)
    ⟨_, rfl⟩

theorem meets_verifyExistingInstallation :
    (installProtocol store bundle publisher).Meets
      (fun g' _ => ∃ record, installationRecordBytes bundle publisher = .ok record ∧
        g' = g.saw (some record))
      g.Saw g
      (verifyExistingInstallation store (subjectRoot bundle.subject) bundle publisher) :=
  Meets.mapError meets_matchesInstallation

/-! ## The quarantine directory -/

/-- The lock is held and nothing else has happened. -/
def Phase.acquired : Phase := ⟨⟨.held, .none, false, none, false⟩, .start⟩

/-- Something of the installation is left in the store, beside the lock. -/
def Phase.Left (g : Phase) : Prop := g.stage.liveAt.isSome = true ∨ g.promoted = true

/-- A fault that leaves something in the store, beside the lock, has been met. -/
def Phase.Faulty (g : Phase) : Prop :=
  g.faults.staging = true ∨ (g.faults.probed = true ∧ g.faults.found = false) ∨ g.promoted = true

/-- A failure under the lock: what is left is accounted for by a fault. -/
structure Phase.BalancedLocked (g : Phase) : Prop where
  held : g.lock = .held
  guarded : g.faults.lock = false
  balanced : g.stuck = true ∨ (g.Left ↔ g.Faulty)

/-- A failure whose cleanup is still to come. -/
structure Phase.Cleanable (directory : Path) (g : Phase) : Prop where
  held : g.lock = .held
  guarded : g.faults.lock = false
  created : g.faults.staging = false
  root : g.stage.root = some directory
  state : g.stuck = true ∨ g.promoted = true ∨
    (g.stage.liveAt = some directory ∧ g.faults.found = false) ∨
    (g.stage.liveAt = none ∧ g.faults.found = true)

theorem Phase.Cleanable.balanced {root : Path} (h : g.Cleanable root)
    (hprobed : g.faults.probed = true) : g.BalancedLocked := by
  refine ⟨h.held, h.guarded, ?_⟩
  have hcreated := h.created
  rcases h.state with hremoval | hpromoted | ⟨hlive, hfound⟩ | ⟨hlive, hfound⟩
  · exact .inl hremoval
  · exact .inr ⟨fun _ => .inr (.inr hpromoted), fun _ => .inr hpromoted⟩
  · refine .inr ⟨fun _ => .inr (.inl ⟨hprobed, hfound⟩), fun _ => .inl ?_⟩
    rw [hlive]
    rfl
  · right
    simp [Phase.Left, Phase.Faulty, hlive, hfound, hcreated]

theorem Phase.Cleanable.saw {root : Path} {g' : Phase} (h : g.Cleanable root) (hsaw : g.Saw g') :
    g'.Cleanable root := by
  obtain ⟨seen, rfl⟩ := hsaw
  exact ⟨h.held, h.guarded, h.created, h.root, h.state⟩

theorem Phase.Cleanable.of_liveStage {root : Path} (h : Phase.acquired.LiveStage root g) :
    g.Cleanable root := by
  obtain ⟨stage, hlive, rfl⟩ := h
  refine ⟨rfl, rfl, rfl, ?_, .inr (.inr (.inl ⟨hlive, rfl⟩))⟩
  cases stage with
  | none => cases hlive
  | gone path => cases hlive
  | tree path opened written => exact hlive
  | tainted path => exact hlive

theorem advance_probe {path : Path} (r : Reply ⟨.cleanup, .symlinkMetadata path⟩) :
    (installProtocol store bundle publisher).advance g ⟨.cleanup, .symlinkMetadata path⟩ r =
      { g with faults := { g.faults with
          probed := true
          found := g.faults.found || (r matches .ok _) } } := by
  cases r <;> simp [installProtocol, Progress.move, Faults.record, lockRefused, stagingRefused,
    probed, probeFound]

theorem advance_removed {path : Path} (v : Unit) :
    (installProtocol store bundle publisher).advance g ⟨.cleanup, .removeDirAll path⟩ (.ok v) =
      { g with stage := g.stage.discard } := by
  simp [installProtocol, Progress.move, Faults.record, lockRefused, stagingRefused,
    probed, probeFound]

theorem advance_removalFailed {path : Path} (e : IoError) :
    (installProtocol store bundle publisher).advance g ⟨.cleanup, .removeDirAll path⟩ (.error e) =
      { g with stage := g.stage.taint, stuck := g.stuck || g.stage.liveAt.isSome } := by
  simp [installProtocol, Progress.move, Faults.record, lockRefused, stagingRefused,
    probed, probeFound]

theorem meets_cleanupStaging {attempt : Nat}
    (hg : g.Cleanable (stagingPath bundle.subject attempt)) :
    (installProtocol store bundle publisher).Meets
      (fun g' _ => g'.Cleanable (stagingPath bundle.subject attempt) ∧ g'.faults.probed = true)
      (fun _ => False) g (cleanupStaging (stagingPath bundle.subject attempt)) := by
  obtain ⟨hheld, hguarded, hcreated, hroot, hstate⟩ := hg
  unfold cleanupStaging
  apply meets_bindRequest (.look (.symlinkMetadata _))
  intro r
  rw [advance_probe]
  cases r with
  | ok metadata =>
      apply meets_bindRequest
      · exact .removeStaging attempt hheld hroot
      · intro r
        apply Meets.pure
        cases r with
        | ok v =>
            rw [advance_removed]
            exact ⟨⟨hheld, hguarded, hcreated, by simpa using hroot, by simp⟩, rfl⟩
        | error e =>
            rw [advance_removalFailed]
            refine ⟨⟨hheld, hguarded, hcreated, by simpa using hroot, ?_⟩, rfl⟩
            cases hlive : g.stage.liveAt with
            | none => exact .inr (.inr (.inr ⟨by simpa using hlive, by simp⟩))
            | some directory => exact .inl (by simp)
  | error e =>
      apply Meets.pure
      exact ⟨⟨hheld, hguarded, hcreated, hroot, by simpa using hstate⟩, rfl⟩

/-- A failure between the creation of the quarantine directory and its use. -/
theorem balancedLocked_of_stagingFault {attempt : Nat} {written : List (Path × Bytes)} :
    Phase.BalancedLocked { Phase.acquired.staged
        (.tree (stagingPath bundle.subject attempt) none written) with
      faults := { Faults.start with staging := true } } :=
  ⟨rfl, rfl, .inr ⟨fun _ => .inl rfl, fun _ => .inl rfl⟩⟩

theorem balancedLocked_acquired : Phase.acquired.BalancedLocked := by
  refine ⟨rfl, rfl, .inr ?_⟩
  simp [Phase.Left, Phase.Faulty, Phase.acquired, Stage.liveAt, Faults.start]

theorem meets_stagingCheck {site : Site} {op : Op} {attempt : Nat}
    {wrap : op.Error → LinuxInstallStoreError} (hsite : site = .stagingCheck)
    (hop : (∃ mode, op = .setPermissions (stagingPath bundle.subject attempt) mode) ∨
      op = .syncDirectory stagingDirectory) :
    (installProtocol store bundle publisher).Meets
      (fun g' _ => g' = Phase.acquired.staged (.tree (stagingPath bundle.subject attempt) none []))
      Phase.BalancedLocked
      (Phase.acquired.staged (.tree (stagingPath bundle.subject attempt) none []))
      (call site op wrap) := by
  subst hsite
  rcases hop with ⟨mode, rfl⟩ | rfl
  · apply meets_call
    · have hprotect : Allowed bundle publisher _ _ := Allowed.protect .stagingCheck attempt [] mode
        (p := (Phase.acquired.staged
          (.tree (stagingPath bundle.subject attempt) none [])).toProgress) rfl rfl
      rwa [List.append_nil] at hprotect
    · exact fun _ => rfl
    · exact fun _ => balancedLocked_of_stagingFault
  · apply meets_call (.look (.syncDirectory _))
    · exact fun _ => rfl
    · exact fun _ => balancedLocked_of_stagingFault

theorem meets_verifyStaging {attempt : Nat} :
    (installProtocol store bundle publisher).Meets
      (fun g' _ => g' = Phase.acquired.staged (.tree (stagingPath bundle.subject attempt) none []))
      Phase.BalancedLocked
      (Phase.acquired.staged (.tree (stagingPath bundle.subject attempt) none []))
      (verifyPrivateDirectory store .stagingCheck (stagingPath bundle.subject attempt)) := by
  let Mid : Phase → Metadata → Prop := fun g' metadata =>
    (safePrivateDirectory metadata store.rootDevice = true ∧
      g' = Phase.acquired.staged (.tree (stagingPath bundle.subject attempt) none [])) ∨
    (safePrivateDirectory metadata store.rootDevice = false ∧ g'.BalancedLocked)
  have hmetadata : (installProtocol store bundle publisher).Meets Mid Phase.BalancedLocked
      (Phase.acquired.staged (.tree (stagingPath bundle.subject attempt) none []))
      (call .stagingCheck (.symlinkMetadata (stagingPath bundle.subject attempt))
        fun _ => .storePathUnsafe) := by
    apply meets_call (.look (.symlinkMetadata _))
    · intro metadata
      cases hsafe : safePrivateDirectory metadata store.rootDevice with
      | true =>
          left
          refine ⟨hsafe, ?_⟩
          simp [installProtocol, Progress.move, Faults.record, lockRefused, stagingRefused,
            probed, probeFound, hsafe]
      | false =>
          right
          refine ⟨hsafe, rfl, rfl, .inr ⟨fun _ => .inl ?_, fun _ => .inl rfl⟩⟩
          simp [installProtocol, Faults.record, stagingRefused, hsafe]
    · exact fun _ => balancedLocked_of_stagingFault
  apply Meets.bind hmetadata
  intro g' metadata hg
  apply Meets.throwIf
  · intro hsafe
    rcases hg with ⟨_, hg⟩ | ⟨hexposed, _⟩
    · exact hg
    · exact absurd hexposed hsafe
  · intro hexposed
    rcases hg with ⟨hsafe, _⟩ | ⟨_, hbalanced⟩
    · rw [hexposed] at hsafe
      cases hsafe
    · exact hbalanced

theorem meets_tryStaging {attempts : List Nat} :
    (installProtocol store bundle publisher).Meets
      (fun g' path => ∃ attempt, path = stagingPath bundle.subject attempt ∧
        g' = Phase.acquired.staged (.tree path none []))
      Phase.BalancedLocked Phase.acquired (tryStaging store bundle.subject attempts) := by
  induction attempts with
  | nil => exact Meets.throw balancedLocked_acquired
  | cons attempt attempts ih =>
      apply meets_bindRequest (.createStaging attempt _ rfl rfl)
      intro r
      cases r with
      | ok _ =>
          apply Meets.bind (meets_stagingCheck rfl (.inl ⟨_, rfl⟩))
          intro _ _ hg
          subst hg
          apply Meets.bind meets_verifyStaging
          intro _ _ hg
          subst hg
          apply Meets.bind (meets_stagingCheck rfl (.inr rfl))
          intro _ _ hg
          subst hg
          exact Meets.pure ⟨attempt, rfl, rfl⟩
      | error e =>
          cases e with
          | alreadyExists => exact ih
          | notFound => exact Meets.throw balancedLocked_acquired
          | other => exact Meets.throw balancedLocked_acquired

theorem meets_createStaging :
    (installProtocol store bundle publisher).Meets
      (fun g' path => ∃ attempt, path = stagingPath bundle.subject attempt ∧
        g' = Phase.acquired.staged (.tree path none []))
      Phase.BalancedLocked Phase.acquired (createStaging store bundle.subject) :=
  (quiet_ensureInternalDirectory rfl).followed balancedLocked_acquired fun _ => meets_tryStaging

/-! ## Promotion -/

/-- What a receipt rests on. -/
structure Phase.Received (bundle : VerifiedBundle) (publisher : Option AuthorizedPublisher)
    (g : Phase) (installed : InstalledBundle) : Prop where
  record : ∃ record, installationRecordBytes bundle publisher = .ok record ∧
    g.seen = some record
  receipt : installed = receipt bundle (subjectRoot bundle.subject) installed.reused
  fresh : installed.reused = false → g.promoted = true

theorem meets_promote {attempt : Nat} {files : List (Path × Bytes)}
    (hfiles : installedFiles bundle publisher = .ok files) :
    (installProtocol store bundle publisher).Meets
      (fun g' installed => g'.lock = .held ∧ g'.Received bundle publisher installed)
      (Phase.Cleanable (stagingPath bundle.subject attempt))
      (Phase.acquired.staged (.tree (stagingPath bundle.subject attempt) none files))
      (promote store (stagingPath bundle.subject attempt) bundle publisher) := by
  have hclean : Phase.Cleanable (stagingPath bundle.subject attempt)
      (Phase.acquired.staged (.tree (stagingPath bundle.subject attempt) none files)) :=
    .of_liveStage (.tree ..)
  dsimp only [promote]
  apply Quiet.followed quiet_ensureStoreRoot hclean
  intro _
  apply Quiet.followed (quiet_ensureInternalDirectory rfl) hclean
  intro _
  apply meets_bindRequest (.promote attempt rfl rfl rfl hfiles)
  intro r
  cases r with
  | ok _ =>
      have hpromoted : Phase.Cleanable (stagingPath bundle.subject attempt)
          ((installProtocol store bundle publisher).advance
            (Phase.acquired.staged (.tree (stagingPath bundle.subject attempt) none files))
            ⟨.target, .rename (stagingPath bundle.subject attempt) (subjectRoot bundle.subject)⟩
            (.ok ())) :=
        ⟨rfl, rfl, rfl, rfl, .inr (.inl rfl)⟩
      apply Quiet.followed (quiet_syncDirectory rfl) hpromoted
      intro _
      apply Meets.bind
      · exact Meets.mono (fun _ _ h => h) (fun _ h => hpromoted.saw h)
          meets_verifyExistingInstallation
      · intro _ _ hg
        obtain ⟨record, hrecord, rfl⟩ := hg
        exact Meets.pure ⟨rfl, ⟨record, hrecord, rfl⟩, rfl, fun _ => rfl⟩
  | error e =>
      apply Quiet.followed quiet_pathExistsNoFollow hclean
      intro found
      cases found with
      | false => exact Meets.throw hclean
      | true =>
          apply Meets.bind
          · exact Meets.mono (fun _ _ h => h) (fun _ h => h.elim) (meets_cleanupStaging hclean)
          · intro g' _ hg
            obtain ⟨hcleaned, _⟩ := hg
            apply Meets.bind
            · exact Meets.mono (fun _ _ h => h) (fun _ h => hcleaned.saw h)
                meets_verifyExistingInstallation
            · intro _ _ hg
              obtain ⟨record, hrecord, rfl⟩ := hg
              exact Meets.pure ⟨hcleaned.held, ⟨record, hrecord, rfl⟩, rfl, fun h => by cases h⟩

theorem meets_installLocked :
    (installProtocol store bundle publisher).Meets
      (fun g' installed => g'.lock = .held ∧ g'.Received bundle publisher installed)
      Phase.BalancedLocked Phase.acquired (installLocked store bundle publisher) := by
  dsimp only [installLocked]
  apply Quiet.followed quiet_pathExistsNoFollow balancedLocked_acquired
  intro found
  cases found with
  | true =>
      apply Meets.bind
      · apply Meets.mono (fun _ _ h => h) _ meets_verifyExistingInstallation
        intro g' h
        obtain ⟨seen, rfl⟩ := h
        exact ⟨rfl, rfl, balancedLocked_acquired.balanced⟩
      · intro _ _ hg
        obtain ⟨record, hrecord, rfl⟩ := hg
        exact Meets.pure ⟨rfl, ⟨record, hrecord, rfl⟩, rfl, fun h => by cases h⟩
  | false =>
      apply Meets.bind meets_createStaging
      intro _ _ hg
      obtain ⟨attempt, rfl, rfl⟩ := hg
      apply Meets.onError
      · apply Meets.bind
        · exact Meets.mono (fun _ _ h => h) (fun _ h => Phase.Cleanable.of_liveStage h)
            (meets_stageBundle rfl)
        · intro _ _ hg
          obtain ⟨files, hfiles, rfl⟩ := hg
          exact meets_promote hfiles
      · intro g' hg
        exact Meets.mono (fun _ _ h => h.1.balanced h.2) (fun _ h => h.elim)
          (meets_cleanupStaging hg)

/-! ## The lock -/

/-- A failure: what is left, the lock included, is accounted for by a fault. -/
def Phase.Balanced (g : Phase) : Prop :=
  g.stuck = true ∨
    (g.lock = .held ∨ g.Left ↔ g.faults.lock = true ∨ g.Faulty)

theorem balanced_start : Phase.start.Balanced := by
  right
  simp [Phase.Left, Phase.Faulty, Phase.start, Progress.start, Stage.liveAt, Faults.start]

theorem advance_unlocked {path : Path} (v : Unit) :
    (installProtocol store bundle publisher).advance g ⟨.lock, .removeFile path⟩ (.ok v) =
      { g with lock := .released } := by
  simp [installProtocol, Progress.move, Faults.record, lockRefused, stagingRefused,
    probed, probeFound]

theorem advance_unlockFailed {path : Path} (e : IoError) :
    (installProtocol store bundle publisher).advance g ⟨.lock, .removeFile path⟩ (.error e) =
      { g with lock := .released, stuck := true } := by
  simp [installProtocol, Progress.move, Faults.record, lockRefused, stagingRefused,
    probed, probeFound]

/-- Whatever the removal of the lock answers, a balanced failure stays balanced. -/
theorem balanced_unlock (h : g.BalancedLocked)
    (r : Reply ⟨.lock, .removeFile (lockPath bundle.subject)⟩) :
    ((installProtocol store bundle publisher).advance g
      ⟨.lock, .removeFile (lockPath bundle.subject)⟩ r).Balanced := by
  cases r with
  | ok v =>
      rw [advance_unlocked]
      rcases h.balanced with hremoval | hbalanced
      · exact .inl hremoval
      · right
        show (Lock.released = .held ∨ g.Left ↔ g.faults.lock = true ∨ g.Faulty)
        rw [h.guarded]
        simpa using hbalanced
  | error e =>
      rw [advance_unlockFailed]
      exact .inl rfl

theorem meets_checkLockFile {metadata : Metadata} :
    (installProtocol store bundle publisher).Meets (fun g' _ => g' = Phase.acquired)
      Phase.Balanced Phase.acquired (checkLockFile store bundle.subject metadata) := by
  unfold checkLockFile
  split
  · apply meets_bindRequest (.removeLock rfl)
    intro r
    exact Meets.throw (balanced_unlock balancedLocked_acquired r)
  · exact Meets.pure rfl

/-- The lock file was created, and then an operation failed. -/
theorem balanced_of_lockFault :
    Phase.Balanced { Phase.acquired with faults := { Faults.start with lock := true } } :=
  .inr ⟨fun _ => .inl rfl, fun _ => .inl rfl⟩

theorem meets_acquireSubjectLock :
    (installProtocol store bundle publisher).Meets (fun g' _ => g' = Phase.acquired)
      Phase.Balanced Phase.start (acquireSubjectLock store bundle.subject) := by
  unfold acquireSubjectLock
  apply Quiet.followed (quiet_ensureInternalDirectory rfl) balanced_start
  intro _
  apply meets_bindRequest (.createLock _ rfl)
  intro r
  cases r with
  | ok _ =>
      have hcheck : ∀ {op : Op} {wrap : op.Error → LinuxInstallStoreError}, op.Looks →
          (∀ v, (installProtocol store bundle publisher).advance Phase.acquired
            ⟨.lockCheck, op⟩ (.ok v) = Phase.acquired) →
          (∀ e, (installProtocol store bundle publisher).advance Phase.acquired
            ⟨.lockCheck, op⟩ (.error e) =
              { Phase.acquired with faults := { Faults.start with lock := true } }) →
          (installProtocol store bundle publisher).Meets (fun g' _ => g' = Phase.acquired)
            Phase.Balanced Phase.acquired (call .lockCheck op wrap) := by
        intro op wrap hlooks hok herror
        apply meets_call (.look hlooks) hok
        intro e
        rw [herror]
        exact balanced_of_lockFault
      apply Meets.bind (hcheck (.syncAll _) (fun _ => rfl) fun _ => rfl)
      intro _ _ hg
      subst hg
      apply Meets.bind (hcheck (.fileMetadata _) (fun _ => rfl) fun _ => rfl)
      intro _ metadata hg
      subst hg
      apply Meets.bind meets_checkLockFile
      intro _ _ hg
      subst hg
      exact hcheck (.syncDirectory _) (fun _ => rfl) fun _ => rfl
  | error e =>
      cases e with
      | alreadyExists => exact Meets.throw balanced_start
      | notFound => exact Meets.throw balanced_start
      | other => exact Meets.throw balanced_start

theorem meets_dropSubjectLock {Ok : Phase → Prop} (hheld : g.lock = .held)
    (hok : ∀ r, Ok ((installProtocol store bundle publisher).advance g
      ⟨.lock, .removeFile (lockPath bundle.subject)⟩ r)) :
    (installProtocol store bundle publisher).Meets (fun g' _ => Ok g') Ok g
      (dropSubjectLock bundle.subject) := by
  unfold dropSubjectLock
  apply meets_bindRequest (.removeLock hheld)
  intro r
  apply Quiet.followed (quiet_request (.syncDirectory _) rfl) (hok r)
  intro _
  exact Meets.pure (hok r)

theorem received_unlock {installed : InstalledBundle} (h : g.Received bundle publisher installed)
    (r : Reply ⟨.lock, .removeFile (lockPath bundle.subject)⟩) :
    ((installProtocol store bundle publisher).advance g
      ⟨.lock, .removeFile (lockPath bundle.subject)⟩ r).Received bundle publisher installed := by
  cases r with
  | ok v =>
      rw [advance_unlocked]
      exact ⟨h.record, h.receipt, h.fresh⟩
  | error e =>
      rw [advance_unlockFailed]
      exact ⟨h.record, h.receipt, h.fresh⟩

/-! ## The whole installation -/

/-- Every installation makes allowed calls only, whatever they answer. A receipt rests on a
promotion or on the own record; a failure is balanced. -/
theorem meets_installBundleWithPublisher :
    (installProtocol store bundle publisher).Meets (Phase.Received bundle publisher)
      Phase.Balanced Phase.start (installBundleWithPublisher store bundle publisher) := by
  unfold installBundleWithPublisher
  apply Quiet.followed Quiet.throwIf balanced_start
  intro _
  apply Quiet.followed quiet_ensureStoreRoot balanced_start
  intro _
  apply Quiet.followed (quiet_ensureInternalDirectory rfl) balanced_start
  intro _
  apply Quiet.followed (quiet_ensureInternalDirectory rfl) balanced_start
  intro _
  apply Quiet.followed (quiet_ensureInternalDirectory rfl) balanced_start
  intro _
  apply Quiet.followed Quiet.throwIf balanced_start
  intro _
  apply Meets.bind meets_acquireSubjectLock
  intro _ _ hg
  subst hg
  apply Meets.guarded meets_installLocked
  · intro g' installed hg
    obtain ⟨hheld, hreceived⟩ := hg
    exact meets_dropSubjectLock hheld (received_unlock hreceived)
  · intro g' hg
    exact meets_dropSubjectLock hg.held (balanced_unlock hg)

end

end Invokrum.Install
