import Invokrum.Install.Store

/-!
# The installation protocol

What an installation has done so far, read off its calls and their replies:
whether it holds the subject lock, how far the quarantine directory is filled,
whether it has promoted, which record it has read at the subject root, whether
a removal has failed, and which faults it has met. `Allowed` says which calls
it may make then.
-/

namespace Invokrum.Install

open Programs Invokrum.Distribution Invokrum.Acquisition Invokrum.FileSystem
open Text (Bytes)

/-! ## Contents of an installed tree -/

def contentPaths (bundle : VerifiedBundle) : List BundlePath :=
  bundle.files.map (·.path) ++ [installationRecordPath]

/-- A directory on the way to a file of the bundle or to the record. -/
def IsContentDirectory (bundle : VerifiedBundle) (p : Path) : Prop :=
  ∃ path ∈ contentPaths bundle, p <+: components path ∧ p ≠ components path

def bundleContents (bundle : VerifiedBundle) : List (Path × Bytes) :=
  bundle.files.map fun file => (components file.path, file.bytes)

/-- The files of an installed tree. -/
def installedFiles (bundle : VerifiedBundle) (publisher : Option AuthorizedPublisher) :
    Except LinuxInstallStoreError (List (Path × Bytes)) := do
  let record ← installationRecordBytes bundle publisher
  pure (bundleContents bundle ++ [(components installationRecordPath, record)])

/-- The tree at `root` is exactly `files`, with the directories they need. -/
def IsInstalled (bundle : VerifiedBundle) (files : List (Path × Bytes)) (fs : Fs) (root : Path) :
    Prop :=
  Filled (IsContentDirectory bundle) (fs.below root) none files

/-! ## Phases -/

inductive Lock where
  | free
  | held
  | released
deriving DecidableEq

/-- The quarantine directory; paths in `opened` and `written` are relative to it. -/
inductive Stage where
  | none
  | tree (root : Path) (opened : Option Path) (written : List (Path × Bytes))
  | tainted (root : Path)
  | gone (root : Path)
deriving DecidableEq

namespace Stage

/-- The quarantine directory is there. -/
def liveAt : Stage → Option Path
  | .tree root _ _ => some root
  | .tainted root => some root
  | _ => Option.none

def root : Stage → Option Path
  | .none => Option.none
  | .tree root _ _ => some root
  | .tainted root => some root
  | .gone root => some root

def opening (path : Path) : Stage → Stage
  | .tree root _ written => .tree root (some (path.drop root.length)) written
  | stage => stage

def wrote (path : Path) (bytes : Bytes) : Stage → Stage
  | .tree root _ written => .tree root Option.none (written ++ [(path.drop root.length, bytes)])
  | stage => stage

def taint : Stage → Stage
  | .tree root _ _ => .tainted root
  | stage => stage

def discard : Stage → Stage
  | .tree root _ _ => .gone root
  | .tainted root => .gone root
  | stage => stage

@[simp] theorem root_discard (stage : Stage) : stage.discard.root = stage.root := by
  cases stage <;> rfl

@[simp] theorem liveAt_discard (stage : Stage) : stage.discard.liveAt = Option.none := by
  cases stage <;> rfl

@[simp] theorem root_taint (stage : Stage) : stage.taint.root = stage.root := by
  cases stage <;> rfl

@[simp] theorem liveAt_taint (stage : Stage) : stage.taint.liveAt = stage.liveAt := by
  cases stage <;> rfl

/-- What a stage says about the file system. -/
def Holds (bundle : VerifiedBundle) (fs : Fs) : Stage → Prop
  | .tree root opened written => Filled (IsContentDirectory bundle) (fs.below root) opened written
  | _ => True

end Stage

structure Progress where
  lock : Lock
  stage : Stage
  promoted : Bool
  /-- The record last read at the subject root. -/
  seen : Option Bytes
  /-- Something that was there could not be removed. -/
  stuck : Bool
deriving DecidableEq

def Progress.start : Progress := ⟨.free, .none, false, none, false⟩

def Progress.move (p : Progress) : (c : Call) → Reply c → Progress
  | ⟨.lock, .createNew _ _⟩, .ok _ => { p with lock := .held }
  | ⟨.lock, .removeFile _⟩, .ok _ => { p with lock := .released }
  | ⟨.lock, .removeFile _⟩, .error _ => { p with lock := .released, stuck := true }
  | ⟨.staging, .createDir path _⟩, .ok _ => { p with stage := .tree path none [] }
  | ⟨.tree, .createNew path _⟩, .ok _ => { p with stage := p.stage.opening path }
  | ⟨.tree, .writeAll path bytes⟩, .ok _ => { p with stage := p.stage.wrote path bytes }
  | ⟨.tree, .writeAll _ _⟩, .error _ => { p with stage := p.stage.taint }
  | ⟨.target, .rename _ _⟩, .ok _ => { p with promoted := true, stage := p.stage.discard }
  | ⟨.target, .readExactWithLimit _ _ _⟩, .ok bytes => { p with seen := some bytes }
  | ⟨.cleanup, .removeDirAll _⟩, .ok _ => { p with stage := p.stage.discard }
  | ⟨.cleanup, .removeDirAll _⟩, .error _ =>
      { p with stage := p.stage.taint, stuck := p.stuck || p.stage.liveAt.isSome }
  | _, _ => p

/-! ## Faults -/

/-- An operation failed after the lock file was created and before its guard existed. -/
def lockRefused : (c : Call) → Reply c → Bool
  | ⟨.lockCheck, _⟩, .error _ => true
  | _, _ => false

/-- An operation failed, or metadata were unsafe, after the quarantine directory was created
and before its creation returned. -/
def stagingRefused (store : LinuxInstallStore) : (c : Call) → Reply c → Bool
  | ⟨.stagingCheck, .symlinkMetadata _⟩, .ok metadata =>
      !safePrivateDirectory metadata store.rootDevice
  | ⟨.stagingCheck, _⟩, .error _ => true
  | _, _ => false

/-- The cleanup looked for the quarantine directory. -/
def probed : (c : Call) → Reply c → Bool
  | ⟨.cleanup, .symlinkMetadata _⟩, _ => true
  | _, _ => false

/-- The cleanup found the quarantine directory. -/
def probeFound : (c : Call) → Reply c → Bool
  | ⟨.cleanup, .symlinkMetadata _⟩, .ok _ => true
  | _, _ => false

/-- The quarantine directory became the subject root. -/
def renamed : (c : Call) → Reply c → Bool
  | ⟨.target, .rename _ _⟩, .ok _ => true
  | _, _ => false

structure Faults where
  lock : Bool
  staging : Bool
  probed : Bool
  found : Bool
deriving DecidableEq

def Faults.start : Faults := ⟨false, false, false, false⟩

def Faults.record (store : LinuxInstallStore) (f : Faults) (c : Call) (r : Reply c) : Faults where
  lock := f.lock || lockRefused c r
  staging := f.staging || stagingRefused store c r
  probed := f.probed || Install.probed c r
  found := f.found || probeFound c r

structure Phase extends Progress where
  faults : Faults
deriving DecidableEq

def Phase.start : Phase := ⟨.start, .start⟩

/-! ## Allowed calls -/

/-- The operations that only look. -/
inductive Op.Looks : Op → Prop where
  | symlinkMetadata (path : Path) : Looks (.symlinkMetadata path)
  | fileMetadata (path : Path) : Looks (.fileMetadata path)
  | syncAll (path : Path) : Looks (.syncAll path)
  | syncDirectory (path : Path) : Looks (.syncDirectory path)
  | openSource (root : Path) : Looks (.openSource root)
  | load (root : Path) (manifest : BundleManifest) (allowed : Option (BundlePath × Nat)) :
      Looks (.load root manifest allowed)

/-- The calls that an installation of `bundle` may make in a phase. -/
inductive Allowed (bundle : VerifiedBundle) (publisher : Option AuthorizedPublisher)
    (p : Progress) : Call → Prop where
  | look {c : Call} (hlooks : c.op.Looks) : Allowed bundle publisher p c
  | readStaged (root : Path) (path : BundlePath) (maximum : Nat) : Allowed bundle publisher p
      ⟨.tree, .readExactWithLimit root path maximum⟩
  | readRecord (maximum : Nat) : Allowed bundle publisher p
      ⟨.target, .readExactWithLimit (subjectRoot bundle.subject) installationRecordPath maximum⟩
  | createInternal {directory : Path} (mode : Nat)
      (hinternal : directory.length = 1) : Allowed bundle publisher p
      ⟨.store, .createDir directory mode⟩
  | protectInternal {directory : Path} (mode : Nat)
      (hinternal : directory.length = 1) : Allowed bundle publisher p
      ⟨.store, .setPermissions directory mode⟩
  | createLock (mode : Nat) (hfree : p.lock = .free) : Allowed bundle publisher p
      ⟨.lock, .createNew (lockPath bundle.subject) mode⟩
  | removeLock (hheld : p.lock = .held) : Allowed bundle publisher p
      ⟨.lock, .removeFile (lockPath bundle.subject)⟩
  | createStaging (attempt mode : Nat) (hheld : p.lock = .held) (hstage : p.stage = .none) :
      Allowed bundle publisher p ⟨.staging, .createDir (stagingPath bundle.subject attempt) mode⟩
  | protect (site : Site) (attempt : Nat) (rest : Path) (mode : Nat) {opened : Option Path}
      {written : List (Path × Bytes)} (hheld : p.lock = .held)
      (hstage : p.stage = .tree (stagingPath bundle.subject attempt) opened written) :
      Allowed bundle publisher p
      ⟨site, .setPermissions (stagingPath bundle.subject attempt ++ rest) mode⟩
  | createDirectory (attempt : Nat) (rest : Path) (mode : Nat) {opened : Option Path}
      {written : List (Path × Bytes)} (hheld : p.lock = .held)
      (hstage : p.stage = .tree (stagingPath bundle.subject attempt) opened written)
      (hdirectory : IsContentDirectory bundle rest) : Allowed bundle publisher p
      ⟨.tree, .createDir (stagingPath bundle.subject attempt ++ rest) mode⟩
  | createFile (attempt : Nat) (rest : Path) (mode : Nat) {written : List (Path × Bytes)}
      (hheld : p.lock = .held)
      (hstage : p.stage = .tree (stagingPath bundle.subject attempt) none written) :
      Allowed bundle publisher p
      ⟨.tree, .createNew (stagingPath bundle.subject attempt ++ rest) mode⟩
  | writeFile (attempt : Nat) (rest : Path) (bytes : Bytes) {written : List (Path × Bytes)}
      (hheld : p.lock = .held)
      (hstage : p.stage = .tree (stagingPath bundle.subject attempt) (some rest) written) :
      Allowed bundle publisher p
      ⟨.tree, .writeAll (stagingPath bundle.subject attempt ++ rest) bytes⟩
  | promote (attempt : Nat) {written : List (Path × Bytes)} (hheld : p.lock = .held)
      (hstage : p.stage = .tree (stagingPath bundle.subject attempt) none written)
      (hpromoted : p.promoted = false)
      (hcomplete : installedFiles bundle publisher = .ok written) : Allowed bundle publisher p
      ⟨.target, .rename (stagingPath bundle.subject attempt) (subjectRoot bundle.subject)⟩
  | removeStaging (attempt : Nat) (hheld : p.lock = .held)
      (hroot : p.stage.root = some (stagingPath bundle.subject attempt)) :
      Allowed bundle publisher p
      ⟨.cleanup, .removeDirAll (stagingPath bundle.subject attempt)⟩

def installProtocol (store : LinuxInstallStore) (bundle : VerifiedBundle)
    (publisher : Option AuthorizedPublisher) : Protocol Call Reply Phase where
  allowed g := Allowed bundle publisher g.toProgress
  advance g c r := ⟨g.toProgress.move c r, g.faults.record store c r⟩

end Invokrum.Install
