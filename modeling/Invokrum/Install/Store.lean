import Invokrum.Install.Calls

/-!
# The Linux install store

`installBundleWithPublisher` as a program over file-system calls. Paths are
relative to the store root. The guard of the subject lock and the cleanup of
the quarantine directory run where the source drops the guard and inspects the
result.
-/

namespace Invokrum.Install

open Programs Invokrum.Distribution Invokrum.Acquisition Invokrum.FileSystem
open Text (Bytes)

def installationRecordPath : BundlePath := ⟨".invokrum-installation.json", by decide +kernel⟩

def maxStagingAttempts : Nat := 1024

def privateDirectoryMode : Nat := 0o700

def privateFileMode : Nat := 0o600

/-- An opened store: the identity of its root directory. -/
structure LinuxInstallStore where
  rootDevice : Nat
  rootInode : Nat
deriving DecidableEq

/-- A receipt; `root` and `record` are paths below the store root. -/
structure InstalledBundle where
  subject : Sha256Digest
  root : Path
  record : Path
  reused : Bool
deriving DecidableEq

def stagingDirectory : Path := [".staging"]

def locksDirectory : Path := [".locks"]

def installedDirectory : Path := ["sha256"]

def subjectRoot (subject : Sha256Digest) : Path := installedDirectory ++ [subject.text]

def lockPath (subject : Sha256Digest) : Path := locksDirectory ++ [subject.text ++ ".lock"]

def stagingPath (subject : Sha256Digest) (attempt : Nat) : Path :=
  stagingDirectory ++ [subject.text ++ "." ++ toString attempt]

/-! ## Metadata -/

def protectedRootMode (mode : Nat) : Bool := mode &&& 0o700 == 0o700 && mode &&& 0o022 == 0

def safePrivateDirectory (metadata : Metadata) (device : Nat) : Bool :=
  metadata.kind == .directory && metadata.device == device &&
    metadata.mode &&& 0o777 == privateDirectoryMode

def safePrivateFile (metadata : Metadata) (device : Nat) : Bool :=
  metadata.kind == .file && metadata.device == device && metadata.links == 1 &&
    metadata.mode &&& 0o777 == privateFileMode

/-! ## Calls -/

abbrev Installation : Type → Type := ExceptT LinuxInstallStoreError (Program Call Reply)

/-- A call whose reply the caller matches on. -/
def request (site : Site) (op : Op) : Installation (Except op.Error op.Value) :=
  Fallible.reply (⟨site, op⟩ : Call)

/-- A call whose error ends the installation. -/
def call (site : Site) (op : Op) (wrap : op.Error → LinuxInstallStoreError) :
    Installation op.Value :=
  Fallible.attempt (⟨site, op⟩ : Call) wrap

def syncDirectory (site : Site) (directory : Path) : Installation Unit :=
  call site (.syncDirectory directory) fun _ => .io

def ensureStoreRoot (store : LinuxInstallStore) : Installation Unit := do
  let metadata ← call .store (.symlinkMetadata []) fun _ => .storeChanged
  Fallible.throwIf (metadata.kind = .symlink ∨ metadata.kind ≠ .directory
    ∨ metadata.device ≠ store.rootDevice ∨ metadata.inode ≠ store.rootInode
    ∨ protectedRootMode metadata.mode = false) .storeChanged

def ensurePrivateDirectory (store : LinuxInstallStore) (site : Site) (directory : Path) :
    Installation Unit := do
  match ← request site (.symlinkMetadata directory) with
  | .ok metadata =>
      Fallible.throwIf (safePrivateDirectory metadata store.rootDevice = false) .storePathUnsafe
  | .error .notFound =>
      call site (.createDir directory privateDirectoryMode) fun _ => .io
      call site (.setPermissions directory privateDirectoryMode) fun _ => .io
      let metadata ← call site (.symlinkMetadata directory) fun _ => .io
      Fallible.throwIf (safePrivateDirectory metadata store.rootDevice = false) .storePathUnsafe
      syncDirectory site directory.dropLast
  | .error _ => throw .io

def verifyPrivateDirectory (store : LinuxInstallStore) (site : Site) (directory : Path) :
    Installation Unit := do
  let metadata ← call site (.symlinkMetadata directory) fun _ => .storePathUnsafe
  Fallible.throwIf (safePrivateDirectory metadata store.rootDevice = false) .storePathUnsafe

def verifyPrivateFile (store : LinuxInstallStore) (site : Site) (path : Path) : Installation Unit := do
  let metadata ← call site (.symlinkMetadata path) fun _ => .storePathUnsafe
  Fallible.throwIf (safePrivateFile metadata store.rootDevice = false) .storePathUnsafe

/-- The directories `current/c₁`, `current/c₁/c₂`, … -/
def directoriesFrom (current : Path) : List String → List Path
  | [] => []
  | component :: rest => (current ++ [component]) :: directoriesFrom (current ++ [component]) rest

def verifyInstalledPathPermissions (store : LinuxInstallStore) (site : Site) (root : Path)
    (path : BundlePath) : Installation Unit := do
  (directoriesFrom root (components path).dropLast).forM (verifyPrivateDirectory store site)
  verifyPrivateFile store site (root ++ components path)

def verifyInstallationPermissions (store : LinuxInstallStore) (site : Site) (root : Path)
    (bundle : VerifiedBundle) : Installation Unit := do
  verifyPrivateDirectory store site root
  bundle.files.forM fun file => verifyInstalledPathPermissions store site root file.path
  verifyInstalledPathPermissions store site root installationRecordPath

def pathExistsNoFollow (path : Path) : Installation Bool := do
  match ← request .target (.symlinkMetadata path) with
  | .ok _ => pure true
  | .error .notFound => pure false
  | .error _ => throw .io

/-! ## The subject lock -/

/-- Removes a lock file whose metadata are unsafe. -/
def checkLockFile (store : LinuxInstallStore) (subject : Sha256Digest) (metadata : Metadata) :
    Installation Unit :=
  if safePrivateFile metadata store.rootDevice = false then do
    let _ ← request .lock (.removeFile (lockPath subject))
    throw .storePathUnsafe
  else pure ()

/-- Creates the lock file. Only a normal return arms the guard. -/
def acquireSubjectLock (store : LinuxInstallStore) (subject : Sha256Digest) : Installation Unit := do
  ensurePrivateDirectory store .store locksDirectory
  match ← request .lock (.createNew (lockPath subject) privateFileMode) with
  | .ok _ =>
      call .lockCheck (.syncAll (lockPath subject)) fun _ => .io
      let metadata ← call .lockCheck (.fileMetadata (lockPath subject)) fun _ => .io
      checkLockFile store subject metadata
      syncDirectory .lockCheck locksDirectory
  | .error .alreadyExists => throw .subjectLocked
  | .error _ => throw .io

/-- `SubjectLock::drop`. -/
def dropSubjectLock (subject : Sha256Digest) : Installation Unit := do
  let _ ← request .lock (.removeFile (lockPath subject))
  let _ ← request .lock (.syncDirectory locksDirectory)

/-! ## The quarantine directory -/

def tryStaging (store : LinuxInstallStore) (subject : Sha256Digest) : List Nat → Installation Path
  | [] => throw .stagingUnavailable
  | attempt :: attempts => do
      let candidate := stagingPath subject attempt
      match ← request .staging (.createDir candidate privateDirectoryMode) with
      | .ok _ =>
          call .stagingCheck (.setPermissions candidate privateDirectoryMode) fun _ => .io
          verifyPrivateDirectory store .stagingCheck candidate
          syncDirectory .stagingCheck stagingDirectory
          pure candidate
      | .error .alreadyExists => tryStaging store subject attempts
      | .error _ => throw .io

def createStaging (store : LinuxInstallStore) (subject : Sha256Digest) : Installation Path := do
  ensurePrivateDirectory store .store stagingDirectory
  tryStaging store subject (List.range maxStagingAttempts)

def cleanupStaging (staging : Path) : Installation Unit := do
  match ← request .cleanup (.symlinkMetadata staging) with
  | .ok _ =>
      let _ ← request .cleanup (.removeDirAll staging)
  | .error _ => pure ()

def ensureRelativeDirectories (store : LinuxInstallStore) (root parent : Path) : Installation Unit :=
  if root.isPrefixOf parent then
    (directoriesFrom root (parent.drop root.length)).forM (ensurePrivateDirectory store .tree)
  else throw .storePathUnsafe

def materializeFile (store : LinuxInstallStore) (root : Path) (path : BundlePath)
    (bytes : Bytes) : Installation Unit := do
  let destination := root ++ components path
  ensureRelativeDirectories store root destination.dropLast
  call .tree (.createNew destination privateFileMode) fun _ => .materializationConflict path
  call .tree (.writeAll destination bytes) fun _ => .io
  call .tree (.syncAll destination) fun _ => .io
  call .tree (.setPermissions destination privateFileMode) fun _ => .io
  let metadata ← call .tree (.fileMetadata destination) fun _ => .io
  Fallible.throwIf (safePrivateFile metadata store.rootDevice = false) .storePathUnsafe
  syncDirectory .tree destination.dropLast

/-! ## Staging and re-verification -/

def asciiLowercase (text : String) : List Char := text.toList.map Char.toLower

def isReserved (path : BundlePath) : Bool :=
  let reserved := asciiLowercase installationRecordPath.text
  asciiLowercase path.text == reserved || (reserved ++ ['/']).isPrefixOf (asciiLowercase path.text)

def rejectReservedPaths (bundle : VerifiedBundle) : Installation Unit :=
  Fallible.throwIf ((bundle.files.any fun file => isReserved file.path) = true)
    .reservedMetadataPath

def manifestFile (file : VerifiedFile) : Except LinuxInstallStoreError BundleFile := do
  let length ← byteLength file.bytes .manifestReconstruction
  pure ⟨file.path, length, file.digest⟩

def manifestFromVerified (bundle : VerifiedBundle) :
    Except LinuxInstallStoreError BundleManifest := do
  let files ← Outcome.collect manifestFile bundle.files
  (BundleManifest.new bundleFormat sha256Algorithm bundle.entryPoint files .default).mapError
    fun _ => .manifestReconstruction

def verifyLoaded (manifest : BundleManifest) (bundle : VerifiedBundle)
    (candidates : List CandidateFile) : Except LinuxInstallStoreError VerifiedBundle :=
  (verifyCandidate manifest bundle.subject bundle.subject candidates).mapError .contentVerification

def stageBundle (store : LinuxInstallStore) (staging : Path) (bundle : VerifiedBundle)
    (publisher : Option AuthorizedPublisher) : Installation Unit := do
  verifyPrivateDirectory store .tree staging
  bundle.files.forM fun file => materializeFile store staging file.path file.bytes
  syncDirectory .tree staging
  let manifest ← Fallible.ofExcept (manifestFromVerified bundle)
  call .tree (.openSource staging) .stageVerification
  let candidates ← call .tree (.load staging manifest none) .stageVerification
  let _ ← Fallible.ofExcept (verifyLoaded manifest bundle candidates)
  let record ← Fallible.ofExcept (installationRecordBytes bundle publisher)
  materializeFile store staging installationRecordPath record
  let persisted ← call .tree
    (.readExactWithLimit staging installationRecordPath maxInstallationRecordBytes)
    .stageVerification
  Fallible.throwIf (persisted ≠ record) .recordMismatch
  verifyInstallationPermissions store .tree staging bundle
  syncDirectory .tree staging

/-- The body of the re-verification; its caller reports one error for every failure. -/
def matchesInstallation (store : LinuxInstallStore) (root : Path) (bundle : VerifiedBundle)
    (publisher : Option AuthorizedPublisher) : Installation Unit := do
  verifyInstallationPermissions store .target root bundle
  let manifest ← Fallible.ofExcept (manifestFromVerified bundle)
  call .target (.openSource root) .stageVerification
  let candidates ← call .target
    (.load root manifest (some (installationRecordPath, maxInstallationRecordBytes)))
    .stageVerification
  let _ ← Fallible.ofExcept (verifyLoaded manifest bundle candidates)
  let actualRecord ← call .target
    (.readExactWithLimit root installationRecordPath maxInstallationRecordBytes)
    .stageVerification
  let expectedRecord ← Fallible.ofExcept (installationRecordBytes bundle publisher)
  Fallible.throwIf (actualRecord ≠ expectedRecord) .existingInstallationMismatch
  verifyInstallationPermissions store .target root bundle

def verifyExistingInstallation (store : LinuxInstallStore) (root : Path) (bundle : VerifiedBundle)
    (publisher : Option AuthorizedPublisher) : Installation Unit :=
  Fallible.mapError (fun _ => .existingInstallationMismatch)
    (matchesInstallation store root bundle publisher)

/-! ## Installation -/

def receipt (bundle : VerifiedBundle) (root : Path) (reused : Bool) : InstalledBundle where
  subject := bundle.subject
  root := root
  record := root ++ [installationRecordPath.text]
  reused := reused

/-- What follows a successful staging. -/
def promote (store : LinuxInstallStore) (staging : Path) (bundle : VerifiedBundle)
    (publisher : Option AuthorizedPublisher) : Installation InstalledBundle := do
  let finalRoot := subjectRoot bundle.subject
  ensureStoreRoot store
  ensurePrivateDirectory store .store installedDirectory
  match ← request .target (.rename staging finalRoot) with
  | .ok _ =>
      syncDirectory .target installedDirectory
      verifyExistingInstallation store finalRoot bundle publisher
      pure (receipt bundle finalRoot false)
  | .error _ =>
      if ← pathExistsNoFollow finalRoot then
        cleanupStaging staging
        verifyExistingInstallation store finalRoot bundle publisher
        pure (receipt bundle finalRoot true)
      else throw .io

def stageAndPromote (store : LinuxInstallStore) (staging : Path) (bundle : VerifiedBundle)
    (publisher : Option AuthorizedPublisher) : Installation InstalledBundle := do
  stageBundle store staging bundle publisher
  promote store staging bundle publisher

/-- The part of an installation under the subject lock. -/
def installLocked (store : LinuxInstallStore) (bundle : VerifiedBundle)
    (publisher : Option AuthorizedPublisher) : Installation InstalledBundle := do
  let finalRoot := subjectRoot bundle.subject
  if ← pathExistsNoFollow finalRoot then
    verifyExistingInstallation store finalRoot bundle publisher
    pure (receipt bundle finalRoot true)
  else
    let staging ← createStaging store bundle.subject
    Fallible.onError (stageAndPromote store staging bundle publisher) (cleanupStaging staging)

def installBundleWithPublisher (store : LinuxInstallStore) (bundle : VerifiedBundle)
    (publisher : Option AuthorizedPublisher) : Installation InstalledBundle := do
  Fallible.throwIf (publisherMismatch bundle publisher = true) .publisherSubjectMismatch
  ensureStoreRoot store
  ensurePrivateDirectory store .store stagingDirectory
  ensurePrivateDirectory store .store locksDirectory
  ensurePrivateDirectory store .store installedDirectory
  rejectReservedPaths bundle
  acquireSubjectLock store bundle.subject
  Fallible.guarded (installLocked store bundle publisher) (dropSubjectLock bundle.subject)

end Invokrum.Install
