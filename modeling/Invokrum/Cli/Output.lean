import Invokrum.Base.Safety
import Invokrum.Base.Syscalls

/-!
# Safe output

`write_atomic` as a program over file-system calls. A site says where a call
stands: before anything is created, while the temporary file is prepared, at
the commit, behind it, or in the drop of a guard.
-/

namespace Invokrum.Cli

open Programs Invokrum.Inodes
open Text (Bytes)

inductive OutputError where
  | invalidPath
  | parentTraversal
  | parentSymbolicLink
  | parentNotDirectory
  | parentChanged
  | targetExists
  | targetSymbolicLink
  | targetNotRegular
  | io
deriving DecidableEq

inductive Site where
  | prepare
  | stage
  | commit
  /-- Behind the commit, where nothing is undone. -/
  | settle
  /-- The lookup by which a dropped guard recognises the committed target. -/
  | rollback
  /-- The removal by a dropped guard. -/
  | cleanup
deriving DecidableEq

abbrev Output : Type → Type := Fallible (Call Site) Reply OutputError

/-- A call whose reply the caller matches on. -/
def request (site : Site) (op : Op) : Output (Except IoError op.Value) :=
  Fallible.reply (⟨site, op⟩ : Call Site)

/-- A call whose error ends the run. -/
def call (site : Site) (op : Op) (wrap : IoError → OutputError) : Output op.Value :=
  Fallible.attempt (⟨site, op⟩ : Call Site) wrap

def throwIf (c : Prop) [Decidable c] (e : OutputError) : Output Unit := Fallible.throwIf c e

/-! ## Paths -/

def validatedFileName (path : PathBuf) : Except OutputError Name :=
  match pathFileName path with
  | some name => if (Text.fromUtf8 name).isSome ∧ name ≠ [] then .ok name else .error .invalidPath
  | none => .error .invalidPath

/-- The loop of `reject_parent_links` behind `current`. -/
def walkComponents (current : Place) : PathBuf → Output Unit
  | [] => pure ()
  | .rootDir :: rest => walkComponents current rest
  | .curDir :: rest => walkComponents current rest
  | .parentDir :: _ => throw .parentTraversal
  | .normal segment :: rest => do
      let metadata ← call .prepare (.symlinkMetadata (absolute (current ++ [segment]))) fun _ => .io
      throwIf (metadata.kind = .symlink) .parentSymbolicLink
      throwIf (metadata.kind ≠ .directory) .parentNotDirectory
      walkComponents (current ++ [segment]) rest

def rejectParentLinks (parent : PathBuf) : Output Unit :=
  if parent.head? = some .rootDir then walkComponents [] parent
  else do
    let current ← call .prepare .currentDir fun _ => .io
    walkComponents current parent

def sameIdentity (left right : Metadata) : Bool :=
  left.device == right.device && left.inode == right.inode

def pinParent (parent : Place) : Output Metadata := do
  let metadata ← call .prepare (.symlinkMetadata (absolute parent)) fun _ => .io
  throwIf (metadata.kind = .symlink) .parentSymbolicLink
  throwIf (metadata.kind ≠ .directory) .parentNotDirectory
  pure metadata

def verifyParentIdentity (site : Site) (parent : Place) (pinned : Metadata) : Output Unit := do
  let current ← call site (.symlinkMetadata (absolute parent)) fun _ => .parentChanged
  throwIf (current.kind = .symlink ∨ current.kind ≠ .directory ∨ sameIdentity current pinned = false)
    .parentChanged

def checkTarget (site : Site) (target : Place) (force : Bool) : Output Unit := do
  match ← request site (.symlinkMetadata (absolute target)) with
  | .ok metadata => do
      throwIf (metadata.kind = .symlink) .targetSymbolicLink
      throwIf (metadata.kind ≠ .file) .targetNotRegular
      throwIf (force = false) .targetExists
  | .error .notFound => pure ()
  | .error _ => throw .io

/-- `.{file_name}.invokrum-{pid}-{sequence}.tmp` -/
def temporaryName (fileName : Name) (pid sequence : Nat) : Name :=
  Text.bytes "." ++ fileName ++ Text.bytes ".invokrum-" ++ Text.utf8 (Nat.toDigits 10 pid)
    ++ Text.bytes "-" ++ Text.utf8 (Nat.toDigits 10 sequence) ++ Text.bytes ".tmp"

/-! ## Staging -/

def privateMode : Nat := 0o600

def validateStagedMetadata (metadata : Metadata) : Output Unit := do
  throwIf (metadata.kind ≠ .file) .targetNotRegular
  throwIf (metadata.mode &&& 0o777 ≠ privateMode ∨ metadata.links ≠ 1) .io

def stageFile (path : Place) (bytes : Bytes) : Output Metadata := do
  let file ← call .stage (.createNew (absolute path) privateMode) fun _ => .io
  call .stage (.writeAll file bytes) fun _ => .io
  call .stage (.syncAll file) fun _ => .io
  let metadata ← call .stage (.descriptorMetadata file) fun _ => .io
  validateStagedMetadata metadata
  pure metadata

/-! ## Commits -/

def validateCommittedTarget (site : Site) (target : Place) (staged : Metadata) : Output Unit := do
  let metadata ← call site (.symlinkMetadata (absolute target)) fun _ => .io
  throwIf (metadata.kind = .symlink) .targetSymbolicLink
  throwIf (metadata.kind ≠ .file ∨ sameIdentity metadata staged = false) .targetNotRegular
  throwIf (metadata.mode &&& 0o777 ≠ privateMode ∨ metadata.links ≠ 1) .io

def commitReplace (temporary target : Place) (staged : Metadata) : Output Unit := do
  checkTarget .commit target true
  call .commit (.rename (absolute temporary) (absolute target)) fun _ => .io
  validateCommittedTarget .settle target staged

/-- The drop of an armed guard without an identity. -/
def dropGuard (path : Place) : Output Unit := do
  let _ ← request .cleanup (.removeFile (absolute path))
  pure ()

/-- The drop of an armed guard with an identity. -/
def dropGuardIfIdentity (path : Place) (identity : Metadata) : Output Unit := do
  match ← request .rollback (.symlinkMetadata (absolute path)) with
  | .ok metadata => if sameIdentity metadata identity then dropGuard path else pure ()
  | .error _ => pure ()

def commitNoClobber (temporary target : Place) (staged : Metadata) : Output Unit := do
  match ← request .commit (.hardLink (absolute temporary) (absolute target)) with
  | .ok _ =>
      Fallible.onError
        (do
          call .commit (.removeFile (absolute temporary)) fun _ => .io
          validateCommittedTarget .commit target staged)
        (dropGuardIfIdentity target staged)
  | .error .alreadyExists => throw .targetExists
  | .error _ => throw .io

def syncDirectory (parent : Place) : Output Unit := do
  let directory ← call .settle (.openFile (absolute parent) false) fun _ => .io
  call .settle (.syncAll directory) fun _ => .io

/-! ## The write -/

/-- What runs under the guard of the temporary file. -/
def stageAndCommit (parent target temporary : Place) (pinned : Metadata) (bytes : Bytes)
    (force : Bool) : Output Unit := do
  let staged ← stageFile temporary bytes
  verifyParentIdentity .stage parent pinned
  if force then commitReplace temporary target staged
  else commitNoClobber temporary target staged

/-- What runs behind the checks. -/
def publish (parent target temporary : Place) (pinned : Metadata) (bytes : Bytes)
    (force : Bool) : Output Unit := do
  Fallible.onError (stageAndCommit parent target temporary pinned bytes force)
    (dropGuard temporary)
  verifyParentIdentity .settle parent pinned
  syncDirectory parent

/-- `pid` and `sequence` are what `temporary_path` takes from the process. -/
def writePlatform (pid sequence : Nat) (path : PathBuf) (bytes : Bytes) (force : Bool) :
    Output Unit := do
  let fileName ← Fallible.ofExcept (validatedFileName path)
  let parent := (pathParent path).getD [.curDir]
  rejectParentLinks parent
  let canonicalParent : Place ← call .prepare (.canonicalize parent) fun _ => .io
  let pinned ← pinParent canonicalParent
  let target := canonicalParent ++ [fileName]
  checkTarget .prepare target force
  let temporary := canonicalParent ++ [temporaryName fileName pid sequence]
  publish canonicalParent target temporary pinned bytes force

def writeAtomic (pid sequence : Nat) (path : PathBuf) (bytes : Bytes) (force : Bool) :
    Output Unit :=
  writePlatform pid sequence path bytes force

end Invokrum.Cli
