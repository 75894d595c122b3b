import Invokrum.Base.Watching
import Invokrum.Core.Composition

/-!
# Local pack sources

`LocalPackSource` as programs over file-system calls: how the root is pinned,
and how a source below it is checked, opened, read and checked again.
-/

namespace Invokrum.Fs

open Programs Invokrum.Inodes
open Invokrum.Core (PackRelativePath SourceFailure SourceFailureKind)
open Text (Bytes)

inductive LocalPackSourceError where
  | unsupportedPlatform
  | procUnavailable
  | rootUnavailable
  | rootSymbolicLink
  | rootNotDirectory
deriving DecidableEq

structure LocalPackSource where
  root : Place
  rootDevice : Nat
  rootInode : Nat
deriving DecidableEq

/-! ## The root -/

abbrev Opening : Type → Type := Fallible (Call Unit) Reply LocalPackSourceError

def openRoot (root : PathBuf) : Opening LocalPackSource := do
  let lexical ← Fallible.attempt (⟨(), .symlinkMetadata root⟩ : Call Unit) fun _ => .rootUnavailable
  Fallible.throwIf (lexical.kind = .symlink) .rootSymbolicLink
  Fallible.throwIf (lexical.kind ≠ .directory) .rootNotDirectory
  let canonical : Place ←
    Fallible.attempt (⟨(), .canonicalize root⟩ : Call Unit) fun _ => .rootUnavailable
  let metadata ←
    Fallible.attempt (⟨(), .metadata (absolute canonical)⟩ : Call Unit) fun _ => .rootUnavailable
  Fallible.throwIf (metadata.kind ≠ .directory) .rootNotDirectory
  let procDescriptors : Bool ←
    Fallible.attempt (⟨(), .descriptorDirectory⟩ : Call Unit) fun _ => .procUnavailable
  Fallible.throwIf (procDescriptors = false) .procUnavailable
  pure ⟨canonical, metadata.device, metadata.inode⟩

/-! ## Failures -/

abbrev Loading : Type → Type := Fallible (Call Unit) Reply SourceFailure

def reject (source : PackRelativePath) (kind : SourceFailureKind) : SourceFailure := ⟨source, kind⟩

def mapIo (source : PackRelativePath) : IoError → SourceFailure
  | .notFound => reject source .notFound
  | .permissionDenied => reject source .permissionDenied
  | _ => reject source .io

def mapPostReadIo (source : PackRelativePath) : IoError → SourceFailure
  | .notFound => reject source .changedDuringRead
  | error => mapIo source error

def call (op : Op) (wrap : IoError → SourceFailure) : Loading op.Value :=
  Fallible.attempt (⟨(), op⟩ : Call Unit) wrap

def throwIf (c : Prop) [Decidable c] (e : SourceFailure) : Loading Unit := Fallible.throwIf c e

/-! ## Checks -/

def verifyRoot (adapter : LocalPackSource) (source : PackRelativePath) : Loading Unit := do
  let metadata ← call (.symlinkMetadata (absolute adapter.root)) (mapPostReadIo source)
  throwIf (metadata.kind = .symlink) (reject source .symbolicLink)
  throwIf (metadata.kind ≠ .directory ∨ metadata.device ≠ adapter.rootDevice
    ∨ metadata.inode ≠ adapter.rootInode) (reject source .changedDuringRead)

/-- The names in a source path. -/
def names (source : PackRelativePath) : List Name :=
  (Text.split '/' source.text.toList).map Text.utf8

/-- The loop over the components below `current`. -/
def verifyFrom (adapter : LocalPackSource) (source : PackRelativePath) (current : Place) :
    List Name → Loading Unit
  | [] => pure ()
  | segment :: rest => do
      let metadata ← call (.symlinkMetadata (absolute (current ++ [segment]))) (mapIo source)
      throwIf (metadata.kind = .symlink) (reject source .symbolicLink)
      throwIf (metadata.device ≠ adapter.rootDevice) (reject source .deviceBoundary)
      throwIf (rest ≠ [] ∧ metadata.kind ≠ .directory) (reject source .notRegularFile)
      verifyFrom adapter source (current ++ [segment]) rest

def verifyComponents (adapter : LocalPackSource) (source : PackRelativePath) (candidate : Place) :
    Loading Unit := do
  verifyFrom adapter source adapter.root (names source)
  let canonical : Place ← call (.canonicalize (absolute candidate)) (mapIo source)
  throwIf (¬ adapter.root <+: canonical) (reject source .rootEscape)

def verifyFileMetadata (adapter : LocalPackSource) (source : PackRelativePath)
    (metadata : Metadata) : Loading Unit := do
  throwIf (metadata.kind ≠ .file) (reject source .notRegularFile)
  throwIf (metadata.device ≠ adapter.rootDevice) (reject source .deviceBoundary)
  throwIf (metadata.links ≠ 1) (reject source .hardLink)

def sameIdentity (left right : Metadata) : Bool :=
  left.device == right.device && left.inode == right.inode

def sameSnapshot (left right : Metadata) : Bool :=
  sameIdentity left right && left.length == right.length && left.mtime == right.mtime
    && left.ctime == right.ctime

/-! ## Loading -/

def loadSource (adapter : LocalPackSource) (source : PackRelativePath) (maximumBytes : Nat) :
    Loading Bytes := do
  verifyRoot adapter source
  let candidate := adapter.root ++ names source
  verifyComponents adapter source candidate
  let before ← call (.metadata (absolute candidate)) (mapIo source)
  verifyFileMetadata adapter source before
  let file : Nat ← call (.openFile (absolute candidate) false) (mapIo source)
  let opened ← call (.descriptorMetadata file) (mapIo source)
  verifyFileMetadata adapter source opened
  throwIf (sameIdentity before opened = false) (reject source .changedDuringRead)
  let openedPath : Place ← call (.descriptorPath file) (mapIo source)
  throwIf (¬ adapter.root <+: openedPath) (reject source .rootEscape)
  let limit := saturatingSucc maximumBytes
  let bytes ← readToEnd () file (mapIo source) limit 0 limit
  throwIf (maximumBytes < bytes.length) (reject source .tooLarge)
  let after ← call (.descriptorMetadata file) (mapIo source)
  throwIf (sameSnapshot opened after = false) (reject source .changedDuringRead)
  let current ← call (.symlinkMetadata (absolute candidate)) (mapPostReadIo source)
  throwIf (current.kind = .symlink) (reject source .symbolicLink)
  verifyFileMetadata adapter source current
  throwIf (sameIdentity opened current = false) (reject source .changedDuringRead)
  verifyRoot adapter source
  pure bytes

end Invokrum.Fs
