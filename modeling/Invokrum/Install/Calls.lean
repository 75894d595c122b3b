import Invokrum.Base.FileSystem
import Invokrum.Base.Program
import Invokrum.Install.Record

/-!
# Calls of an installation and their effects

A call is an operation with the step of the installation that makes it. A reply
with a value is truthful about the file system. A reply with an error may come
at any time and then changes nothing, except that a failed write may leave a
part of its bytes and a failed recursive removal a part of its tree.
-/

namespace Invokrum.Install

open Invokrum.Distribution Invokrum.Acquisition Invokrum.FileSystem
open Text (Bytes)

/-- The components of a bundle path. -/
def components (path : BundlePath) : Path := (Text.split '/' path.text.toList).map String.ofList

theorem components_ne_nil (path : BundlePath) : components path ≠ [] := by
  simp [components, Text.split_ne_nil]

/-- The step that makes a call. It does not influence the call. -/
inductive Site where
  /-- The store root and its internal directories. -/
  | store
  /-- Creation and removal of the lock file. -/
  | lock
  /-- Between the creation of the lock file and the guard that removes it. -/
  | lockCheck
  /-- Creation of the quarantine directory. -/
  | staging
  /-- Between the creation of the quarantine directory and its use. -/
  | stagingCheck
  /-- Work inside the quarantine directory. -/
  | tree
  /-- The subject root. -/
  | target
  /-- Removal of the quarantine directory. -/
  | cleanup
deriving DecidableEq

inductive Op where
  | symlinkMetadata (path : Path)
  | createDir (path : Path) (mode : Nat)
  | setPermissions (path : Path) (mode : Nat)
  | createNew (path : Path) (mode : Nat)
  | writeAll (path : Path) (bytes : Bytes)
  | syncAll (path : Path)
  | fileMetadata (path : Path)
  | syncDirectory (path : Path)
  | rename (source target : Path)
  | removeFile (path : Path)
  | removeDirAll (path : Path)
  | openSource (root : Path)
  | load (root : Path) (manifest : BundleManifest) (allowed : Option (BundlePath × Nat))
  | readExactWithLimit (root : Path) (path : BundlePath) (maximum : Nat)

namespace Op

@[reducible] def Value : Op → Type
  | .symlinkMetadata _ => Metadata
  | .fileMetadata _ => Metadata
  | .load _ _ _ => List CandidateFile
  | .readExactWithLimit _ _ _ => Bytes
  | _ => Unit

@[reducible] def Error : Op → Type
  | .openSource _ => LocalCandidateError
  | .load _ _ _ => LocalCandidateError
  | .readExactWithLimit _ _ _ => LocalCandidateError
  | _ => IoError

end Op

structure Call where
  site : Site
  op : Op

@[reducible] def Reply (c : Call) : Type := Except c.op.Error c.op.Value

/-! ## Effects -/

/-- Part of the tree at `p` is gone. -/
structure PartlyRemoved (p : Path) (fs fs' : Fs) : Prop where
  outside : Fs.SameOutside p fs fs'
  inside : ∀ q, fs'.node q = none ∨ fs'.node q = fs.node q

/-- The effect of an operation that returns a value. What the directory loader finds is
left open. -/
def Succeeds (fs : Fs) : (op : Op) → op.Value → Fs → Prop
  | .symlinkMetadata p, metadata, fs' => fs.symlinkMetadata p = .ok metadata ∧ fs' = fs
  | .createDir p mode, _, fs' => ∃ umask, fs.createDir p (mode.ldiff umask) = .ok fs'
  | .setPermissions p mode, _, fs' => fs.setMode p mode = .ok fs'
  | .createNew p mode, _, fs' => ∃ umask, fs.createFile p (mode.ldiff umask) = .ok fs'
  | .writeAll p bytes, _, fs' => fs.append p bytes = .ok fs'
  | .syncAll p, _, fs' => fs.sync p = .ok () ∧ fs' = fs
  | .fileMetadata p, metadata, fs' => fs.symlinkMetadata p = .ok metadata ∧ fs' = fs
  | .syncDirectory p, _, fs' => fs.sync p = .ok () ∧ fs' = fs
  | .rename a b, _, fs' => ∃ h : fs.CanMove a b, fs' = fs.moveTree a b h.parent h.apart
  | .removeFile p, _, fs' => fs.removeFile p = .ok fs'
  | .removeDirAll p, _, fs' => fs.removeDirAll p = .ok fs'
  | .openSource _, _, fs' => fs' = fs
  | .load _ _ _, _, fs' => fs' = fs
  | .readExactWithLimit root path maximum, bytes, fs' =>
      fs.readFile (root ++ components path) = .ok bytes ∧ bytes.length ≤ maximum ∧ fs' = fs

/-- The effect of an operation that returns an error. Removals that are `reliable` fail only
where there is nothing they could remove. -/
def Fails (reliable : Prop) (fs : Fs) : Op → Fs → Prop
  | .writeAll p bytes, fs' => fs' = fs ∨ ∃ n, fs.append p (bytes.take n) = .ok fs'
  | .removeFile p, fs' => fs' = fs ∧ (reliable → ∀ fs'', fs.removeFile p ≠ .ok fs'')
  | .removeDirAll p, fs' =>
      PartlyRemoved p fs fs' ∧ (reliable → fs' = fs ∧ ∀ fs'', fs.removeDirAll p ≠ .ok fs'')
  | _, fs' => fs' = fs

/-- A call, its reply and its effect. -/
def Performs (reliable : Prop) (fs : Fs) (c : Call) (r : Reply c) (fs' : Fs) : Prop :=
  match r with
  | .ok value => Succeeds fs c.op value fs'
  | .error _ => Fails reliable fs c.op fs'

/-- What reliable removals may do, removals may do. -/
theorem Performs.unreliable {reliable : Prop} {fs fs' : Fs} {c : Call} {r : Reply c}
    (h : Performs reliable fs c r fs') : Performs False fs c r fs' := by
  cases r with
  | ok value => exact h
  | error e =>
      obtain ⟨site, op⟩ := c
      cases op with
      | removeFile p => exact ⟨h.1, False.elim⟩
      | removeDirAll p => exact ⟨h.1, False.elim⟩
      | _ => exact h

end Invokrum.Install
