import Invokrum.Base.Equality
import Invokrum.Base.Outcome
import Invokrum.Base.LossyText
import Invokrum.Install.Truthful
import Mathlib.Data.List.DropRight

/-!
# The store of the command line

Preparing the store root, opening the store and installing into it, as one
program. Paths are relative to the root of the store, which may not exist yet.
Directories above it are created, but nothing else depends on them.
-/

namespace Invokrum.Delivery

open Programs Invokrum.Distribution Invokrum.Acquisition Invokrum.FileSystem Invokrum.Install
open Text (Bytes)

def displayPath (path : Bytes) : String := String.ofList (Text.lossy path)

/-! ## Calls -/

/-- A call on the path of the store, or one of the opened store. -/
inductive RootCall where
  | symlinkMetadata
  /-- `create_dir_all` of the parent. -/
  | createDirAll
  | create (mode : Nat)
  | setPermissions (mode : Nat)
  | canonicalize
  /-- `metadata` of the canonical path. -/
  | metadata
  /-- `metadata` of `/proc/self/fd`. -/
  | procDescriptors
  | inside (c : Install.Call)

namespace RootCall

@[reducible] def Value : RootCall → Type
  | .symlinkMetadata => Metadata
  | .canonicalize => Bytes
  | .metadata => Metadata
  | .procDescriptors => Metadata
  | .inside c => c.op.Value
  | _ => Unit

@[reducible] def Error : RootCall → Type
  | .inside c => c.op.Error
  | _ => IoError

end RootCall

@[reducible] def RootReply (c : RootCall) : Type := Except c.Error c.Value

/-- The root of a store comes into being. -/
structure RootCreated (mode : Nat) (fs fs' : Fs) : Prop where
  absent : fs.node [] = none
  created : ∃ n umask, n.kind = .directory ∧ n.metadata.mode = mode.ldiff umask ∧
    fs'.node = Function.update fs.node [] (some n)

/-- The effect of a call that returns a value. -/
def RootSucceeds (fs : Fs) : (c : RootCall) → c.Value → Fs → Prop
  | .symlinkMetadata, metadata, fs' => fs.symlinkMetadata [] = .ok metadata ∧ fs' = fs
  | .createDirAll, _, fs' => fs' = fs
  | .create mode, _, fs' => RootCreated mode fs fs'
  | .setPermissions mode, _, fs' => fs.setMode [] mode = .ok fs'
  | .canonicalize, _, fs' => fs' = fs
  | .metadata, metadata, fs' => fs.symlinkMetadata [] = .ok metadata ∧ fs' = fs
  | .procDescriptors, _, fs' => fs' = fs
  | .inside c, value, fs' => Truthful fs c (.ok value) fs'

def RootFails (fs : Fs) : (c : RootCall) → c.Error → Fs → Prop
  | .inside c, error, fs' => Truthful fs c (.error error) fs'
  | _, _, fs' => fs' = fs

/-- Any call may fail at any time; no value lies. -/
def RootEffect (fs : Fs) (c : RootCall) (r : RootReply c) (fs' : Fs) : Prop :=
  match r with
  | .ok value => RootSucceeds fs c value fs'
  | .error error => RootFails fs c error fs'

/-- The calls of an opened store. -/
def inside : Handler Install.Call Install.Reply RootCall RootReply :=
  fun c => .call (.inside c) .done

/-! ## The root -/

/-- Names without those at the end that say nothing. -/
def trimRight (names : List Bytes) : List Bytes :=
  names.rdropWhile fun name => name = [] ∨ name = [46]

def joinNames (names : List Bytes) : Bytes := List.intercalate [47] names

/-- `path.parent()` -/
def parentOf (path : Bytes) : Option Bytes :=
  match path.splitOn 47 with
  | [] :: body@(_ :: _) =>
      if trimRight body = [] then none
      else some (47 :: joinNames (trimRight (trimRight body).dropLast))
  | [46] :: body =>
      if trimRight body = [] then some []
      else some (joinNames ([46] :: trimRight (trimRight body).dropLast))
  | names =>
      if trimRight names = [] then none
      else some (joinNames (trimRight (trimRight names).dropLast))

example : parentOf (Text.bytes "/data/./store/") = some (Text.bytes "/data") := by decide

inductive CliInstallStoreError where
  | prepare (message : String)
  | store (error : LinuxInstallStoreError)
deriving DecidableEq

abbrev RootProgram (ε α : Type) : Type := Fallible RootCall RootReply ε α

/-- A call whose reply the program inspects. -/
def askRoot {ε : Type} (c : RootCall) : RootProgram ε (RootReply c) := Fallible.reply c

/-- A call whose error ends the program. -/
def callRoot {ε : Type} (c : RootCall) (wrap : c.Error → ε) : RootProgram ε c.Value :=
  Fallible.attempt c wrap

def prepareStoreRoot (path : Bytes) : RootProgram String Unit := do
  match ← askRoot .symlinkMetadata with
  | .ok _ => pure ()
  | .error .notFound =>
      let parent ← Fallible.ofExcept (Outcome.okOr (parentOf path)
        ("installation store has no usable parent: " ++ displayPath path))
      callRoot .createDirAll fun _ =>
        "installation store parent could not be created: " ++ displayPath parent
      callRoot (.create privateDirectoryMode) fun _ =>
        "installation store could not be created: " ++ displayPath path
      callRoot (.setPermissions privateDirectoryMode) fun _ =>
        "installation store permissions could not be secured: " ++ displayPath path
  | .error _ => throw ("installation store could not be inspected: " ++ displayPath path)

/-- `open_store`, with the canonical path of the root. -/
def openStore : RootProgram LinuxInstallStoreError (Bytes × LinuxInstallStore) := do
  let lexical ← callRoot .symlinkMetadata fun _ => .rootUnavailable
  Fallible.throwIf (lexical.kind = .symlink) .rootSymbolicLink
  Fallible.throwIf (lexical.kind ≠ .directory) .rootNotDirectory
  let canonical ← callRoot .canonicalize fun _ => .rootUnavailable
  let metadata ← callRoot .metadata fun _ => .rootUnavailable
  Fallible.throwIf (metadata.kind ≠ .directory ∨ protectedRootMode metadata.mode = false)
    .storePathUnsafe
  let procDescriptors ← callRoot .procDescriptors fun _ => .procUnavailable
  Fallible.throwIf (procDescriptors.kind ≠ .directory) .procUnavailable
  let store : LinuxInstallStore := ⟨metadata.device, metadata.inode⟩
  Fallible.handle inside (ensureStoreRoot store)
  Fallible.handle inside (ensurePrivateDirectory store .store stagingDirectory)
  Fallible.handle inside (ensurePrivateDirectory store .store locksDirectory)
  Fallible.handle inside (ensurePrivateDirectory store .store installedDirectory)
  pure (canonical, store)

/-- A receipt, and the canonical path of the store that its paths are relative to. -/
structure StoreReceipt where
  store : Bytes
  installed : InstalledBundle
deriving DecidableEq

/-- Both installations of `CliInstallStore`. -/
def installInto (path : Bytes) (bundle : VerifiedBundle) (publisher : Option AuthorizedPublisher) :
    RootProgram CliInstallStoreError StoreReceipt := do
  Fallible.withError .prepare (prepareStoreRoot path)
  let (canonical, store) ← Fallible.withError .store openStore
  let installed ← Fallible.withError .store
    (Fallible.handle inside (installBundleWithPublisher store bundle publisher))
  pure ⟨canonical, installed⟩

/-! ## What a successful installation leaves -/

variable {fs fs' : Fs} {path : Bytes} {bundle : VerifiedBundle}
  {publisher : Option AuthorizedPublisher} {trace : List (Event RootCall RootReply)}
  {receipt : StoreReceipt}

/-- The calls of an opened store have their own effects. -/
theorem serves_inside {fs fs' : Fs} {c : Install.Call} {r : Install.Reply c} :
    inside.Serves RootEffect fs c r fs' ↔ Truthful fs c r fs' := by
  constructor
  · intro h
    obtain ⟨trace, h⟩ := h
    obtain ⟨v, fs₁, rest, hcall, hdone, _⟩ := executes_call.mp h
    obtain ⟨_, rfl, rfl⟩ := executes_done.mp hdone
    cases r with
    | ok value => exact hcall
    | error error => exact hcall
  · intro h
    refine ⟨_, .call ?_ .done⟩
    cases r with
    | ok value => exact h
    | error error => exact h

theorem executes_inside {α ε : Type} {x : Fallible Install.Call Install.Reply ε α}
    {u : Except ε α} (h : Executes RootEffect fs (Fallible.handle inside x).run trace u fs') :
    ∃ trace', Executes Truthful fs x.run trace' u fs' := by
  obtain ⟨trace', h⟩ := exists_executes_handle_fallible.mp ⟨trace, h⟩
  exact ⟨trace', h.mono fun _ _ _ _ => serves_inside.mp⟩

/-- The store has been opened and its tree verified, whatever failed on the way. -/
theorem installInto_ends (umask : Nat)
    (h : Executes RootEffect fs (installInto path bundle publisher).run trace (.ok receipt) fs') :
    ∃ store, Ends umask store bundle publisher receipt.installed fs' := by
  rcases executes_bind.mp h with ⟨e, _, hv⟩ | ⟨_, fs₁, _, _, _, h, _⟩
  · cases hv
  rcases executes_bind.mp h with ⟨e, _, hv⟩ | ⟨⟨canonical, store⟩, fs₂, _, _, _, h, _⟩
  · cases hv
  rcases executes_bind.mp h with ⟨e, _, hv⟩ | ⟨installed, fs₃, _, _, hinstall, hpure, _⟩
  · cases hv
  obtain ⟨_, hreceipt, rfl⟩ := executes_pure.mp hpure
  cases hreceipt
  obtain ⟨v, hrun, hv⟩ := executes_withError.mp hinstall
  obtain rfl := Outcome.mapError_eq_ok.mp hv.symm
  obtain ⟨trace', hinside⟩ := executes_inside hrun
  exact ⟨store, installBundleWithPublisher_ends hinside⟩

end Invokrum.Delivery
