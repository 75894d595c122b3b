import Invokrum.Base.Success
import Invokrum.Delivery.Store
import Invokrum.Install.Fresh

/-!
# The first installation from the command line

What an opened store achieves on a file system without failures, the command
achieves on the store that it opens. So a bundle that has a place is installed
into a store that knows nothing of its subject.
-/

namespace Invokrum.Delivery

open Programs Environment Invokrum.Distribution Invokrum.Acquisition Invokrum.FileSystem
open Invokrum.Install
open Text (Bytes)

variable {umask : Nat} {store : LinuxInstallStore} {bundle : VerifiedBundle}
  {publisher : Option AuthorizedPublisher} {fs fs' : Fs} {path canonical : Bytes}

/-! ## Calls of an opened store -/

theorem Achieves.served {ε α : Type} {x : Fallible Install.Call Install.Reply ε α} {a : α}
    (h : Achieves Truthful fs x a fs') : Achieves (inside.Serves RootEffect) fs x a fs' :=
  h.mono fun _ _ _ _ => serves_inside.mpr

theorem served_of_outcome {α : Type} {x : Installation α} {a : α}
    (h : (faultless umask).outcome x fs = (.ok a, fs')) :
    Achieves (inside.Serves RootEffect) fs x a fs' :=
  Achieves.served (achieves_of_outcome (truthful_faultless umask) h)

/-! ## The root of the store -/

theorem RootKept.look (h : RootKept store fs) : ∃ metadata : Metadata,
    fs.symlinkMetadata [] = .ok metadata ∧ metadata.kind = .directory ∧
      protectedRootMode metadata.mode = true ∧
        (⟨metadata.device, metadata.inode⟩ : LinuxInstallStore) = store := by
  obtain ⟨n, hn, hkind, hdevice, hinode, hmode⟩ := h
  refine ⟨n.metadata, ?_, hkind, hmode, ?_⟩
  · rw [Fs.symlinkMetadata, hn]
  · rw [hdevice, hinode]

/-- A store that is there needs no preparation. -/
theorem achieves_prepareStoreRoot (h : RootKept store fs) :
    Achieves RootEffect fs (prepareStoreRoot path) () fs := by
  obtain ⟨metadata, hlook, _⟩ := RootKept.look h
  rw [prepareStoreRoot, achieves_bind]
  refine ⟨.ok metadata, fs, achieves_reply.mpr ⟨hlook, rfl⟩, ?_⟩
  exact achieves_pure.mpr ⟨rfl, rfl⟩

/-- An idle store is opened, whatever its canonical path, and ready then. -/
theorem achieves_openStore (umask : Nat) (hidle : Idle store fs) (hroot : RootKept store fs) :
    ∃ fs', Achieves RootEffect fs openStore (canonical, store) fs' ∧ Ready store fs' ∧
      ∀ q, q ∉ internalDirectories → fs'.node q = fs.node q := by
  obtain ⟨metadata, hlook, hkind, hmode, hstore⟩ := RootKept.look hroot
  obtain ⟨fs', hready, hsame, hprepare⟩ := @prepare_outcome umask store fs hidle hroot
  have hinside := served_of_outcome ((hprepare (pure ())).trans outcome_pure)
  refine ⟨fs', ?_, hready, hsame⟩
  simp only [achieves_bind] at hinside
  obtain ⟨_, fs₁, hkept, _, fs₂, hstaging, _, fs₃, hlocks, _, fs₄, hinstalled, hdone⟩ := hinside
  obtain ⟨_, rfl⟩ := achieves_pure.mp hdone
  have hdirectory : ¬ metadata.kind = .symlink ∧ ¬ metadata.kind ≠ .directory := by simp [hkind]
  simp only [openStore, callRoot, achieves_bind, achieves_attempt, achieves_throwIf,
    achieves_handle, achieves_pure]
  refine ⟨metadata, fs, ⟨hlook, rfl⟩, (), fs, ⟨hdirectory.1, rfl⟩, (), fs, ⟨hdirectory.2, rfl⟩,
    canonical, fs, rfl, metadata, fs, ⟨hlook, rfl⟩, (), fs, ⟨by simp [hkind, hmode], rfl⟩,
    metadata, fs, rfl, (), fs, ⟨hdirectory.2, rfl⟩, ?_⟩
  rw [hstore]
  exact ⟨(), fs₁, hkept, (), fs₂, hstaging, (), fs₃, hlocks, (), _, hinstalled, rfl, rfl⟩

/-! ## Installing -/

/-- The internal directories have plain names. -/
theorem plainNames_of_same (hnames : PlainNames fs)
    (hsame : ∀ q, q ∉ internalDirectories → fs'.node q = fs.node q) : PlainNames fs' := by
  intro path name hnode
  by_cases hinternal : path ++ [name] ∈ internalDirectories
  · exact internal_plain hinternal
  · rw [hsame _ hinternal] at hnode
    exact hnames path name hnode

/-- A bundle that has a place is installed into an idle store without its subject. -/
theorem installInto_first (hidle : Idle store fs) (hroot : RootKept store fs)
    (hadmitted : Admitted umask bundle publisher) (hverified : bundle.IsVerified)
    (habsent : fs.node (subjectRoot bundle.subject) = none)
    (hfree : HasFreeAttempt bundle.subject fs) (hplaceable : Placeable bundle)
    (hnames : PlainNames fs) :
    ∃ receipt fs', Achieves RootEffect fs (installInto path bundle publisher) receipt fs' ∧
      PlainNames fs' := by
  obtain ⟨fs₁, hopen, hready, hsame⟩ := @achieves_openStore store fs path umask hidle hroot
  have habsent₁ : fs₁.node (subjectRoot bundle.subject) = none :=
    (hsame (subjectRoot bundle.subject) (not_internal_of_long (Nat.le_refl 2))).trans habsent
  have hfree₁ : HasFreeAttempt bundle.subject fs₁ :=
    hfree.congr fun attempt => hsame _ (not_internal_of_long (stagingPath_length _ attempt).ge)
  obtain ⟨installed, fs', hinstall, hestablished⟩ := install_of_placeable hready.idle hready.root
    hadmitted hverified habsent₁ hfree₁ hplaceable
  refine ⟨⟨path, installed⟩, fs', ?_,
    hestablished.plainNames (plainNames_of_same hnames hsame)⟩
  simp only [installInto, achieves_bind, achieves_withError, achieves_handle, achieves_pure]
  exact ⟨(), fs, achieves_prepareStoreRoot hroot, (path, store), fs₁, hopen, installed, fs',
    served_of_outcome hinstall, rfl, rfl⟩

end Invokrum.Delivery
