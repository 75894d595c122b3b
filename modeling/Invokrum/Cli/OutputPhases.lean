import Invokrum.Cli.Output

/-!
# Phases of a safe write

The disk on the way of one write: as found, with the temporary file on it, with
the temporary file linked to the target, committed, or put back. The part of
the program behind the checks is followed phase by phase over all answers.
-/

namespace Invokrum.Cli

open Programs Invokrum.Inodes
open Text (Bytes)

/-! ## Phases -/

/-- What a write leaves alone: other entries, and what the inodes found hold. -/
structure Frame (d₀ : Disk) (target temporary : Place) (d : Disk) : Prop where
  entry : ∀ q, q ≠ target → q ≠ temporary → d.entry q = d₀.entry q
  content : ∀ i, i < d₀.next → (d.inode i).content = (d₀.inode i).content
  device : ∀ i, i < d₀.next → (d.inode i).device = (d₀.inode i).device

/-- The temporary file stands; its inode is `m`. -/
structure Staged (d₀ : Disk) (temporary : Place) (m : Inode) (d : Disk) : Prop where
  absent : d₀.entry temporary = none
  entry : d.entry = Function.update d₀.entry temporary (some d₀.next)
  inode : d.inode = Function.update d₀.inode d₀.next m

/-- The target is a second entry of the temporary file. -/
structure Linked (d₀ : Disk) (target temporary : Place) (m : Inode) (d : Disk) : Prop where
  absent : d₀.entry temporary = none
  free : d₀.entry target = none
  entry : d.entry = Function.update (Function.update d₀.entry temporary (some d₀.next)) target
    (some d₀.next)
  inode : d.inode = Function.update d₀.inode d₀.next m

/-- The new file stands at the target only. -/
structure Committed (d₀ : Disk) (target : Place) (m : Inode) (d : Disk) : Prop where
  entry : d.entry = Function.update d₀.entry target (some d₀.next)
  inode : d.inode d₀.next = m
  content : ∀ i, i < d₀.next → (d.inode i).content = (d₀.inode i).content
  device : ∀ i, i < d₀.next → (d.inode i).device = (d₀.inode i).device

/-- Nothing that was found has changed. -/
structure Restored (d₀ : Disk) (d : Disk) : Prop where
  entry : d.entry = d₀.entry
  inode : ∀ i, i < d₀.next → d.inode i = d₀.inode i

variable {d₀ d d' : Disk} {target temporary : Place} {m : Inode} {bytes : Bytes}

theorem Staged.inode_old (h : Staged d₀ temporary m d) {i : Nat} (hi : i < d₀.next) :
    d.inode i = d₀.inode i := by
  rw [h.inode, Function.update_of_ne (Nat.ne_of_lt hi)]

theorem Staged.frame (h : Staged d₀ temporary m d) : Frame d₀ target temporary d where
  entry q _ hq := by rw [h.entry, Function.update_of_ne hq]
  content i hi := by rw [h.inode_old hi]
  device i hi := by rw [h.inode_old hi]

theorem Linked.frame (h : Linked d₀ target temporary m d) : Frame d₀ target temporary d where
  entry q hqt hq := by rw [h.entry, Function.update_of_ne hqt, Function.update_of_ne hq]
  content i hi := by rw [h.inode, Function.update_of_ne (Nat.ne_of_lt hi)]
  device i hi := by rw [h.inode, Function.update_of_ne (Nat.ne_of_lt hi)]

theorem Committed.frame (h : Committed d₀ target m d) : Frame d₀ target temporary d where
  entry q hqt _ := by rw [h.entry, Function.update_of_ne hqt]
  content := h.content
  device := h.device

theorem Restored.frame (h : Restored d₀ d) : Frame d₀ target temporary d where
  entry q _ _ := by rw [h.entry]
  content i hi := by rw [h.inode i hi]
  device i hi := by rw [h.inode i hi]

theorem restored_refl : Restored d₀ d₀ := ⟨rfl, fun _ _ => rfl⟩

/-- Directories that were found stay directories. -/
theorem Frame.isDirectory (h : Frame d₀ target temporary d) {p : Place} (hp : p ≠ target)
    (hp' : p ≠ temporary) (hdir : d₀.IsDirectory p) : d.IsDirectory p := by
  obtain ⟨i, hi, hcontent⟩ := hdir
  exact ⟨i, by rw [h.entry p hp hp', hi], by rw [h.content i (d₀.fresh p i hi), hcontent]⟩

/-! ## The target -/

/-- The target is what it was, entry and inode. -/
def Unaltered (d₀ : Disk) (target : Place) (d : Disk) : Prop :=
  d.entry target = d₀.entry target ∧ ∀ i, d₀.entry target = some i → d.inode i = d₀.inode i

/-- The target is a regular file of exactly these bytes. -/
def HoldsBytes (target : Place) (bytes : Bytes) (d : Disk) : Prop :=
  ∃ i, d.entry target = some i ∧ (d.inode i).content = .file bytes

/-- A private file with a single link. -/
structure Published (bytes : Bytes) (m : Inode) : Prop where
  content : m.content = .file bytes
  mode : m.mode &&& 0o777 = privateMode
  links : m.links = 1

/-- What holds of every state on the way. -/
structure Guarded (d₀ : Disk) (target temporary : Place) (bytes : Bytes) (force : Bool)
    (d : Disk) : Prop where
  frame : Frame d₀ target temporary d
  whole : Unaltered d₀ target d ∨ HoldsBytes target bytes d
  kept : force = false → d₀.entry target ≠ none → Unaltered d₀ target d

variable {force : Bool}

theorem guarded_of_unaltered (hframe : Frame d₀ target temporary d)
    (h : Unaltered d₀ target d) : Guarded d₀ target temporary bytes force d :=
  ⟨hframe, .inl h, fun _ _ => h⟩

theorem Staged.unaltered (h : Staged d₀ temporary m d) (hne : target ≠ temporary) :
    Unaltered d₀ target d :=
  ⟨by rw [h.entry, Function.update_of_ne hne], fun i hi => h.inode_old (d₀.fresh target i hi)⟩

theorem Restored.unaltered (h : Restored d₀ d) : Unaltered d₀ target d :=
  ⟨by rw [h.entry], fun i hi => h.inode i (d₀.fresh target i hi)⟩

theorem Linked.guarded (h : Linked d₀ target temporary m d) (hm : m.content = .file bytes) :
    Guarded d₀ target temporary bytes force d := by
  refine ⟨h.frame, .inr ⟨d₀.next, ?_, ?_⟩, fun _ hsome => absurd h.free hsome⟩
  · rw [h.entry, Function.update_self]
  · rw [h.inode, Function.update_self, hm]

theorem Committed.holdsBytes (h : Committed d₀ target m d) (hm : m.content = .file bytes) :
    HoldsBytes target bytes d :=
  ⟨d₀.next, by rw [h.entry, Function.update_self], by rw [h.inode, hm]⟩

theorem Committed.guarded (h : Committed d₀ target m d) (hm : m.content = .file bytes)
    (hforce : force = false → d₀.entry target = none) :
    Guarded d₀ target temporary bytes force d :=
  ⟨h.frame, .inr (h.holdsBytes hm), fun hf hsome => absurd (hforce hf) hsome⟩

/-! ## Moves between phases -/

theorem Staged.isFile (h : Staged d₀ temporary m d) (hm : m.content.kind = .file) :
    ¬ d.IsDirectory temporary := by
  rintro ⟨i, hi, hcontent⟩
  rw [h.entry, Function.update_self, Option.some.injEq] at hi
  subst hi
  rw [h.inode, Function.update_self] at hcontent
  rw [hcontent] at hm
  cases hm

/-- The temporary file is written. -/
theorem Staged.rewrite (h : Staged d₀ temporary m d) (f : Bytes → Bytes) :
    Staged d₀ temporary (Inode.rewrite f m) (d.rewrite d₀.next f) := by
  refine ⟨h.absent, h.entry, ?_⟩
  show Function.update d.inode d₀.next (Inode.rewrite f (d.inode d₀.next)) = _
  rw [h.inode, Function.update_self, Function.update_idem]

/-- The temporary file is removed. -/
theorem Staged.remove (h : Staged d₀ temporary m d) (hd : d.removeFile temporary = .ok d') :
    Restored d₀ d' := by
  obtain ⟨j, hj, _, _, hentry, hinode⟩ := Disk.removeFile_eq_ok hd
  rw [h.entry, Function.update_self, Option.some.injEq] at hj
  subst hj
  constructor
  · rw [hentry, h.entry, Function.update_idem, ← h.absent, Function.update_eq_self]
  · intro i hi
    rw [hinode, Function.update_of_ne (Nat.ne_of_lt hi), h.inode_old hi]

/-- The temporary file is renamed over the target. -/
theorem Staged.rename (h : Staged d₀ temporary m d) (hm : m.content.kind = .file)
    (hne : target ≠ temporary) (hd : d.rename temporary target = .ok d') :
    Committed d₀ target m d' := by
  have hsrc : d.entry temporary = some d₀.next := by rw [h.entry, Function.update_self]
  have htarget : d.entry target = d₀.entry target := by rw [h.entry, Function.update_of_ne hne]
  have hother : d.entry temporary ≠ d.entry target := by
    rw [hsrc, htarget]
    intro heq
    exact Nat.lt_irrefl _ (d₀.fresh target d₀.next heq.symm)
  obtain ⟨_, _, _, hentry, hinode⟩ := Disk.rename_eq_ok (h.isFile hm) hother hd
  have hreplaced : d'.inode d₀.next = m ∧ ∀ i, i < d₀.next →
      (d'.inode i).content = (d₀.inode i).content ∧
        (d'.inode i).device = (d₀.inode i).device := by
    rw [hinode, Disk.replaced, htarget]
    cases hold : d₀.entry target with
    | none =>
        refine ⟨by rw [h.inode, Function.update_self], ?_⟩
        intro i hi
        rw [h.inode_old hi]
        exact ⟨rfl, rfl⟩
    | some k =>
        have hk := d₀.fresh target k hold
        show Function.update d.inode k (Disk.relinked (d.inode k) (· - 1)) d₀.next = m ∧ ∀ i,
          i < d₀.next → (Function.update d.inode k (Disk.relinked (d.inode k) (· - 1)) i).content =
              (d₀.inode i).content ∧
            (Function.update d.inode k (Disk.relinked (d.inode k) (· - 1)) i).device =
              (d₀.inode i).device
        refine ⟨?_, ?_⟩
        · rw [Function.update_of_ne (Nat.ne_of_gt hk), h.inode, Function.update_self]
        · intro i hi
          by_cases hik : i = k
          · subst hik
            rw [Function.update_self, Disk.relinked, h.inode_old hi]
            exact ⟨rfl, rfl⟩
          · rw [Function.update_of_ne hik, h.inode_old hi]
            exact ⟨rfl, rfl⟩
  refine ⟨?_, hreplaced.1, fun i hi => (hreplaced.2 i hi).1, fun i hi => (hreplaced.2 i hi).2⟩
  rw [hentry, hsrc, h.entry, Function.update_idem, ← h.absent, Function.update_eq_self]

/-- The temporary file gets the target as a second entry. -/
theorem Staged.link (h : Staged d₀ temporary m d) (hne : target ≠ temporary)
    (hd : d.hardLink temporary target = .ok d') :
    Linked d₀ target temporary (Disk.relinked m (· + 1)) d' := by
  obtain ⟨j, hj, _, hfree, _, hentry, hinode⟩ := Disk.hardLink_eq_ok hd
  rw [h.entry, Function.update_self, Option.some.injEq] at hj
  subst hj
  rw [h.entry, Function.update_of_ne hne] at hfree
  refine ⟨h.absent, hfree, by rw [hentry, h.entry], ?_⟩
  rw [hinode, h.inode, Function.update_self, Function.update_idem]

/-- The first entry goes; the inodes found are as they were. -/
theorem Linked.removeTemporary (h : Linked d₀ target temporary m d) (hne : target ≠ temporary)
    (hd : d.removeFile temporary = .ok d') :
    Committed d₀ target (Disk.relinked m (· - 1)) d' ∧
      ∀ i, i < d₀.next → d'.inode i = d₀.inode i := by
  obtain ⟨j, hj, _, _, hentry, hinode⟩ := Disk.removeFile_eq_ok hd
  rw [h.entry, Function.update_of_ne hne.symm, Function.update_self, Option.some.injEq] at hj
  subst hj
  have hold : ∀ i, i < d₀.next → d'.inode i = d₀.inode i := by
    intro i hi
    rw [hinode, h.inode, Function.update_of_ne (Nat.ne_of_lt hi),
      Function.update_of_ne (Nat.ne_of_lt hi)]
  refine ⟨⟨?_, ?_, fun i hi => by rw [hold i hi], fun i hi => by rw [hold i hi]⟩, hold⟩
  · have hback : Function.update d₀.entry temporary none = d₀.entry := by
      rw [← h.absent, Function.update_eq_self]
    rw [hentry, h.entry, Function.update_comm hne, Function.update_idem, hback]
  · rw [hinode, h.inode, Function.update_self, Function.update_self]

/-- The second entry goes again. -/
theorem Linked.removeTarget (h : Linked d₀ target temporary m d) (hne : target ≠ temporary)
    (hd : d.removeFile target = .ok d') :
    Staged d₀ temporary (Disk.relinked m (· - 1)) d' := by
  obtain ⟨j, hj, _, _, hentry, hinode⟩ := Disk.removeFile_eq_ok hd
  rw [h.entry, Function.update_self, Option.some.injEq] at hj
  subst hj
  refine ⟨h.absent, ?_, ?_⟩
  · rw [hentry, h.entry, Function.update_idem, ← h.free,
      ← Function.update_of_ne hne (some d₀.next) d₀.entry, Function.update_eq_self]
  · rw [hinode, h.inode, Function.update_self, Function.update_idem]

/-- The committed file goes again, where nothing stood before. -/
theorem Committed.removeTarget (h : Committed d₀ target m d) (hfree : d₀.entry target = none)
    (hold : ∀ i, i < d₀.next → d.inode i = d₀.inode i) (hd : d.removeFile target = .ok d') :
    Restored d₀ d' := by
  obtain ⟨j, hj, _, _, hentry, hinode⟩ := Disk.removeFile_eq_ok hd
  rw [h.entry, Function.update_self, Option.some.injEq] at hj
  subst hj
  constructor
  · rw [hentry, h.entry, Function.update_idem, ← hfree, Function.update_eq_self]
  · intro i hi
    rw [hinode, Function.update_of_ne (Nat.ne_of_lt hi), hold i hi]

end Invokrum.Cli
