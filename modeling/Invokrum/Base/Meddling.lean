import Invokrum.Base.Inodes

/-!
# Another process below a directory

What another process can do to entries strictly below a directory, and to the
contents and attributes of files. Entries elsewhere stay, no inode changes its
kind, and whoever changes an inode moves its change time on.
-/

namespace Invokrum.Inodes

open Text (Bytes)

def Below (root p : Place) : Prop := ∃ rest, rest ≠ [] ∧ p = root ++ rest

/-- One step of another process. -/
inductive Meddle (root : Place) (d : Disk) : Disk → Prop where
  | create (p : Place) (inode : Inode) (hbelow : Below root p)
      (hparent : d.IsDirectory p.dropLast) (habsent : d.entry p = none) :
      Meddle root d (d.create p inode hparent habsent)
  | link (src dst : Place) {d' : Disk} (hsrc : Below root src) (hdst : Below root dst)
      (h : d.hardLink src dst = .ok d') : Meddle root d d'
  | unlink (p : Place) {d' : Disk} (hbelow : Below root p) (h : d.removeFile p = .ok d') :
      Meddle root d d'
  | removeDirectory (p : Place) (hbelow : Below root p)
      (hempty : ∀ name, d.entry (p ++ [name]) = none) : Meddle root d (d.clear p hempty)
  | rename (src dst : Place) {d' : Disk} (hsrc : Below root src) (hdst : Below root dst)
      (h : d.rename src dst = .ok d') : Meddle root d d'
  | write (j : Nat) (f : Bytes → Bytes) : Meddle root d (d.rewrite j f)
  | touch (j mode mtime : Nat) : Meddle root d (d.change j
      (fun n => { n with mode := mode, mtime := mtime, ctime := n.ctime + 1 }) fun _ => rfl)

theorem Meddle.createNew {root p : Place} {d d' : Disk} {inode : Inode} {j : Nat}
    (hbelow : Below root p) (h : d.createNew p inode = .ok (j, d')) : Meddle root d d' := by
  unfold Disk.createNew at h
  split_ifs at h with habsent hparent
  cases h
  exact .create p inode hbelow hparent habsent

/-- Any number of such steps. -/
def Meddles (root : Place) : Disk → Disk → Prop := Relation.ReflTransGen (Meddle root)

/-! ## Elsewhere -/

variable {root p src dst : Place} {d d' : Disk}

theorem Below.of_prefix (h : Below root src) (hp : src <+: p) : Below root p := by
  obtain ⟨rest, hne, rfl⟩ := h
  obtain ⟨more, rfl⟩ := hp
  exact ⟨rest ++ more, by simp [hne], by rw [List.append_assoc]⟩

theorem Below.ne {q : Place} (h : Below root q) (hp : ¬ Below root p) : p ≠ q := by
  rintro rfl
  exact hp h

theorem rename_entry (hsrc : Below root src) (hdst : Below root dst) (h : d.rename src dst = .ok d')
    (hp : ¬ Below root p) : d'.entry p = d.entry p := by
  unfold Disk.rename at h
  split_ifs at h
  · cases h
    rfl
  · cases h
    show (d.replaced dst).moved src dst p = d.entry p
    rw [Disk.moved, if_neg fun hq => hp (hdst.of_prefix hq), if_neg fun hq => hp (hsrc.of_prefix hq),
      Disk.replaced_entry]

theorem Meddle.entry (h : Meddle root d d') (hp : ¬ Below root p) : d'.entry p = d.entry p := by
  cases h with
  | create q inode hbelow _ _ =>
      exact Function.update_of_ne (hbelow.ne hp) _ _
  | link src dst _ hdst h =>
      obtain ⟨_, _, _, _, _, hentry, _⟩ := Disk.hardLink_eq_ok h
      rw [hentry, Function.update_of_ne (hdst.ne hp)]
  | unlink q hbelow h =>
      obtain ⟨_, _, _, _, hentry, _⟩ := Disk.removeFile_eq_ok h
      rw [hentry, Function.update_of_ne (hbelow.ne hp)]
  | removeDirectory q hbelow _ => exact Function.update_of_ne (hbelow.ne hp) _ _
  | rename src dst hsrc hdst h => exact rename_entry hsrc hdst h hp
  | write j f => rfl
  | touch j mode mtime => rfl

theorem Meddles.entry (h : Meddles root d d') (hp : ¬ Below root p) : d'.entry p = d.entry p := by
  induction h with
  | refl => rfl
  | tail _ hstep ih => rw [hstep.entry hp, ih]

/-! ## Inodes -/

/-- What becomes of an inode: it keeps its kind, and changes only as time goes on. -/
structure Ages (n n' : Inode) : Prop where
  kind : n'.content.kind = n.content.kind
  device : n'.device = n.device
  ctime : n.ctime ≤ n'.ctime
  content : n'.ctime = n.ctime → n'.content = n.content

theorem Ages.refl (n : Inode) : Ages n n := ⟨rfl, rfl, Nat.le_refl _, fun _ => rfl⟩

theorem Ages.trans {a b c : Inode} (h : Ages a b) (h' : Ages b c) : Ages a c where
  kind := h'.kind.trans h.kind
  device := h'.device.trans h.device
  ctime := Nat.le_trans h.ctime h'.ctime
  content htime := by
    have hb : b.ctime = a.ctime := Nat.le_antisymm (htime ▸ h'.ctime) h.ctime
    rw [h'.content (htime.trans hb.symm), h.content hb]

/-- Without time passing at the ends none passes in the middle. -/
theorem Ages.between {a b c : Inode} (h : Ages a b) (h' : Ages b c) (htime : c.ctime = a.ctime) :
    b.ctime = a.ctime :=
  Nat.le_antisymm (htime ▸ h'.ctime) h.ctime

theorem ages_relinked (n : Inode) (f : Nat → Nat) : Ages n (Disk.relinked n f) where
  kind := rfl
  device := rfl
  ctime := Nat.le_succ _
  content _ := rfl

theorem ages_rewrite (n : Inode) (f : Bytes → Bytes) : Ages n (Inode.rewrite f n) := by
  refine ⟨Inode.rewrite_kind f n, ?_, ?_, ?_⟩
  · unfold Inode.rewrite
    split <;> rfl
  · unfold Inode.rewrite
    split
    · exact Nat.le_succ _
    · exact Nat.le_refl _
  · unfold Inode.rewrite
    split
    · intro h
      exact absurd h (Nat.succ_ne_self _)
    · exact fun _ => rfl

/-- One inode changes at most. -/
theorem ages_update {j i : Nat} {n : Inode} (h : Ages (d.inode j) n) :
    Ages (d.inode i) (Function.update d.inode j n i) := by
  by_cases hi : i = j
  · subst hi
    rwa [Function.update_self]
  · rw [Function.update_of_ne hi]
    exact .refl _

theorem replaced_ages (q : Place) (i : Nat) : Ages (d.inode i) ((d.replaced q).inode i) := by
  unfold Disk.replaced
  split
  · exact .refl _
  · next k _ => exact ages_update (n := Disk.relinked (d.inode k) (· - 1)) (ages_relinked _ _)

theorem Meddle.ages (h : Meddle root d d') {i : Nat} (hi : i < d.next) :
    d.next ≤ d'.next ∧ Ages (d.inode i) (d'.inode i) := by
  cases h with
  | create q inode _ _ _ =>
      refine ⟨Nat.le_succ _, ?_⟩
      show Ages _ (Function.update d.inode d.next inode i)
      rw [Function.update_of_ne (Nat.ne_of_lt hi)]
      exact .refl _
  | link src dst _ _ h =>
      obtain ⟨j, _, _, _, hnext, _, hinode⟩ := Disk.hardLink_eq_ok h
      rw [hnext, hinode]
      exact ⟨Nat.le_refl _, ages_update (ages_relinked _ _)⟩
  | unlink q _ h =>
      obtain ⟨j, _, _, hnext, _, hinode⟩ := Disk.removeFile_eq_ok h
      rw [hnext, hinode]
      exact ⟨Nat.le_refl _, ages_update (ages_relinked _ _)⟩
  | removeDirectory q _ _ => exact ⟨Nat.le_refl _, .refl _⟩
  | rename src dst _ _ h =>
      unfold Disk.rename at h
      split_ifs at h
      · cases h
        exact ⟨Nat.le_refl _, .refl _⟩
      · cases h
        refine ⟨?_, replaced_ages dst i⟩
        show d.next ≤ (d.replaced dst).next
        unfold Disk.replaced
        split <;> exact Nat.le_refl _
  | write j f => exact ⟨Nat.le_refl _, ages_update (ages_rewrite _ f)⟩
  | touch j mode mtime =>
      exact ⟨Nat.le_refl _, ages_update ⟨rfl, rfl, Nat.le_succ _, fun _ => rfl⟩⟩

theorem Meddles.ages (h : Meddles root d d') {i : Nat} (hi : i < d.next) :
    d.next ≤ d'.next ∧ Ages (d.inode i) (d'.inode i) := by
  induction h with
  | refl => exact ⟨Nat.le_refl _, .refl _⟩
  | tail _ hstep ih =>
      have hnext := hstep.ages (Nat.lt_of_lt_of_le hi ih.1)
      exact ⟨Nat.le_trans ih.1 hnext.1, ih.2.trans hnext.2⟩

end Invokrum.Inodes
