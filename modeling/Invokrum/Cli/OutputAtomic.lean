import Invokrum.Cli.OutputChecks
import Invokrum.Cli.OutputPhases

/-!
# A safe write behind its checks

Every call may fail on its own. A failure before the commit leaves the target as
it was; a failure behind it, or of the lookup by which the rollback recognises
the target, leaves the new file.
-/

namespace Invokrum.Cli

open Programs Invokrum.Inodes
open Text (Bytes)

/-! ## Staging -/

/-- The removals by dropped guards do not fail on their own. -/
def Reliable (faulty : Call Site → IoError → Prop) : Prop :=
  ∀ c e, c.site = .cleanup → ¬ faulty c e

section

variable {proc : Process} {faulty : Call Site → IoError → Prop} {d₀ d d' : Disk} {parent : Place}
  {name other : Name} {bytes : Bytes} {force : Bool} {m : Inode}
  {t : List (Event (Call Site) Reply)}

theorem child_ne (hne : name ≠ other) : parent ++ [name] ≠ parent ++ [other] := by
  simpa using hne

theorem Guarded.parentDirectory (h : Guarded d₀ (parent ++ [name]) (parent ++ [other]) bytes force d)
    (hparent : d₀.IsDirectory parent) : d.IsDirectory parent :=
  h.frame.isDirectory Disk.concat_ne_self Disk.concat_ne_self hparent

theorem guarded_start :
    Guarded d₀ (parent ++ [name]) (parent ++ [other]) bytes force d₀ :=
  guarded_of_unaltered restored_refl.frame restored_refl.unaltered

theorem Staged.guarded (h : Staged d₀ (parent ++ [other]) m d) (hne : name ≠ other) :
    Guarded d₀ (parent ++ [name]) (parent ++ [other]) bytes force d :=
  guarded_of_unaltered h.frame (h.unaltered (child_ne hne))

theorem ends_validateStagedMetadata {Inv : Disk → Prop} (metadata : Metadata) (hinv : Inv d) :
    Ends (Performs proc faulty) Inv
      (fun _ d' _ => d' = d ∧ metadata.mode &&& 0o777 = privateMode ∧ metadata.links = 1)
      (fun d' _ => d' = d) d t (validateStagedMetadata metadata) := by
  apply Ends.bindThrowIf hinv fun _ => rfl
  intro _
  apply Ends.throwIf hinv _ fun _ => rfl
  intro hcheck
  rw [not_or, not_not, not_not] at hcheck
  exact ⟨rfl, hcheck⟩

/-- The new file holds the bytes, or a part of them when something failed. -/
theorem ends_stageFile (hparent : d₀.IsDirectory parent) (hne : name ≠ other) :
    Ends (Performs proc faulty) (Guarded d₀ (parent ++ [name]) (parent ++ [other]) bytes force)
      (fun staged d _ => ∃ m, Staged d₀ (parent ++ [other]) m d ∧ Published bytes m ∧
        staged = d.stat d₀.next)
      (fun d _ => d = d₀ ∨ ∃ m, Staged d₀ (parent ++ [other]) m d ∧ m.content.kind = .file)
      d₀ t (stageFile (parent ++ [other]) bytes) := by
  apply Ends.bindAttempt guarded_start
  · intro j d hcreate
    obtain ⟨hj, habsent, _, hentry, hinode⟩ := hcreate.createNew_child hparent
    subst hj
    have hstaged : Staged d₀ (parent ++ [other]) _ d := ⟨habsent, hentry, hinode⟩
    apply Ends.bindAttempt (hstaged.guarded hne)
    · intro _ d' hwrite
      obtain ⟨_, rfl⟩ := hwrite.answers
      have hwritten := hstaged.rewrite (· ++ bytes)
      apply bindObserve rfl (hwritten.guarded hne)
      · intro _ _
        apply bindObserve rfl (hwritten.guarded hne)
        · intro metadata hstat
          obtain rfl := Except.ok.inj hstat.answers.2
          apply Ends.bind (ends_validateStagedMetadata _ (hwritten.guarded hne))
          · rintro _ d' t' hinv ⟨rfl, hmode, hlinks⟩
            refine Ends.pure hinv ⟨_, hwritten, ⟨rfl, ?_, ?_⟩, rfl⟩
            · simpa [Disk.stat, hwritten.inode] using hmode
            · simpa [Disk.stat, hwritten.inode] using hlinks
          · rintro d' t' rfl
            exact .inr ⟨_, hwritten, rfl⟩
        · exact fun _ => .inr ⟨_, hwritten, rfl⟩
      · exact fun _ => .inr ⟨_, hwritten, rfl⟩
    · intro e d' hwrite
      rcases hwrite with ⟨hok, _⟩ | ⟨_, _, _, n, rfl⟩
      · cases hok
      · have hwritten := hstaged.rewrite (· ++ bytes.take n)
        exact ⟨hwritten.guarded hne, .inr ⟨_, hwritten, rfl⟩⟩
  · intro e d hcreate
    obtain rfl := hcreate.of_error rfl
    exact ⟨guarded_start, .inl rfl⟩

/-! ## Commits -/

theorem Committed.stat (h : Committed d₀ (parent ++ [name]) m d) :
    d.entry (parent ++ [name]) = some d₀.next ∧ d.inode d₀.next = m :=
  ⟨by rw [h.entry, Function.update_self], h.inode⟩

/-- Behind the commit only the call itself can fail. -/
theorem ends_validateCommittedTarget {Inv : Disk → Prop} {site : Site} {staged : Metadata}
    (hinv : Inv d) (hcommitted : Committed d₀ (parent ++ [name]) m d) (hm : Published bytes m)
    (hinode : staged.inode = d₀.next) (hdevice : staged.device = m.device) :
    Ends (Performs proc faulty) Inv (fun _ d' _ => d' = d)
      (fun d' t' => d' = d ∧ (site = .settle → Late t')) d t
      (validateCommittedTarget site (parent ++ [name]) staged) := by
  obtain ⟨hentry, hat⟩ := hcommitted.stat
  apply bindObserve rfl hinv
  · intro metadata h
    have hsome : d.entry (parent ++ [name]) ≠ none := by
      rw [hentry]
      exact Option.some_ne_none _
    obtain ⟨j, hj, rfl⟩ := h.symlinkMetadata_place hsome
    obtain rfl := Option.some.inj (hentry.symm.trans hj)
    have hkind : (d.stat d₀.next).kind = .file := by
      simp [Disk.stat, hat, hm.content, Content.kind]
    have hsame : sameIdentity (d.stat d₀.next) staged = true := by
      simp [sameIdentity, Disk.stat, hat, hinode, hdevice]
    have hmode : (d.stat d₀.next).mode &&& 0o777 = privateMode := by
      simp only [Disk.stat, hat, hm.mode]
    have hlinks : (d.stat d₀.next).links = 1 := by
      simp only [Disk.stat, hat, hm.links]
    rw [hkind]
    apply Ends.bindThrowIf hinv (fun h => by cases h)
    intro _
    apply Ends.bindThrowIf hinv (fun h => by simp [hsame] at h)
    intro _
    exact Ends.throwIf hinv (fun _ => rfl) fun h => absurd h (by simp [hmode, hlinks])
  · exact fun e => ⟨rfl, fun hsite => late_concat (.inl hsite)⟩

/-- Renamed over the target; behind the rename there is no way back. -/
theorem ends_commitReplace (hparent : d₀.IsDirectory parent) (hne : name ≠ other)
    (hstaged : Staged d₀ (parent ++ [other]) m d) (hm : Published bytes m) :
    Ends (Performs proc faulty) (Guarded d₀ (parent ++ [name]) (parent ++ [other]) bytes true)
      (fun _ d' _ => Committed d₀ (parent ++ [name]) m d')
      (fun d' t' => Staged d₀ (parent ++ [other]) m d' ∨
        Committed d₀ (parent ++ [name]) m d' ∧ Late t') d t
      (commitReplace (parent ++ [other]) (parent ++ [name]) (d.stat d₀.next)) := by
  have hguarded : Guarded d₀ (parent ++ [name]) (parent ++ [other]) bytes true d :=
    hstaged.guarded hne
  apply Ends.bind (still_checkTarget hguarded (hguarded.parentDirectory hparent))
  · rintro _ d₁ t₁ _ ⟨rfl, _⟩
    apply Ends.bindAttempt hguarded
    · intro _ d' hrename
      have hcommitted := hstaged.rename (by rw [hm.content, Content.kind]) (child_ne hne)
        (hrename.rename_child (hguarded.parentDirectory hparent))
      have hinv : Guarded d₀ (parent ++ [name]) (parent ++ [other]) bytes true d' :=
        hcommitted.guarded hm.content fun hforce => by cases hforce
      apply Ends.mono _ _ (ends_validateCommittedTarget hinv hcommitted hm rfl _)
      · rintro _ d t rfl
        exact hcommitted
      · rintro d t ⟨rfl, hlate⟩
        exact .inr ⟨hcommitted, hlate rfl⟩
      · show (d₁.inode d₀.next).device = m.device
        rw [hstaged.inode, Function.update_self]
    · intro e d' hrename
      obtain rfl := hrename.of_error rfl
      exact ⟨hguarded, .inl hstaged⟩
  · rintro d' t' rfl
    exact .inl hstaged

/-- The drop of a guard removes what it guards, or changes nothing. -/
theorem ends_dropGuard {Inv : Disk → Prop} {Ok : Unit → Disk → List (Event (Call Site) Reply) → Prop}
    {Err : Disk → List (Event (Call Site) Reply) → Prop} {place : Name} (hinv : Inv d)
    (hdir : d.IsDirectory parent)
    (hremoved : ∀ d' r, d.removeFile (parent ++ [place]) = .ok d' →
      Inv d' ∧ Ok () d' (t ++ [⟨⟨.cleanup, .removeFile (absolute (parent ++ [place]))⟩, r⟩]))
    (hkept : ∀ r, (Reliable faulty → ∃ e, d.removeFile (parent ++ [place]) = .error e) →
      Ok () d (t ++ [⟨⟨.cleanup, .removeFile (absolute (parent ++ [place]))⟩, r⟩])) :
    Ends (Performs proc faulty) Inv Ok Err d t (dropGuard (parent ++ [place])) := by
  apply Ends.bindReply hinv
  intro r d' hremove
  by_cases hreliable : Reliable faulty
  · rcases hremove.removeFile_reliable hdir (hreliable _ · rfl) with hok | ⟨rfl, herror⟩
    · obtain ⟨hinv', hpost⟩ := hremoved d' r hok
      exact Ends.pure hinv' hpost
    · exact Ends.pure hinv (hkept r fun _ => herror)
  · cases r with
    | ok u =>
        obtain ⟨hinv', hpost⟩ := hremoved d' (.ok u) (hremove.removeFile_child hdir)
        exact Ends.pure hinv' hpost
    | error e =>
        obtain rfl := hremove.of_error rfl
        exact Ends.pure hinv (hkept (.error e) fun h => absurd h hreliable)

/-- What a failed write may leave before the guard of the temporary file is dropped. -/
def Aborted (faulty : Call Site → IoError → Prop) (d₀ : Disk) (target temporary : Place)
    (bytes : Bytes) (d : Disk) (t : List (Event (Call Site) Reply)) : Prop :=
  Restored d₀ d ∨ (∃ m, Staged d₀ temporary m d ∧ m.content.kind = .file) ∨
    d₀.entry temporary = none ∧
      ∃ m, (Committed d₀ target m d ∨ Linked d₀ target temporary m d) ∧
        m.content = .file bytes ∧ (Reliable faulty → Late t)

/-- The rollback of a target that is still the new file. -/
theorem ends_rollback {Inv : Disk → Prop} {Err : Disk → List (Event (Call Site) Reply) → Prop}
    {staged : Metadata} (hinv : Inv d) (hdir : d.IsDirectory parent)
    (hentry : d.entry (parent ++ [name]) = some d₀.next)
    (hfile : (d.inode d₀.next).content.kind = .file)
    (hsame : sameIdentity (d.stat d₀.next) staged = true)
    (hremoved : ∀ d' t', d.removeFile (parent ++ [name]) = .ok d' → Inv d' ∧ Err d' t')
    (hkept : ∀ t', (Reliable faulty → Late t') → Err d t') :
    Ends (Performs proc faulty) Inv (fun _ => Err) Err d t
      (dropGuardIfIdentity (parent ++ [name]) staged) := by
  have hnotdir : ¬ d.IsDirectory (parent ++ [name]) := by
    rintro ⟨i, hi, hcontent⟩
    rw [hentry, Option.some.injEq] at hi
    subst hi
    rw [hcontent] at hfile
    cases hfile
  apply bindRequest rfl hinv
  intro r h
  cases r with
  | ok metadata =>
      obtain ⟨j, hj, rfl⟩ := h.symlinkMetadata_child hdir
      obtain rfl := Option.some.inj (hentry.symm.trans hj)
      show Ends _ _ _ _ _ _ (if sameIdentity (d.stat d₀.next) staged = true then
        dropGuard (parent ++ [name]) else pure ())
      rw [if_pos hsame]
      apply ends_dropGuard hinv hdir
      · exact fun d' r hd => hremoved d' _ hd
      · intro r herror
        apply hkept
        intro hreliable
        obtain ⟨e, he⟩ := herror hreliable
        obtain ⟨d', hd'⟩ := Disk.removeFile_ok hentry hnotdir
        rw [hd'] at he
        cases he
  | error e => exact Ends.pure hinv (hkept _ fun _ => late_concat (.inr rfl))

/-- The temporary entry of the linked file goes; a failure leaves one or both entries. -/
theorem ends_unlinkTemporary (hparent : d₀.IsDirectory parent) (hne : name ≠ other)
    (hlinked : Linked d₀ (parent ++ [name]) (parent ++ [other]) m d) (hcontent : m.content = .file bytes)
    (hmode : m.mode &&& 0o777 = privateMode) (hlinks : m.links = 2) {staged : Metadata}
    (hinode : staged.inode = d₀.next) (hdevice : staged.device = m.device) :
    Ends (Performs proc faulty) (Guarded d₀ (parent ++ [name]) (parent ++ [other]) bytes false)
      (fun _ d' _ => ∃ m, Committed d₀ (parent ++ [name]) m d' ∧ Published bytes m)
      (fun d' _ => d' = d ∨ ∃ m, Committed d₀ (parent ++ [name]) m d' ∧ Published bytes m ∧
        m.device = staged.device ∧ ∀ i, i < d₀.next → d'.inode i = d₀.inode i) d t
      (do
        call .commit (.removeFile (absolute (parent ++ [other]))) fun _ => .io
        validateCommittedTarget .commit (parent ++ [name]) staged) := by
  have hguarded : Guarded d₀ (parent ++ [name]) (parent ++ [other]) bytes false d :=
    hlinked.guarded hcontent
  apply Ends.bindAttempt hguarded
  · intro _ d' hremove
    have hd := hremove.removeFile_child (hguarded.parentDirectory hparent)
    obtain ⟨hcommitted, hold⟩ := hlinked.removeTemporary (child_ne hne) hd
    have hpublished : Published bytes (Disk.relinked m (· - 1)) :=
      ⟨hcontent, hmode, by rw [Disk.relinked, hlinks]⟩
    have hinv : Guarded d₀ (parent ++ [name]) (parent ++ [other]) bytes false d' :=
      hcommitted.guarded hcontent fun _ => hlinked.free
    apply Ends.mono _ _ (ends_validateCommittedTarget hinv hcommitted hpublished hinode hdevice)
    · rintro _ d₁ t₁ rfl
      exact ⟨_, hcommitted, hpublished⟩
    · rintro d₁ t₁ ⟨rfl, _⟩
      exact .inr ⟨_, hcommitted, hpublished, hdevice.symm, hold⟩
  · intro e d' hremove
    obtain rfl := hremove.of_error rfl
    exact ⟨hguarded, .inl rfl⟩

/-- Linked to the target and unlinked from the temporary place, or rolled back. -/
theorem ends_commitNoClobber (hparent : d₀.IsDirectory parent) (hne : name ≠ other)
    (hstaged : Staged d₀ (parent ++ [other]) m d) (hm : Published bytes m) :
    Ends (Performs proc faulty) (Guarded d₀ (parent ++ [name]) (parent ++ [other]) bytes false)
      (fun _ d' _ => ∃ m, Committed d₀ (parent ++ [name]) m d' ∧ Published bytes m)
      (Aborted faulty d₀ (parent ++ [name]) (parent ++ [other]) bytes) d t
      (commitNoClobber (parent ++ [other]) (parent ++ [name]) (d.stat d₀.next)) := by
  have hguarded : Guarded d₀ (parent ++ [name]) (parent ++ [other]) bytes false d :=
    hstaged.guarded hne
  have hkind : m.content.kind = .file := by rw [hm.content, Content.kind]
  have hstage : ∀ t, Aborted faulty d₀ (parent ++ [name]) (parent ++ [other]) bytes d t :=
    fun _ => .inr (.inl ⟨m, hstaged, hkind⟩)
  apply Ends.bindReply hguarded
  intro r d₁ hlink
  cases r with
  | error e =>
      obtain rfl := hlink.of_error rfl
      cases e <;> exact Ends.throw hguarded (hstage _)
  | ok u =>
      have hlinked := hstaged.link (child_ne hne)
        (hlink.hardLink_child (hguarded.parentDirectory hparent))
      have hdevice : (d.stat d₀.next).device = m.device := by
        rw [Disk.stat, hstaged.inode, Function.update_self]
      apply Ends.onError (ends_unlinkTemporary hparent hne hlinked hm.content hm.mode
        (by rw [Disk.relinked, hm.links]) rfl hdevice)
      rintro d₂ t₂ hinv (rfl | ⟨m₂, hcommitted, hpublished, hdevice₂, hold⟩)
      · have hat : d₂.inode d₀.next = Disk.relinked m (· + 1) := by
          rw [hlinked.inode, Function.update_self]
        apply ends_rollback hinv (hinv.parentDirectory hparent)
          (by rw [hlinked.entry, Function.update_self]) (by rw [hat]; exact hkind)
          (by simp [sameIdentity, Disk.stat, hat, hstaged.inode, Disk.relinked])
        · intro d₃ t₃ hd
          have hback := hlinked.removeTarget (child_ne hne) hd
          exact ⟨hback.guarded hne, .inr (.inl ⟨_, hback, hkind⟩)⟩
        · exact fun t₃ hlate =>
            .inr (.inr ⟨hlinked.absent, _, .inr hlinked, hm.content, hlate⟩)
      · obtain ⟨hentry, hat⟩ := hcommitted.stat
        apply ends_rollback hinv (hinv.parentDirectory hparent) hentry
          (by rw [hat, hpublished.content, Content.kind])
          (by simp [sameIdentity, Disk.stat, hat, hdevice₂])
        · intro d₃ t₃ hd
          have hback := hcommitted.removeTarget hlinked.free hold hd
          exact ⟨guarded_of_unaltered hback.frame hback.unaltered, .inl hback⟩
        · exact fun t₃ hlate =>
            .inr (.inr ⟨hlinked.absent, _, .inl hcommitted, hpublished.content, hlate⟩)

/-! ## The guarded part -/

/-- The parent is still the directory that was pinned. -/
theorem ends_verifyPinned {i : Nat} {site : Site} (hparent : d₀.IsDirectory parent)
    (hi : d₀.entry parent = some i)
    (hinv : Guarded d₀ (parent ++ [name]) (parent ++ [other]) bytes force d) :
    Ends (Performs proc faulty) (Guarded d₀ (parent ++ [name]) (parent ++ [other]) bytes force)
      (fun _ d' _ => d' = d) (fun d' t' => d' = d ∧ (site = .settle → Late t')) d t
      (verifyParentIdentity site parent (d₀.stat i)) := by
  obtain ⟨j, hj, hcontent⟩ := hparent
  obtain rfl := Option.some.inj (hi.symm.trans hj)
  have hold : i < d₀.next := d₀.fresh parent i hi
  have hentry : d.entry parent = some i := by
    rw [hinv.frame.entry parent Disk.concat_ne_self Disk.concat_ne_self, hi]
  have hdir : (d.inode i).content = .directory := by rw [hinv.frame.content i hold, hcontent]
  have hdevice : (d₀.stat i).device = (d.inode i).device := by
    rw [hinv.frame.device i hold, Disk.stat]
  exact ends_verifyParentIdentity hinv hentry hdir rfl hdevice

theorem ends_stageAndCommit {i : Nat} (hparent : d₀.IsDirectory parent)
    (hi : d₀.entry parent = some i) (hne : name ≠ other) :
    Ends (Performs proc faulty) (Guarded d₀ (parent ++ [name]) (parent ++ [other]) bytes force)
      (fun _ d _ => ∃ m, Committed d₀ (parent ++ [name]) m d ∧ Published bytes m)
      (Aborted faulty d₀ (parent ++ [name]) (parent ++ [other]) bytes) d₀ t
      (stageAndCommit parent (parent ++ [name]) (parent ++ [other]) (d₀.stat i) bytes force) := by
  apply Ends.bind (ends_stageFile hparent hne)
  · rintro _ d t hinv ⟨m, hstaged, hm, rfl⟩
    apply Ends.bind (ends_verifyPinned hparent hi hinv)
    · rintro _ d₁ t₁ _ rfl
      cases force with
      | true =>
          apply Ends.mono _ _ (ends_commitReplace hparent hne hstaged hm)
          · exact fun _ d₂ t₂ hcommitted => ⟨m, hcommitted, hm⟩
          · rintro d₂ t₂ (hstaged' | ⟨hcommitted, hlate⟩)
            · exact .inr (.inl ⟨m, hstaged', by rw [hm.content, Content.kind]⟩)
            · exact .inr (.inr ⟨hstaged.absent, m, .inl hcommitted, hm.content, fun _ => hlate⟩)
      | false => exact ends_commitNoClobber hparent hne hstaged hm
    · rintro d₁ t₁ ⟨rfl, _⟩
      exact .inr (.inl ⟨m, hstaged, by rw [hm.content, Content.kind]⟩)
  · rintro d t (rfl | ⟨m, hstaged, hkind⟩)
    · exact .inl restored_refl
    · exact .inr (.inl ⟨m, hstaged, hkind⟩)

/-- A failed write leaves what it found, or the new file behind a late failure. -/
def Failed (faulty : Call Site → IoError → Prop) (d₀ : Disk) (target : Place) (bytes : Bytes)
    (d : Disk) (t : List (Event (Call Site) Reply)) : Prop :=
  Reliable faulty → Restored d₀ d ∨
    ∃ m, Committed d₀ target m d ∧ m.content = .file bytes ∧ Late t

theorem not_removable {place : Place} (h : d.entry place = none ∨ d.IsDirectory place) :
    d.removeFile place ≠ .ok d' := by
  intro hd
  obtain ⟨j, hj, hdir, _⟩ := Disk.removeFile_eq_ok hd
  rcases h with hnone | hdir'
  · rw [hnone] at hj
    cases hj
  · exact hdir hdir'

/-- The guard of the temporary file takes away what staging left, and nothing else. -/
theorem ends_dropTemporary {Err : Disk → List (Event (Call Site) Reply) → Prop}
    (hparent : d₀.IsDirectory parent) (hne : name ≠ other)
    (hfree : d₀.entry (parent ++ [other]) = none ∨ d₀.IsDirectory (parent ++ [other]))
    (hinv : Guarded d₀ (parent ++ [name]) (parent ++ [other]) bytes force d)
    (h : Aborted faulty d₀ (parent ++ [name]) (parent ++ [other]) bytes d t) :
    Ends (Performs proc faulty) (Guarded d₀ (parent ++ [name]) (parent ++ [other]) bytes force)
      (fun _ => Failed faulty d₀ (parent ++ [name]) bytes) Err d t
      (dropGuard (parent ++ [other])) := by
  have hdir := hinv.parentDirectory hparent
  rcases h with hrestored | ⟨m, hstaged, hkind⟩ | ⟨habsent, m, hcommitted | hlinked, hm, hlate⟩
  · apply ends_dropGuard hinv hdir
    · intro d' r hd
      refine absurd hd (not_removable ?_)
      rcases hfree with hnone | ⟨j, hj, hcontent⟩
      · exact .inl (by rw [hrestored.entry, hnone])
      · exact .inr ⟨j, by rw [hrestored.entry, hj],
          by rw [hrestored.inode j (d₀.fresh _ j hj), hcontent]⟩
    · exact fun _ _ _ => .inl hrestored
  · apply ends_dropGuard hinv hdir
    · intro d' r hd
      have hback := hstaged.remove hd
      exact ⟨guarded_of_unaltered hback.frame hback.unaltered, fun _ => .inl hback⟩
    · intro r herror hreliable
      obtain ⟨e, he⟩ := herror hreliable
      have hentry : d.entry (parent ++ [other]) = some d₀.next := by
        rw [hstaged.entry, Function.update_self]
      obtain ⟨d', hd'⟩ := Disk.removeFile_ok hentry (hstaged.isFile hkind)
      rw [hd'] at he
      cases he
  · have hnone : d.entry (parent ++ [other]) = none := by
      rw [hcommitted.entry, Function.update_of_ne (child_ne hne).symm, habsent]
    apply ends_dropGuard hinv hdir
    · exact fun d' r hd => absurd hd (not_removable (.inl hnone))
    · exact fun r _ hreliable => .inr ⟨m, hcommitted, hm, (hlate hreliable).append _⟩
  · apply ends_dropGuard hinv hdir
    · intro d' r hd
      have hcommitted := (hlinked.removeTemporary (child_ne hne) hd).1
      refine ⟨hcommitted.guarded hm fun _ => hlinked.free, fun hreliable => ?_⟩
      exact .inr ⟨_, hcommitted, hm, (hlate hreliable).append _⟩
    · intro r herror hreliable
      obtain ⟨e, he⟩ := herror hreliable
      have hentry : d.entry (parent ++ [other]) = some d₀.next := by
        rw [hlinked.entry, Function.update_of_ne (child_ne hne).symm, Function.update_self]
      have hfile : ¬ d.IsDirectory (parent ++ [other]) := by
        rintro ⟨j, hj, hcontent⟩
        rw [hentry, Option.some.injEq] at hj
        subst hj
        rw [hlinked.inode, Function.update_self, hm] at hcontent
        cases hcontent
      obtain ⟨d', hd'⟩ := Disk.removeFile_ok hentry hfile
      rw [hd'] at he
      cases he

theorem ends_syncDirectory {Inv : Disk → Prop} (hinv : Inv d) :
    Ends (Performs proc faulty) Inv (fun _ d' _ => d' = d) (fun d' t' => d' = d ∧ Late t') d t
      (syncDirectory parent) := by
  apply bindObserve rfl hinv
  · intro directory _
    exact lastObserve rfl hinv (fun _ _ => rfl) fun e => ⟨rfl, late_concat (.inl rfl)⟩
  · exact fun e => ⟨rfl, late_concat (.inl rfl)⟩

theorem ends_publish {i : Nat} (hparent : d₀.IsDirectory parent) (hi : d₀.entry parent = some i)
    (hne : name ≠ other)
    (hfree : d₀.entry (parent ++ [other]) = none ∨ d₀.IsDirectory (parent ++ [other])) :
    Ends (Performs proc faulty) (Guarded d₀ (parent ++ [name]) (parent ++ [other]) bytes force)
      (fun _ d _ => ∃ m, Committed d₀ (parent ++ [name]) m d ∧ Published bytes m)
      (Failed faulty d₀ (parent ++ [name]) bytes) d₀ t
      (publish parent (parent ++ [name]) (parent ++ [other]) (d₀.stat i) bytes force) := by
  apply Ends.bind (Ends.onError (ends_stageAndCommit hparent hi hne)
    fun d t hinv h => ends_dropTemporary hparent hne hfree hinv h)
  · rintro _ d t hinv ⟨m, hcommitted, hm⟩
    have hlate : ∀ t, Late t → Failed faulty d₀ (parent ++ [name]) bytes d t :=
      fun t h _ => .inr ⟨m, hcommitted, hm.content, h⟩
    apply Ends.bind (ends_verifyPinned hparent hi hinv)
    · rintro _ d₁ t₁ _ rfl
      apply Ends.mono _ _ (ends_syncDirectory hinv)
      · rintro _ d₂ t₂ rfl
        exact ⟨m, hcommitted, hm⟩
      · rintro d₂ t₂ ⟨rfl, h⟩
        exact hlate t₂ h
    · rintro d₁ t₁ ⟨rfl, h⟩
      exact hlate t₁ (h rfl)
  · exact fun _ _ h => h

/-- With a directory at the temporary place nothing is created or removed. -/
theorem ends_publish_refused {Inv : Disk → Prop} {i : Nat} (hinv : Inv d₀) (hparent : d₀.IsDirectory parent)
    (hdir : d₀.IsDirectory (parent ++ [other])) :
    Ends (Performs proc faulty) Inv (fun _ _ _ => False) (fun _ _ => True) d₀ t
      (publish parent (parent ++ [name]) (parent ++ [other]) (d₀.stat i) bytes force) := by
  have hstage : Ends (Performs proc faulty) Inv (fun _ _ _ => False)
      (fun d' _ => d' = d₀) d₀ t (stageFile (parent ++ [other]) bytes) := by
    apply Ends.bindAttempt hinv
    · intro j d' hcreate
      exact absurd (hcreate.createNew_child hparent).2.1 hdir.entry_ne_none
    · intro e d' hcreate
      obtain rfl := hcreate.of_error rfl
      exact ⟨hinv, rfl⟩
  have hbody : Ends (Performs proc faulty) Inv (fun _ _ _ => False) (fun d' _ => d' = d₀) d₀
      t (stageAndCommit parent (parent ++ [name]) (parent ++ [other]) (d₀.stat i) bytes force) :=
    hstage.bind (fun _ _ _ _ h => h.elim) fun _ _ h => h
  have hguard : Ends (Performs proc faulty) Inv (fun _ _ _ => False) (fun _ _ => True) d₀ t
      (Fallible.onError
        (stageAndCommit parent (parent ++ [name]) (parent ++ [other]) (d₀.stat i) bytes force)
        (dropGuard (parent ++ [other]))) := by
    apply Ends.onError hbody
    rintro d' t' _ rfl
    apply ends_dropGuard hinv hparent
    · exact fun d₁ r hd => absurd hd (not_removable (.inr hdir))
    · exact fun _ _ => trivial
  exact hguard.bind (fun _ _ _ _ h => h.elim) fun _ _ h => h

theorem temporaryName_ne (pid sequence : Nat) : name ≠ temporaryName name pid sequence := by
  intro heq
  have hlength := congrArg List.length heq
  have hdot : (Text.bytes ".").length = 1 := by decide
  simp only [temporaryName, List.length_append, hdot] at hlength
  omega

end

end Invokrum.Cli
