import Invokrum.Install.Discipline

/-!
# What a failed installation leaves

One installation alone, with reliable removals. Along the run the store differs
from its start by the lock file while the lock is held, by the quarantine
directory while it is there, and by the promoted tree. A failed run is
balanced, so it leaves the store as it found it exactly when it has met none of
the faults after which the source cleans nothing up.
-/

namespace Invokrum.Install

open Programs Invokrum.Distribution Invokrum.Acquisition Invokrum.FileSystem
open Text (Bytes)

/-- Strictly inside a directory. -/
def Inside (directory q : Path) : Prop := directory <+: q ∧ directory ≠ q

/-- The lock directory, the quarantine area and the subject root are as they were. -/
structure LeftAsFound (subject : Sha256Digest) (fs₀ fs : Fs) : Prop where
  locks : ∀ q, Inside locksDirectory q → fs.node q = fs₀.node q
  staging : ∀ q, Inside stagingDirectory q → fs.node q = fs₀.node q
  target : ∀ q, subjectRoot subject <+: q → fs.node q = fs₀.node q

section

variable {bundle : VerifiedBundle} {publisher : Option AuthorizedPublisher} {fs₀ fs fs' : Fs}
  {p p' : Progress}

theorem inside_iff {name : String} {q : Path} :
    Inside [name] q ↔ q.head? = some name ∧ 2 ≤ q.length := by
  cases q with
  | nil => simp [Inside]
  | cons a q => cases q <;> simp [Inside, eq_comm]

/-! ## The lock file -/

/-- The lock directory differs from its start by the lock file while the lock is held. -/
structure LockKept (subject : Sha256Digest) (fs₀ fs : Fs) (p : Progress) : Prop where
  same : ∀ q, Inside locksDirectory q → (p.lock = .held → q ≠ lockPath subject) →
    fs.node q = fs₀.node q
  held : p.lock = .held → fs₀.node (lockPath subject) = none ∧
    ∃ n, fs.node (lockPath subject) = some n ∧ n.kind = .file

theorem inside_lockPath (subject : Sha256Digest) : Inside locksDirectory (lockPath subject) := by
  rw [locksDirectory, inside_iff]
  exact ⟨rfl, Nat.le_refl 2⟩

theorem LockKept.move (h : LockKept bundle.subject fs₀ fs p)
    (hmove : Moves bundle publisher True fs p fs' p') : LockKept bundle.subject fs₀ fs' p' := by
  by_cases hsame : p'.lock = p.lock
  · have hframe : ∀ q, Inside locksDirectory q → fs'.node q = fs.node q := by
      intro q hq
      obtain ⟨hhead, hlength⟩ := inside_iff.mp hq
      exact hmove.frame_locks hlength hhead (.inl hsame)
    constructor
    · intro q hq hne
      rw [hframe q hq]
      exact h.same q hq fun hheld => hne (hsame.trans hheld)
    · intro hheld
      obtain ⟨habsent, n, hn, hkind⟩ := h.held (hsame.symm.trans hheld)
      exact ⟨habsent, n, by rw [hframe _ (inside_lockPath _), hn], hkind⟩
  · cases hmove with
    | lock hfree habsent hkind hnode =>
        have hfound : ∀ q, Inside locksDirectory q → fs.node q = fs₀.node q := by
          intro q hq
          apply h.same q hq
          intro hheld
          rw [hfree] at hheld
          cases hheld
        constructor
        · intro q hq hne
          rw [hnode, Function.update_of_ne (hne rfl)]
          exact hfound q hq
        · intro _
          refine ⟨?_, _, by rw [hnode, Function.update_self], hkind⟩
          rw [← hfound _ (inside_lockPath _), habsent]
    | unlock hheld =>
        constructor
        · intro q hq _
          by_cases hprefix : lockPath bundle.subject <+: q
          · obtain ⟨rest, rfl⟩ := hprefix
            rw [Fs.removeTree_below fs (List.prefix_append _ rest)]
            exact (fs₀.absent_below (h.held hheld).1 rest).symm
          · rw [Fs.sameOutside_removeTree fs _ q hprefix]
            apply h.same q hq
            intro _ heq
            exact hprefix (heq ▸ List.prefix_refl _)
        · intro hreleased
          cases hreleased
    | unlockFailed hheld hreliable =>
        obtain ⟨_, n, hn, hkind⟩ := h.held hheld
        apply absurd _ (hreliable trivial (fs.removeTree (lockPath bundle.subject)))
        simp [Fs.removeFile, hn, hkind]
    | observe hnode => exact absurd rfl hsame
    | read hread => exact absurd rfl hsame
    | stage attempt hheld hstage habsent hkind hnode => exact absurd rfl hsame
    | work attempt stage' hheld hlive hlive' houtside hkind hholds => exact absurd rfl hsame
    | discard attempt hheld hroot => exact absurd rfl hsame
    | discardFailed attempt hheld hroot hpartly hreliable => exact absurd rfl hsame
    | promote attempt hheld hstage hpromoted hcomplete hmove => exact absurd rfl hsame

/-! ## The quarantine directory -/

/-- The quarantine area differs from its start by the quarantine directory while it is there. -/
structure StageKept (bundle : VerifiedBundle) (fs₀ fs : Fs) (p : Progress) : Prop where
  same : ∀ q, Inside stagingDirectory q → (∀ d, p.stage.liveAt = some d → ¬ d <+: q) →
    fs.node q = fs₀.node q
  created : ∀ d, p.stage.root = some d → fs₀.node d = none
  live : ∀ d, p.stage.liveAt = some d → ∃ n, fs.node d = some n ∧ n.kind = .directory
  valid : p.stage.Valid bundle fs

theorem inside_stagingPath (subject : Sha256Digest) (attempt : Nat) :
    Inside stagingDirectory (stagingPath subject attempt) := by
  rw [stagingDirectory, inside_iff]
  exact ⟨rfl, Nat.le_refl 2⟩

/-- A move that keeps the stage and the entries of the quarantine area. -/
theorem StageKept.keep (h : StageKept bundle fs₀ fs p)
    (hmove : Moves bundle publisher True fs p fs' p') (hstage : p'.stage = p.stage)
    (hnode : ∀ q, Inside stagingDirectory q → fs'.node q = fs.node q) :
    StageKept bundle fs₀ fs' p' where
  same := by
    intro q hq hlive
    rw [hnode q hq]
    exact h.same q hq (hstage ▸ hlive)
  created := hstage ▸ h.created
  live := by
    intro d hd
    rw [hstage] at hd
    obtain ⟨attempt, rfl⟩ := h.valid.root d (Stage.root_of_liveAt hd)
    rw [hnode _ (inside_stagingPath _ attempt)]
    exact h.live _ hd
  valid := hmove.valid h.valid

theorem lockPath_not_above {subject : Sha256Digest} {q : Path} (hq : Inside stagingDirectory q) :
    ¬ lockPath subject <+: q := by
  intro hprefix
  have hhead := (inside_iff.mp hq).1
  rw [head_of_lockPath hprefix] at hhead
  simp at hhead

theorem subjectRoot_not_above {subject : Sha256Digest} {q : Path}
    (hq : Inside stagingDirectory q) : ¬ subjectRoot subject <+: q := by
  intro hprefix
  have hhead := (inside_iff.mp hq).1
  rw [head_of_subjectRoot hprefix] at hhead
  simp at hhead

/-- Once the directory is gone, the quarantine area is as at the start. -/
theorem StageKept.gone {d : Path} (h : StageKept bundle fs₀ fs p)
    (hmove : Moves bundle publisher True fs p fs' p') (hroot : p.stage.root = some d)
    (hroot' : p'.stage.root = some d) (hlive : p'.stage.liveAt = none)
    (hbelow : ∀ q, Inside stagingDirectory q → d <+: q → fs'.node q = none)
    (hother : ∀ q, Inside stagingDirectory q → ¬ d <+: q → fs'.node q = fs.node q) :
    StageKept bundle fs₀ fs' p' where
  same := by
    intro q hq _
    by_cases hprefix : d <+: q
    · rw [hbelow q hq hprefix]
      obtain ⟨rest, rfl⟩ := hprefix
      exact (fs₀.absent_below (h.created d hroot) rest).symm
    · rw [hother q hq hprefix]
      apply h.same q hq
      intro d' hd' hprefix'
      have hsame := (Stage.root_of_liveAt hd').symm.trans hroot
      cases hsame
      exact hprefix hprefix'
  created := by
    intro d' hd'
    have hsame := hd'.symm.trans hroot'
    cases hsame
    exact h.created d hroot
  live := by
    intro d' hd'
    have hsame := hd'.symm.trans hlive
    cases hsame
  valid := hmove.valid h.valid

theorem StageKept.move (h : StageKept bundle fs₀ fs p)
    (hmove : Moves bundle publisher True fs p fs' p') : StageKept bundle fs₀ fs' p' := by
  have hmoved := hmove
  cases hmove with
  | observe hnode => exact h.keep hmoved rfl fun q hq => hnode q (inside_iff.mp hq).2
  | read hread => exact h.keep hmoved rfl fun _ _ => rfl
  | lock hfree habsent hkind hnode =>
      apply h.keep hmoved rfl
      intro q hq
      have hne : q ≠ lockPath bundle.subject := by
        intro heq
        subst heq
        exact lockPath_not_above hq (List.prefix_refl _)
      rw [hnode, Function.update_of_ne hne]
  | unlock hheld =>
      apply h.keep hmoved rfl
      intro q hq
      exact Fs.sameOutside_removeTree fs _ q (lockPath_not_above hq)
  | unlockFailed hheld hreliable => exact h.keep hmoved rfl fun _ _ => rfl
  | stage attempt hheld hstage habsent hkind hnode =>
      have hfound : ∀ q, Inside stagingDirectory q → fs.node q = fs₀.node q := by
        intro q hq
        apply h.same q hq
        intro d hd
        rw [hstage] at hd
        cases hd
      constructor
      · intro q hq hlive
        have hne : q ≠ stagingPath bundle.subject attempt := by
          intro heq
          exact hlive _ rfl (heq ▸ List.prefix_refl _)
        rw [hnode, Function.update_of_ne hne]
        exact hfound q hq
      · intro d hd
        cases hd
        rw [← hfound _ (inside_stagingPath _ attempt), habsent]
      · intro d hd
        cases hd
        exact ⟨_, by rw [hnode, Function.update_self], hkind⟩
      · exact hmoved.valid h.valid
  | work attempt stage' hheld hlive hlive' houtside hkind hholds =>
      constructor
      · intro q hq hoff
        rw [houtside q (hoff _ hlive')]
        apply h.same q hq
        intro d hd hprefix
        rw [hlive] at hd
        cases hd
        exact hoff _ hlive' hprefix
      · intro d hd
        have hsame := hd.symm.trans (Stage.root_of_liveAt hlive')
        cases hsame
        exact h.created _ (Stage.root_of_liveAt hlive)
      · intro d hd
        have hsame := hd.symm.trans hlive'
        cases hsame
        obtain ⟨n, hn, hdirectory⟩ := h.live _ hlive
        exact hkind n hn hdirectory
      · exact hmoved.valid h.valid
  | discard attempt hheld hroot =>
      apply h.gone hmoved hroot (by simpa using hroot) (by simp)
      · exact fun q _ hprefix => Fs.removeTree_below fs hprefix
      · exact fun q _ hoff => Fs.sameOutside_removeTree fs _ q hoff
  | discardFailed attempt hheld hroot hpartly hreliable =>
      obtain ⟨hsame, hfails⟩ := hreliable trivial
      subst hsame
      have hdead : p.stage.liveAt = none := by
        cases hlive : p.stage.liveAt with
        | none => rfl
        | some d =>
            have hsame := (Stage.root_of_liveAt hlive).symm.trans hroot
            cases hsame
            obtain ⟨n, hn, hdirectory⟩ := h.live _ hlive
            have hremoves := hfails (fs'.removeTree (stagingPath bundle.subject attempt))
            simp [Fs.removeDirAll, hn, hdirectory] at hremoves
      constructor
      · intro q hq _
        apply h.same q hq
        intro d hd
        rw [hdead] at hd
        cases hd
      · exact fun d hd => h.created d (by simpa using hd)
      · exact fun d hd => h.live d (by simpa using hd)
      · exact hmoved.valid h.valid
  | promote attempt hheld hstage hpromoted hcomplete hmove =>
      apply h.gone hmoved (by rw [hstage]; rfl) rfl rfl
      · intro q hq hprefix
        exact Fs.moveTree_source fs _ _ hprefix (subjectRoot_not_above hq)
      · intro q hq hoff
        exact Fs.moveTree_outside fs _ _ hoff (subjectRoot_not_above hq)

/-! ## The subject root -/

/-- The subject root is as at the start until the promotion, which gives it a record. -/
structure TargetKept (subject : Sha256Digest) (fs₀ fs : Fs) (p : Progress) : Prop where
  same : p.promoted = false → ∀ q, subjectRoot subject <+: q → fs.node q = fs₀.node q
  promoted : p.promoted = true →
    fs.node (recordPath subject) ≠ none ∧ fs₀.node (recordPath subject) = none

theorem components_record : components installationRecordPath = [".invokrum-installation.json"] := by
  decide

theorem subjectRoot_above (subject : Sha256Digest) : subjectRoot subject <+: recordPath subject :=
  List.prefix_append _ _

/-- A directory moves only where no record is. -/
theorem absent_of_canMove {a : Path} {subject : Sha256Digest}
    (hmove : fs.CanMove a (subjectRoot subject)) : fs.node (recordPath subject) = none := by
  rw [recordPath, components_record]
  rcases hmove.target with habsent | ⟨_, hempty⟩
  · exact fs.absent_below habsent _
  · exact hempty _

theorem record_mem_installedFiles {files : List (Path × Bytes)}
    (h : installedFiles bundle publisher = .ok files) :
    ∃ record, installationRecordBytes bundle publisher = .ok record ∧
      (components installationRecordPath, record) ∈ files := by
  cases hrecord : installationRecordBytes bundle publisher with
  | error e =>
      rw [installedFiles, hrecord] at h
      cases h
  | ok record =>
      rw [installedFiles_eq_ok hrecord] at h
      cases h
      exact ⟨record, rfl, List.mem_append_right _ List.mem_cons_self⟩

theorem TargetKept.move (h : TargetKept bundle.subject fs₀ fs p)
    (hvalid : p.stage.Valid bundle fs) (hmove : Moves bundle publisher True fs p fs' p') :
    TargetKept bundle.subject fs₀ fs' p' := by
  by_cases hsame : p'.promoted = p.promoted
  · have hframe : ∀ q, subjectRoot bundle.subject <+: q → fs'.node q = fs.node q := by
      intro q hq
      have hlength : 2 ≤ q.length := hq.length_le
      exact hmove.frame_target hlength (head_of_subjectRoot hq) (.inl hsame)
    constructor
    · intro hfalse q hq
      rw [hframe q hq]
      exact h.same (hsame.symm.trans hfalse) q hq
    · intro htrue
      rw [hframe _ (subjectRoot_above _)]
      exact h.promoted (hsame.symm.trans htrue)
  · cases hmove with
    | promote attempt hheld hstage hpromoted hcomplete hmove =>
        constructor
        · intro hfalse
          cases hfalse
        · intro _
          obtain ⟨record, _, hmem⟩ := record_mem_installedFiles hcomplete
          have hholds := hvalid.holds
          rw [hstage] at hholds
          obtain ⟨n, hn, _⟩ := hholds.files _ _ hmem
          have hmoved := congrFun (Fs.below_moveTree fs hmove.parent hmove.apart)
            (components installationRecordPath)
          constructor
          · intro hnone
            have habsent := hmoved.symm.trans hnone
            rw [hn] at habsent
            cases habsent
          · rw [← h.same hpromoted _ (subjectRoot_above _)]
            exact absent_of_canMove hmove
    | observe hnode => exact absurd rfl hsame
    | read hread => exact absurd rfl hsame
    | lock hfree habsent hkind hnode => exact absurd rfl hsame
    | unlock hheld => exact absurd rfl hsame
    | unlockFailed hheld hreliable => exact absurd rfl hsame
    | stage attempt hheld hstage habsent hkind hnode => exact absurd rfl hsame
    | work attempt stage' hheld hlive hlive' houtside hkind hholds => exact absurd rfl hsame
    | discard attempt hheld hroot => exact absurd rfl hsame
    | discardFailed attempt hheld hroot hpartly hreliable => exact absurd rfl hsame

/-! ## A failed run -/

variable {store : LinuxInstallStore}

/-- What a lone run with reliable removals keeps. -/
structure Restorable (bundle : VerifiedBundle) (fs₀ fs : Fs) (g : Phase) : Prop where
  lock : LockKept bundle.subject fs₀ fs g.toProgress
  stage : StageKept bundle fs₀ fs g.toProgress
  target : TargetKept bundle.subject fs₀ fs g.toProgress
  free : g.stuck = false

theorem restorable_start (bundle : VerifiedBundle) (fs : Fs) : Restorable bundle fs fs Phase.start where
  lock := ⟨fun _ _ _ => rfl, fun h => nomatch h⟩
  stage := ⟨fun _ _ _ => rfl, fun _ h => (nomatch h), fun _ h => (nomatch h), .none bundle fs⟩
  target := ⟨fun _ _ _ => rfl, fun h => nomatch h⟩
  free := rfl

/-- Reliable removals remove what is there. -/
theorem Restorable.free_move {g : Phase} (h : Restorable bundle fs₀ fs g)
    (hmove : Moves bundle publisher True fs g.toProgress fs' p') : p'.stuck = false := by
  have hfree := h.free
  have hlock := h.lock
  have hstage := h.stage.move hmove
  cases hmove with
  | unlockFailed hheld hreliable =>
      obtain ⟨_, n, hn, hkind⟩ := hlock.held hheld
      have hremoves := hreliable trivial (fs.removeTree (lockPath bundle.subject))
      simp [Fs.removeFile, hn, hkind] at hremoves
  | discardFailed attempt hheld hroot hpartly hreliable =>
      obtain ⟨hsame, hfails⟩ := hreliable trivial
      cases hlive : g.stage.liveAt with
      | none => simp [hfree]
      | some d =>
          have hroot' := (Stage.root_of_liveAt hlive).symm.trans hroot
          cases hroot'
          obtain ⟨n, hn, hdirectory⟩ := h.stage.live _ hlive
          have hremoves := hfails (fs.removeTree (stagingPath bundle.subject attempt))
          simp [Fs.removeDirAll, hn, hdirectory] at hremoves
  | observe hnode => exact hfree
  | read hread => exact hfree
  | lock hfree' habsent hkind hnode => exact hfree
  | unlock hheld => exact hfree
  | stage attempt hheld hstage' habsent hkind hnode => exact hfree
  | work attempt stage' hheld hlive hlive' houtside hkind hholds => exact hfree
  | discard attempt hheld hroot => exact hfree
  | promote attempt hheld hstage' hpromoted hcomplete hmove => exact hfree

theorem Restorable.step {g : Phase} {c : Call} {r : Reply c} (h : Restorable bundle fs₀ fs g)
    (hallowed : (installProtocol store bundle publisher).allowed g c)
    (hperforms : Performs True fs c r fs') :
    Restorable bundle fs₀ fs' ((installProtocol store bundle publisher).advance g c r) := by
  have hmove : Moves bundle publisher True fs g.toProgress fs' (g.toProgress.move c r) :=
    moves_of_performs hallowed hperforms
  exact ⟨h.lock.move hmove, h.stage.move hmove, h.target.move h.stage.valid hmove,
    h.free_move hmove⟩

/-- The store is as it was exactly when the phase says that nothing is left. -/
theorem Restorable.leftAsFound_iff {g : Phase} (h : Restorable bundle fs₀ fs g) :
    LeftAsFound bundle.subject fs₀ fs ↔ ¬ (g.lock = .held ∨ g.Left) := by
  constructor
  · intro hfound hleft
    rcases hleft with hheld | hlive | hpromoted
    · obtain ⟨habsent, n, hn, _⟩ := h.lock.held hheld
      rw [hfound.locks _ (inside_lockPath _), habsent] at hn
      cases hn
    · obtain ⟨d, hd⟩ := Option.isSome_iff_exists.mp hlive
      obtain ⟨attempt, rfl⟩ := h.stage.valid.root d (Stage.root_of_liveAt hd)
      obtain ⟨n, hn, _⟩ := h.stage.live _ hd
      rw [hfound.staging _ (inside_stagingPath _ attempt),
        h.stage.created _ (Stage.root_of_liveAt hd)] at hn
      cases hn
    · obtain ⟨hthere, habsent⟩ := h.target.promoted hpromoted
      rw [hfound.target _ (subjectRoot_above _)] at hthere
      exact hthere habsent
  · intro hnone
    constructor
    · intro q hq
      exact h.lock.same q hq fun hheld => absurd (.inl hheld) hnone
    · intro q hq
      apply h.stage.same q hq
      intro d hd
      exact absurd (.inr (.inl (Option.isSome_iff_exists.mpr ⟨d, hd⟩))) hnone
    · intro q hq
      apply h.target.same _ q hq
      cases hpromoted : g.promoted with
      | false => rfl
      | true => exact absurd (.inr (.inr hpromoted)) hnone

/-- The failure patterns after which an installation cleans nothing up: an operation failed
between the creation of the lock file and its guard; an operation failed between the creation
of the quarantine directory and its use; the cleanup never found the quarantine directory; or
something failed after the promotion. -/
def Uncleaned (store : LinuxInstallStore) (trace : List (Event Call Reply)) : Prop :=
  (∃ e ∈ trace, lockRefused e.call e.reply = true) ∨
  (∃ e ∈ trace, stagingRefused store e.call e.reply = true) ∨
  ((∃ e ∈ trace, probed e.call e.reply = true) ∧
    ∀ e ∈ trace, probeFound e.call e.reply = false) ∨
  ∃ e ∈ trace, renamed e.call e.reply = true

theorem move_promoted (p : Progress) (e : Event Call Reply) :
    (p.move e.call e.reply).promoted = (p.promoted || renamed e.call e.reply) := by
  obtain ⟨⟨site, op⟩, r⟩ := e
  cases site <;> cases op <;> cases r <;> simp [Progress.move, renamed]

theorem after_uncleaned_iff {g : Phase} {trace : List (Event Call Reply)}
    (hg : (installProtocol store bundle publisher).after Phase.start trace = g) :
    (g.faults.lock = true ∨ g.Faulty) ↔ Uncleaned store trace := by
  let P := installProtocol store bundle publisher
  have hlock : g.faults.lock = trace.any fun e => lockRefused e.call e.reply := by
    rw [← hg]
    exact @Protocol.after_flag _ _ _ P (fun g => g.faults.lock)
      (fun e => lockRefused e.call e.reply) (fun _ _ => rfl) _ _
  have hstaging : g.faults.staging = trace.any fun e => stagingRefused store e.call e.reply := by
    rw [← hg]
    exact @Protocol.after_flag _ _ _ P (fun g => g.faults.staging)
      (fun e => stagingRefused store e.call e.reply) (fun _ _ => rfl) _ _
  have hprobed : g.faults.probed = trace.any fun e => probed e.call e.reply := by
    rw [← hg]
    exact @Protocol.after_flag _ _ _ P (fun g => g.faults.probed)
      (fun e => probed e.call e.reply) (fun _ _ => rfl) _ _
  have hfound : g.faults.found = trace.any fun e => probeFound e.call e.reply := by
    rw [← hg]
    exact @Protocol.after_flag _ _ _ P (fun g => g.faults.found)
      (fun e => probeFound e.call e.reply) (fun _ _ => rfl) _ _
  have hpromoted : g.promoted = trace.any fun e => renamed e.call e.reply := by
    rw [← hg]
    exact @Protocol.after_flag _ _ _ P (fun g => g.promoted)
      (fun e => renamed e.call e.reply) (fun g e => move_promoted g.toProgress e) _ _
  simp only [Phase.Faulty, Uncleaned, hlock, hstaging, hprobed, hfound, hpromoted,
    List.any_eq_true, List.any_eq_false, Bool.not_eq_true]

/-- A failed installation, alone and with reliable removals, leaves the store as it found it
exactly when its calls failed in none of the patterns that are not cleaned up. -/
theorem failedInstall_leftAsFound_iff (store : LinuxInstallStore) (bundle : VerifiedBundle)
    (publisher : Option AuthorizedPublisher) (fs₀ fs : Fs) (trace : List (Event Call Reply))
    (e : LinuxInstallStoreError)
    (hrun : Executes (Performs True) fs₀ (installBundleWithPublisher store bundle publisher).run
      trace (.error e) fs) :
    LeftAsFound bundle.subject fs₀ fs ↔ ¬ Uncleaned store trace := by
  have hmeets : (installProtocol store bundle publisher).Meets (Phase.Received bundle publisher)
      Phase.Balanced Phase.start (installBundleWithPublisher store bundle publisher) :=
    meets_installBundleWithPublisher
  obtain ⟨hkept, hbalanced⟩ := hrun.obeys
    (fun _ _ _ _ _ h hallowed hperforms => h.step hallowed hperforms)
    (restorable_start bundle fs₀) hmeets.obeys
  rw [hkept.leftAsFound_iff, ← after_uncleaned_iff rfl]
  rcases hbalanced with hstuck | hiff
  · have hfree := hkept.free
    rw [hstuck] at hfree
    cases hfree
  · exact not_congr hiff

end

/-! ## A failed run that leaves its lock file -/

def sampleDirectory (inode : Nat) : Node := ⟨⟨.directory, 1, inode, 2, 0o700⟩, []⟩

/-- A store as `open` leaves it. -/
def sampleFs : Fs where
  node
    | [] => some (sampleDirectory 1)
    | [".staging"] => some (sampleDirectory 2)
    | [".locks"] => some (sampleDirectory 3)
    | ["sha256"] => some (sampleDirectory 4)
    | _ => none
  nextInode := 5
  closed := by
    intro p name h
    cases p with
    | nil => exact ⟨_, rfl, rfl⟩
    | cons a p =>
        exfalso
        cases p <;> simp at h

def sampleStore : LinuxInstallStore := ⟨1, 1⟩

theorem rejectReservedPaths_sampleBundle : rejectReservedPaths sampleBundle = pure () := by
  have h : (sampleBundle.files.any fun file => isReserved file.path) = false := by decide
  rw [rejectReservedPaths, h]
  rfl

/-- The new lock file cannot be synchronised. -/
def sampleTrace : List (Event Call Reply) :=
  [⟨⟨.store, .symlinkMetadata []⟩, .ok (sampleDirectory 1).metadata⟩,
    ⟨⟨.store, .symlinkMetadata stagingDirectory⟩, .ok (sampleDirectory 2).metadata⟩,
    ⟨⟨.store, .symlinkMetadata locksDirectory⟩, .ok (sampleDirectory 3).metadata⟩,
    ⟨⟨.store, .symlinkMetadata installedDirectory⟩, .ok (sampleDirectory 4).metadata⟩,
    ⟨⟨.store, .symlinkMetadata locksDirectory⟩, .ok (sampleDirectory 3).metadata⟩,
    ⟨⟨.lock, .createNew (lockPath sampleSubject) privateFileMode⟩, .ok ()⟩,
    ⟨⟨.lockCheck, .syncAll (lockPath sampleSubject)⟩, .error IoError.other⟩]

theorem performs_symlinkMetadata {reliable : Prop} {site : Site} {fs : Fs} {p : Path} {n : Node}
    (h : fs.node p = some n) :
    Performs reliable fs ⟨site, .symlinkMetadata p⟩ (.ok n.metadata) fs :=
  ⟨Fs.symlinkMetadata_eq_ok.mpr ⟨n, h, rfl⟩, rfl⟩

theorem executes_sampleTrace : ∃ fs, fs.node (lockPath sampleSubject) ≠ none ∧
    Executes (Performs True) sampleFs
      (installBundleWithPublisher sampleStore sampleBundle none).run sampleTrace (.error .io) fs := by
  obtain ⟨fs, hcreate, hnode⟩ : ∃ fs, sampleFs.createFile (lockPath sampleSubject)
      (privateFileMode.ldiff 0) = .ok fs ∧ _ :=
    Fs.createNode_absent (d := sampleDirectory 3) rfl rfl
  have hroot : sampleFs.node [] = some (sampleDirectory 1) := rfl
  have hstaging : sampleFs.node stagingDirectory = some (sampleDirectory 2) := rfl
  have hlocks : sampleFs.node locksDirectory = some (sampleDirectory 3) := rfl
  have hinstalled : sampleFs.node installedDirectory = some (sampleDirectory 4) := rfl
  have hlock : Performs True sampleFs
      ⟨.lock, .createNew (lockPath sampleSubject) privateFileMode⟩ (.ok ()) fs := ⟨0, hcreate⟩
  have hsync : Performs True fs
      ⟨.lockCheck, .syncAll (lockPath sampleSubject)⟩ (.error IoError.other) fs := rfl
  refine ⟨fs, ?_, ?_⟩
  · rw [hnode, Function.update_self]
    simp
  · rw [installBundleWithPublisher, rejectReservedPaths_sampleBundle]
    apply Executes.call (performs_symlinkMetadata hroot)
    apply Executes.call (performs_symlinkMetadata hstaging)
    apply Executes.call (performs_symlinkMetadata hlocks)
    apply Executes.call (performs_symlinkMetadata hinstalled)
    apply Executes.call (performs_symlinkMetadata hlocks)
    apply Executes.call hlock
    apply Executes.call hsync
    exact .done

/-- A failed installation does not always leave the store as it found it. -/
theorem failedInstall_leavesLock : ¬ ∀ (store : LinuxInstallStore) (bundle : VerifiedBundle)
    (publisher : Option AuthorizedPublisher) (fs₀ fs : Fs) (trace : List (Event Call Reply))
    (e : LinuxInstallStoreError),
    Executes (Performs True) fs₀ (installBundleWithPublisher store bundle publisher).run trace
      (.error e) fs → LeftAsFound bundle.subject fs₀ fs := by
  intro hclaim
  obtain ⟨fs, hleft, hrun⟩ := executes_sampleTrace
  have hfound := hclaim _ _ _ _ _ _ _ hrun
  exact hleft (hfound.locks _ (inside_lockPath sampleSubject))

/-- The run above meets one of the patterns, as the characterisation says. -/
theorem failedInstall_leftAsFound_sample : ∃ fs,
    fs.node (lockPath sampleSubject) ≠ none ∧
      (LeftAsFound sampleSubject sampleFs fs ↔ ¬ Uncleaned sampleStore sampleTrace) := by
  obtain ⟨fs, hleft, hrun⟩ := executes_sampleTrace
  exact ⟨fs, hleft, failedInstall_leftAsFound_iff sampleStore sampleBundle none sampleFs fs
    sampleTrace .io hrun⟩

end Invokrum.Install
