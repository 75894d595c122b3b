import Invokrum.Install.Cleanup

/-!
# Concurrent installations

Any number of installations into one store, interleaved call by call and with
crashes. The lock file excludes a second installation of its subject, so the
quarantine directory of the holder stays its own until it becomes the subject
root; an installed tree has a record, and no directory moves onto it.
-/

namespace Invokrum.Install

open Programs Invokrum.Distribution Invokrum.Acquisition Invokrum.FileSystem
open Text (Bytes)

/-- What one run installs. -/
structure Request where
  bundle : VerifiedBundle
  publisher : Option AuthorizedPublisher
deriving DecidableEq

def Request.subject (request : Request) : Sha256Digest := request.bundle.subject

def Request.program (store : LinuxInstallStore) (request : Request) :
    Program Call Reply (Except LinuxInstallStoreError InstalledBundle) :=
  (installBundleWithPublisher store request.bundle request.publisher).run

/-- The tree of the request is at the root of its subject. -/
def Request.InstalledIn (request : Request) (fs : Fs) : Prop :=
  ∃ files, installedFiles request.bundle request.publisher = .ok files ∧
    IsInstalled request.bundle files fs (subjectRoot request.subject)

/-! ## Places of different subjects -/

theorem digest_bytes_length (digest : Sha256Digest) : (Text.bytes digest.text).length = 64 := by
  have h := digest.valid
  simp only [Digest.validSha256, Bool.and_eq_true, beq_iff_eq] at h
  exact h.1

theorem subject_eq_of_append {s t : Sha256Digest} {x y : String}
    (h : s.text ++ x = t.text ++ y) : s = t := by
  have hbytes : Text.bytes s.text ++ Text.bytes x = Text.bytes t.text ++ Text.bytes y := by
    have heq := congrArg Text.bytes h
    simpa [Text.bytes] using heq
  have hlength : (Text.bytes s.text).length = (Text.bytes t.text).length := by
    rw [digest_bytes_length, digest_bytes_length]
  exact Sha256Digest.text_injective (Text.bytes_injective (List.append_inj_left hbytes hlength))

theorem entry_eq_of_prefixed {name x y : String} {q : Path} (h : [name, x] <+: name :: y :: q) :
    x = y := by
  simp only [List.cons_prefix_cons, true_and] at h
  exact h.1

theorem lockPath_not_above_of_ne {s t : Sha256Digest} (hne : s ≠ t) (rest : Path) :
    ¬ lockPath s <+: lockPath t ++ rest :=
  fun h => hne (subject_eq_of_append (entry_eq_of_prefixed h))

theorem subjectRoot_not_above_of_ne {s t : Sha256Digest} (hne : s ≠ t) (rest : Path) :
    ¬ subjectRoot s <+: subjectRoot t ++ rest :=
  fun h => hne (Sha256Digest.text_injective (entry_eq_of_prefixed h))

theorem stagingPath_not_above_of_ne {s t : Sha256Digest} (hne : s ≠ t) (attempt attempt' : Nat)
    (rest : Path) : ¬ stagingPath s attempt <+: stagingPath t attempt' ++ rest := by
  intro h
  have hentry := entry_eq_of_prefixed h
  rw [String.append_assoc, String.append_assoc] at hentry
  exact hne (subject_eq_of_append hentry)

/-! ## The invariant -/

variable {ι : Type} {store : LinuxInstallStore} {request : ι → Request}
  {fs fs' : Fs} {γ : ι → Progress} {i j : ι} {p' : Progress}

/-- What all interleaved installations keep together. -/
structure Shared (request : ι → Request) (fs : Fs) (γ : ι → Progress) : Prop where
  locked : ∀ i, (γ i).lock = .held → fs.node (lockPath (request i).subject) ≠ none
  alone : ∀ i j, (request i).subject = (request j).subject → (γ i).lock = .held →
    (γ j).lock = .held → i = j
  idle : ∀ i, (γ i).lock = .free → (γ i).stage = .none
  stage : ∀ i, (γ i).lock = .held → (γ i).stage.Valid (request i).bundle fs
  absent : ∀ subject, (∀ i, (request i).subject = subject → (γ i).promoted = false) →
    fs.node (subjectRoot subject) = none
  installed : ∀ i, (γ i).promoted = true → (request i).InstalledIn fs
  once : ∀ i j, (request i).subject = (request j).subject → (γ i).promoted = true →
    (γ j).promoted = true → i = j
  seen : ∀ i record, (γ i).seen = some record →
    ∃ k, (request k).subject = (request i).subject ∧ (γ k).promoted = true ∧
    installationRecordBytes (request k).bundle (request k).publisher = .ok record

/-- The move of one installation between the shared file systems. -/
abbrev MovesAt (request : ι → Request) (i : ι) (fs : Fs) (p : Progress) (fs' : Fs)
    (p' : Progress) : Prop :=
  Moves (request i).bundle (request i).publisher False fs p fs' p'

/-- Without the lock, and without taking it, an installation changes nothing below the
internal directories. -/
theorem Moves.stays {bundle : VerifiedBundle} {publisher : Option AuthorizedPublisher}
    {reliable : Prop} {p : Progress} (h : Moves bundle publisher reliable fs p fs' p')
    (hlock : p'.lock = p.lock) (hfree : p.lock ≠ .held) (q : Path) (hq : 2 ≤ q.length) :
    fs'.node q = fs.node q := by
  cases h with
  | observe hnode => exact hnode q hq
  | read hread => rfl
  | lock hfree' habsent hkind hnode =>
      rw [hfree'] at hlock
      cases hlock
  | unlock hheld => exact absurd hheld hfree
  | unlockFailed hheld hreliable => rfl
  | stage attempt hheld hstage habsent hkind hnode => exact absurd hheld hfree
  | work attempt stage' hheld hlive hlive' houtside hkind hholds => exact absurd hheld hfree
  | discard attempt hheld hroot => exact absurd hheld hfree
  | discardFailed attempt hheld hroot hpartly hreliable => exact absurd hheld hfree
  | promote attempt hheld hstage hpromoted hcomplete hmove => exact absurd hheld hfree

/-- While another run holds the lock of the subject, a run neither takes nor releases it. -/
theorem Shared.excluded (h : Shared request fs γ) (hmove : MovesAt request i fs (γ i) fs' p')
    (hne : j ≠ i) (hsame : (request j).subject = (request i).subject)
    (hheld : (γ j).lock = .held) : p'.lock = (γ i).lock ∧ (γ i).lock ≠ .held := by
  have hfree : (γ i).lock ≠ .held := fun hi => hne (h.alone j i hsame hheld hi)
  refine ⟨?_, hfree⟩
  cases hmove with
  | lock hfree' habsent hkind hnode =>
      apply absurd _ (h.locked j hheld)
      rw [hsame]
      exact habsent
  | unlock hheld' => exact absurd hheld' hfree
  | unlockFailed hheld' hreliable => exact absurd hheld' hfree
  | _ => rfl

/-- The lock file and the quarantine directories of a holder are its own. -/
theorem Shared.frame_holder (h : Shared request fs γ)
    (hmove : MovesAt request i fs (γ i) fs' p') (hne : j ≠ i) (hheld : (γ j).lock = .held) :
    fs'.node (lockPath (request j).subject) = fs.node (lockPath (request j).subject) ∧
      ∀ attempt rest, fs'.node (stagingPath (request j).subject attempt ++ rest) =
        fs.node (stagingPath (request j).subject attempt ++ rest) := by
  by_cases hsame : (request j).subject = (request i).subject
  · obtain ⟨hlock, hfree⟩ := h.excluded hmove hne hsame hheld
    exact ⟨hmove.stays hlock hfree _ (Nat.le_refl 2),
      fun attempt rest => hmove.stays hlock hfree _ (Nat.le_add_left 2 rest.length)⟩
  · have hother : (request i).bundle.subject ≠ (request j).subject := fun heq => hsame heq.symm
    constructor
    · apply hmove.frame_locks (q := lockPath (request j).subject) (Nat.le_refl 2) rfl
      right
      have hoff := lockPath_not_above_of_ne hother []
      rwa [List.append_nil] at hoff
    · intro attempt rest
      have hlength : 2 ≤ (stagingPath (request j).subject attempt ++ rest).length :=
        Nat.le_add_left 2 rest.length
      apply hmove.frame_staging hlength rfl
      intro attempt'
      exact stagingPath_not_above_of_ne hother attempt' attempt rest

/-- An installed tree has the record of its installation. -/
theorem Request.InstalledIn.record {request : Request} (h : request.InstalledIn fs) :
    ∃ record, installationRecordBytes request.bundle request.publisher = .ok record ∧
      fs.readFile (recordPath request.subject) = .ok record := by
  obtain ⟨files, hfiles, hinstalled⟩ := h
  obtain ⟨record, hrecord, hmem⟩ := record_mem_installedFiles hfiles
  obtain ⟨n, hn, hkind, hbytes⟩ := hinstalled.files _ _ hmem
  have hnode : fs.node (recordPath request.subject) = some n := hn
  refine ⟨record, hrecord, ?_⟩
  simp [Fs.readFile, hnode, hkind, hbytes]

theorem Request.InstalledIn.congr {request : Request} (h : request.InstalledIn fs)
    (hnode : ∀ rest, fs'.node (subjectRoot request.subject ++ rest) =
      fs.node (subjectRoot request.subject ++ rest)) : request.InstalledIn fs' := by
  obtain ⟨files, hfiles, hinstalled⟩ := h
  refine ⟨files, hfiles, ?_⟩
  have hbelow : fs'.below (subjectRoot request.subject) = fs.below (subjectRoot request.subject) :=
    funext hnode
  rw [IsInstalled, hbelow]
  exact hinstalled

/-- An installed subject is not promoted again. -/
theorem Shared.not_again (h : Shared request fs γ) (hmove : MovesAt request i fs (γ i) fs' p')
    (hsame : (request j).subject = (request i).subject) (hpromoted : (γ j).promoted = true) :
    p'.promoted = (γ i).promoted := by
  cases hmove with
  | promote attempt hheld hstage hpromoted' hcomplete hcan =>
      obtain ⟨record, _, hread⟩ := (h.installed j hpromoted).record
      obtain ⟨n, hn, _⟩ := Fs.readFile_eq_ok hread
      have habsent : fs.node (recordPath (request i).subject) = none := absent_of_canMove hcan
      rw [← hsame, hn] at habsent
      cases habsent
  | _ => rfl

/-- The tree of an installed subject does not change. -/
theorem Shared.frame_installed (h : Shared request fs γ)
    (hmove : MovesAt request i fs (γ i) fs' p') (hpromoted : (γ j).promoted = true)
    (rest : Path) :
    fs'.node (subjectRoot (request j).subject ++ rest) =
      fs.node (subjectRoot (request j).subject ++ rest) := by
  have hlength : 2 ≤ (subjectRoot (request j).subject ++ rest).length :=
    Nat.le_add_left 2 rest.length
  apply hmove.frame_target hlength rfl
  by_cases hsame : (request j).subject = (request i).subject
  · exact .inl (h.not_again hmove hsame hpromoted)
  · exact .inr (subjectRoot_not_above_of_ne (fun heq => hsame heq.symm) rest)

/-! ## Every move keeps the invariant -/

theorem Shared.none_of_start (fs : Fs) (request : ι → Request)
    (hempty : ∀ subject, fs.node (subjectRoot subject) = none) :
    Shared request fs fun _ => Progress.start where
  locked _ h := nomatch h
  alone _ _ _ h := nomatch h
  idle _ _ := rfl
  stage _ h := nomatch h
  absent subject _ := hempty subject
  installed _ h := nomatch h
  once _ _ _ h := nomatch h
  seen _ _ h := nomatch h

/-- What a move does to the lock of its run. -/
theorem Moves.lock_of_held {bundle : VerifiedBundle} {publisher : Option AuthorizedPublisher}
    {reliable : Prop} {p : Progress} (h : Moves bundle publisher reliable fs p fs' p')
    (hheld : p'.lock = .held) :
    (p.lock = .held ∧ fs'.node (lockPath bundle.subject) = fs.node (lockPath bundle.subject)) ∨
      (p.lock = .free ∧ fs.node (lockPath bundle.subject) = none ∧
        fs'.node (lockPath bundle.subject) ≠ none) := by
  by_cases hlock : p'.lock = p.lock
  · left
    refine ⟨hlock.symm.trans hheld, ?_⟩
    exact h.frame_locks (q := lockPath bundle.subject) (Nat.le_refl 2) rfl (.inl hlock)
  · right
    cases h with
    | lock hfree habsent hkind hnode =>
        refine ⟨hfree, habsent, ?_⟩
        rw [hnode, Function.update_self]
        simp
    | unlock hheld' => cases hheld
    | unlockFailed hheld' hreliable => cases hheld
    | _ => exact absurd rfl hlock

theorem Moves.idle {bundle : VerifiedBundle} {publisher : Option AuthorizedPublisher}
    {reliable : Prop} {p : Progress} (h : Moves bundle publisher reliable fs p fs' p')
    (hfree : p'.lock = .free) : p.lock = .free ∧ p'.stage = p.stage := by
  cases h with
  | observe hnode => exact ⟨hfree, rfl⟩
  | read hread => exact ⟨hfree, rfl⟩
  | lock hfree' habsent hkind hnode => cases hfree
  | unlock hheld => cases hfree
  | unlockFailed hheld hreliable => cases hfree
  | stage attempt hheld hstage habsent hkind hnode => cases hheld.symm.trans hfree
  | work attempt stage' hheld hlive hlive' houtside hkind hholds => cases hheld.symm.trans hfree
  | discard attempt hheld hroot => cases hheld.symm.trans hfree
  | discardFailed attempt hheld hroot hpartly hreliable => cases hheld.symm.trans hfree
  | promote attempt hheld hstage hpromoted hcomplete hmove => cases hheld.symm.trans hfree

/-- A promotion moves the finished quarantine directory. -/
theorem Shared.promoted (h : Shared request fs γ) (hmove : MovesAt request i fs (γ i) fs' p')
    (hnew : p'.promoted = true) (hold : (γ i).promoted = false) : (request i).InstalledIn fs' := by
  cases hmove with
  | promote attempt hheld hstage hpromoted hcomplete hcan =>
      have hholds := (h.stage i hheld).holds
      rw [hstage] at hholds
      refine ⟨_, hcomplete, ?_⟩
      show Filled _ (Fs.below (Fs.moveTree _ _ _ _ _) (subjectRoot (request i).subject)) none _
      rw [Request.subject, Fs.below_moveTree]
      exact hholds
  | _ => cases hold.symm.trans hnew

theorem Moves.promoted_mono {bundle : VerifiedBundle} {publisher : Option AuthorizedPublisher}
    {reliable : Prop} {p : Progress} (h : Moves bundle publisher reliable fs p fs' p')
    (hpromoted : p.promoted = true) : p'.promoted = true := by
  cases h with
  | promote attempt hheld hstage hpromoted' hcomplete hmove => rfl
  | _ => exact hpromoted

/-- What a run newly sees at the subject root is the record of the run that promoted it. -/
theorem Shared.seen_move (h : Shared request fs γ) (hmove : MovesAt request i fs (γ i) fs' p')
    {record : Bytes} (hseen : p'.seen = some record) :
    ∃ k, (request k).subject = (request i).subject ∧ (γ k).promoted = true ∧
      installationRecordBytes (request k).bundle (request k).publisher = .ok record := by
  cases hmove with
  | read hread =>
      cases hseen
      by_cases hpromoted :
          ∃ k, (request k).subject = (request i).subject ∧ (γ k).promoted = true
      · obtain ⟨k, hsame, hk⟩ := hpromoted
        obtain ⟨own, hown, hfound⟩ := (h.installed k hk).record
        have heq : fs.readFile (recordPath (request i).subject) = .ok own := hsame ▸ hfound
        cases heq.symm.trans hread
        exact ⟨k, hsame, hk, hown⟩
      · have habsent : fs.node (subjectRoot (request i).subject) = none := by
          apply h.absent
          intro k hsame
          by_contra hk
          exact hpromoted ⟨k, hsame, Bool.eq_true_of_not_eq_false hk⟩
        obtain ⟨n, hn, _⟩ := Fs.readFile_eq_ok hread
        cases (fs.absent_below habsent _).symm.trans hn
  | _ => exact h.seen i record hseen

theorem Shared.move_absent (h : Shared request fs γ) (hmove : MovesAt request i fs (γ i) fs' p')
    {subject : Sha256Digest}
    (hnone : ∀ j, (request j).subject = subject → (γ j).promoted = false)
    (hnew : (request i).subject = subject → p'.promoted = false) :
    fs'.node (subjectRoot subject) = none := by
  rw [← h.absent subject hnone]
  apply hmove.frame_target (q := subjectRoot subject) (Nat.le_refl 2) rfl
  by_cases hsame : (request i).subject = subject
  · left
    rw [hnew hsame, hnone i hsame]
  · right
    have hoff := subjectRoot_not_above_of_ne hsame []
    rwa [List.append_nil] at hoff

/-- What one run per subject has stays so, unless the moving run gains it beside another. -/
theorem unique_update [DecidableEq ι] (P : Progress → Prop)
    (h : ∀ j k, (request j).subject = (request k).subject → P (γ j) → P (γ k) → j = k)
    (hnew : P p' → ∀ j, j ≠ i → (request j).subject = (request i).subject → ¬ P (γ j)) :
    ∀ j k, (request j).subject = (request k).subject → P (Function.update γ i p' j) →
      P (Function.update γ i p' k) → j = k := by
  intro j k hsame hj hk
  by_cases hji : j = i
  · by_cases hki : k = i
    · rw [hji, hki]
    · rw [hji, Function.update_self] at hj
      rw [Function.update_of_ne hki] at hk
      exact absurd hk (hnew hj k hki (hji ▸ hsame.symm))
  · rw [Function.update_of_ne hji] at hj
    by_cases hki : k = i
    · rw [hki, Function.update_self] at hk
      exact absurd hj (hnew hk j hji (hki ▸ hsame))
    · rw [Function.update_of_ne hki] at hk
      exact h j k hsame hj hk

theorem Shared.move [DecidableEq ι] (h : Shared request fs γ)
    (hmove : MovesAt request i fs (γ i) fs' p') :
    Shared request fs' (Function.update γ i p') := by
  have hself : Function.update γ i p' i = p' := Function.update_self ..
  have hother : ∀ {j}, j ≠ i → Function.update γ i p' j = γ j :=
    fun hne => Function.update_of_ne hne ..
  have hmono : ∀ j, (γ j).promoted = true → (Function.update γ i p' j).promoted = true := by
    intro j hj
    by_cases hji : j = i
    · subst hji
      rw [hself]
      exact hmove.promoted_mono hj
    · rwa [hother hji]
  constructor
  · intro j hheld
    by_cases hji : j = i
    · subst hji
      rw [hself] at hheld
      rcases hmove.lock_of_held hheld with ⟨hheld', hnode⟩ | ⟨_, _, hthere⟩
      · rw [Request.subject, hnode]
        exact h.locked j hheld'
      · exact hthere
    · rw [hother hji] at hheld
      rw [(h.frame_holder hmove hji hheld).1]
      exact h.locked j hheld
  · apply unique_update (fun p => p.lock = .held) h.alone
    intro hheld' j hne hsame hheld
    obtain ⟨hsame', hfree⟩ := h.excluded hmove hne hsame hheld
    exact hfree (hsame'.symm.trans hheld')
  · intro j hfree
    by_cases hji : j = i
    · subst hji
      rw [hself] at hfree ⊢
      obtain ⟨hfree', hstage⟩ := hmove.idle hfree
      rw [hstage]
      exact h.idle j hfree'
    · rw [hother hji] at hfree ⊢
      exact h.idle j hfree
  · intro j hheld
    by_cases hji : j = i
    · subst hji
      rw [hself] at hheld ⊢
      apply hmove.valid
      rcases hmove.lock_of_held hheld with ⟨hheld', _⟩ | ⟨hfree, _⟩
      · exact h.stage j hheld'
      · rw [h.idle j hfree]
        exact .none _ _
    · rw [hother hji] at hheld ⊢
      apply (h.stage j hheld).congr
      intro attempt rest _
      exact (h.frame_holder hmove hji hheld).2 attempt rest
  · intro subject hnone
    apply h.move_absent hmove
    · intro j hj
      by_contra hpromoted
      have hpromoted' := hmono j (Bool.eq_true_of_not_eq_false hpromoted)
      cases (hnone j hj).symm.trans hpromoted'
    · intro hsame
      have hnew := hnone i hsame
      rwa [hself] at hnew
  · intro j hpromoted
    by_cases hold : (γ j).promoted = true
    · exact (h.installed j hold).congr (h.frame_installed hmove hold)
    · by_cases hji : j = i
      · subst hji
        rw [hself] at hpromoted
        exact h.promoted hmove hpromoted (Bool.eq_false_of_not_eq_true hold)
      · rw [hother hji] at hpromoted
        exact absurd hpromoted hold
  · apply unique_update (fun p => p.promoted = true) h.once
    intro hpromoted j hne hsame hj
    rw [h.not_again hmove hsame hj] at hpromoted
    exact hne (h.once j i hsame hj hpromoted)
  · intro j record hseen
    have hfound : ∃ k, (request k).subject = (request j).subject ∧ (γ k).promoted = true ∧
        installationRecordBytes (request k).bundle (request k).publisher = .ok record := by
      by_cases hji : j = i
      · subst hji
        rw [hself] at hseen
        exact h.seen_move hmove hseen
      · rw [hother hji] at hseen
        exact h.seen j record hseen
    obtain ⟨k, hsame, hk, hrecord⟩ := hfound
    exact ⟨k, hsame, hmono k hk, hrecord⟩

/-! ## Interleavings -/

def lockCreated : (c : Call) → Reply c → Bool
  | ⟨.lock, .createNew _ _⟩, .ok _ => true
  | _, _ => false

def lockRemoved : (c : Call) → Reply c → Bool
  | ⟨.lock, .removeFile _⟩, _ => true
  | _, _ => false

/-- The run has created the lock file and not yet asked for its removal. -/
structure HoldsLock (trace : List (Event Call Reply)) : Prop where
  created : ∃ e ∈ trace, lockCreated e.call e.reply = true
  kept : ∀ e ∈ trace, lockRemoved e.call e.reply = false

/-- The run has renamed its quarantine directory to the subject root. -/
def HasPromoted (trace : List (Event Call Reply)) : Prop :=
  ∃ e ∈ trace, renamed e.call e.reply = true

theorem move_lock (p : Progress) (e : Event Call Reply)
    (hkept : lockRemoved e.call e.reply = false) :
    (p.move e.call e.reply).lock = if lockCreated e.call e.reply then .held else p.lock := by
  obtain ⟨⟨site, op⟩, r⟩ := e
  cases site <;> cases op <;> cases r <;>
    first
    | rfl
    | cases hkept

section

variable {bundle : VerifiedBundle} {publisher : Option AuthorizedPublisher}

theorem after_holdsLock {trace : List (Event Call Reply)} (h : HoldsLock trace) :
    ((installProtocol store bundle publisher).after Phase.start trace).lock = .held := by
  obtain ⟨⟨e, he, hcreated⟩, hkept⟩ := h
  induction trace using List.reverseRecOn with
  | nil => cases he
  | append_singleton trace last ih =>
      have hlast := hkept last (List.mem_append_right _ List.mem_cons_self)
      rw [Protocol.after_concat]
      show (Progress.move _ last.call last.reply).lock = .held
      rw [move_lock _ _ hlast]
      rcases List.mem_append.mp he with hmem | hmem
      · split
        · rfl
        · exact ih (fun e he => hkept e (List.mem_append_left _ he)) hmem
      · simp only [List.mem_singleton] at hmem
        rw [← hmem, hcreated]
        rfl

theorem after_hasPromoted {trace : List (Event Call Reply)} :
    ((installProtocol store bundle publisher).after Phase.start trace).promoted = true ↔
      HasPromoted trace := by
  let P := installProtocol store bundle publisher
  have hflag : (P.after Phase.start trace).promoted =
      trace.any fun e => renamed e.call e.reply :=
    @Protocol.after_flag _ _ _ P (fun g => g.promoted) (fun e => renamed e.call e.reply)
      (fun g e => move_promoted g.toProgress e) _ _
  rw [hflag, List.any_eq_true, HasPromoted]

end

abbrev Installations (ι : Type) : Type :=
  Config ι Call Reply Fs (Except LinuxInstallStoreError InstalledBundle)

/-- What a receipt says of the store. -/
structure Vouched (request : ι → Request) (σ : Installations ι) (i : ι)
    (installed : InstalledBundle) : Prop where
  receipt : installed =
    receipt (request i).bundle (subjectRoot (request i).subject) installed.reused
  record : ∃ record,
    installationRecordBytes (request i).bundle (request i).publisher = .ok record ∧
    σ.state.readFile installed.record = .ok record
  tree : (request i).InstalledIn σ.state ∨ ∃ k, HasPromoted (σ.trace k) ∧
    (request k).InstalledIn σ.state ∧ Collides (request i).bundle (request k).bundle

/-- Interleaved installations respect each other. -/
structure Concordant (request : ι → Request) (σ : Installations ι) : Prop where
  exclusive : ∀ i j, (request i).subject = (request j).subject → HoldsLock (σ.trace i) →
    HoldsLock (σ.trace j) → i = j
  target : ∀ subject, σ.state.node (subjectRoot subject) = none ∨
    ∃ k, (request k).subject = subject ∧ HasPromoted (σ.trace k) ∧
      (request k).InstalledIn σ.state ∧
      ∀ j, (request j).subject = subject → HasPromoted (σ.trace j) → j = k
  fresh : ∀ i j installed installed', (request i).subject = (request j).subject →
    σ.thread i = .running (.done (.ok installed)) → installed.reused = false →
    σ.thread j = .running (.done (.ok installed')) → installed'.reused = false → i = j
  receipts : ∀ i installed, σ.thread i = .running (.done (.ok installed)) →
    Vouched request σ i installed

/-- Every installed tree is as it was. -/
def TreesKept (fs fs' : Fs) : Prop :=
  ∀ subject, fs.node (subjectRoot subject) ≠ none →
    ∀ rest, fs'.node (subjectRoot subject ++ rest) = fs.node (subjectRoot subject ++ rest)

theorem TreesKept.trans {fs fs' fs'' : Fs} (h : TreesKept fs fs') (h' : TreesKept fs' fs'') :
    TreesKept fs fs'' := by
  intro subject hthere rest
  have hroot := h subject hthere []
  rw [List.append_nil] at hroot
  rw [h' subject (hroot ▸ hthere) rest, h subject hthere rest]

/-- A subject root that is there has been promoted. -/
theorem Shared.promoter (h : Shared request fs γ) {subject : Sha256Digest}
    (hthere : fs.node (subjectRoot subject) ≠ none) :
    ∃ k, (request k).subject = subject ∧ (γ k).promoted = true := by
  by_contra hnone
  apply hthere
  apply h.absent
  intro k hsame
  by_contra hk
  exact hnone ⟨k, hsame, Bool.eq_true_of_not_eq_false hk⟩

theorem Shared.treesKept (h : Shared request fs γ)
    (hmove : MovesAt request i fs (γ i) fs' p') : TreesKept fs fs' := by
  intro subject hthere rest
  obtain ⟨k, rfl, hk⟩ := h.promoter hthere
  exact h.frame_installed hmove hk rest

/-! ## All reachable configurations -/

def protocolOf (store : LinuxInstallStore) (request : ι → Request) (i : ι) :
    Protocol Call Reply Phase :=
  installProtocol store (request i).bundle (request i).publisher

/-- What a finished run has reached. -/
def Finished (request : ι → Request) (i : ι) (g : Phase) :
    Except LinuxInstallStoreError InstalledBundle → Prop
  | .ok installed => g.Received (request i).bundle (request i).publisher installed
  | .error _ => g.Balanced

abbrev KeptBy (store : LinuxInstallStore) (request : ι → Request) (σ : Installations ι) :
    Prop :=
  Kept (protocolOf store request) Phase.start
    (fun fs γ => Shared request fs fun i => (γ i).toProgress) (Finished request) σ

variable {σ σ' : Installations ι}

theorem keptBy_start (hempty : ∀ subject, fs.node (subjectRoot subject) = none) :
    KeptBy store request (Config.start fs fun i => (request i).program store) := by
  have hshared : Shared request fs fun _ => Phase.start.toProgress :=
    Shared.none_of_start fs request hempty
  refine ⟨hshared, ?_⟩
  intro i rest hrest
  cases hrest
  have hmeets : (protocolOf store request i).Meets
      (Phase.Received (request i).bundle (request i).publisher) Phase.Balanced Phase.start
      (installBundleWithPublisher store (request i).bundle (request i).publisher) :=
    meets_installBundleWithPublisher
  apply hmeets.obeys.mono
  intro g result h
  cases result with
  | ok installed => exact h
  | error e => exact h

theorem shared_step [DecidableEq ι] (s : Fs) (γ : ι → Phase) (i : ι) (c : Call) (r : Reply c)
    (s' : Fs) (h : Shared request s fun j => (γ j).toProgress)
    (hallowed : (protocolOf store request i).allowed (γ i) c)
    (hperforms : Performs False s c r s') :
    Shared request s' (fun j =>
      (Function.update γ i ((protocolOf store request i).advance (γ i) c r) j).toProgress) ∧
      TreesKept s s' := by
  have hmove : MovesAt request i s (γ i).toProgress s' ((γ i).toProgress.move c r) :=
    moves_of_performs hallowed hperforms
  have hphases : (fun j =>
      (Function.update γ i ((protocolOf store request i).advance (γ i) c r) j).toProgress) =
      Function.update (fun j => (γ j).toProgress) i ((γ i).toProgress.move c r) := by
    funext j
    by_cases hji : j = i
    · subst hji
      rw [Function.update_self, Function.update_self]
      rfl
    · rw [Function.update_of_ne hji, Function.update_of_ne hji]
  rw [hphases]
  exact ⟨h.move hmove, h.treesKept hmove⟩

theorem KeptBy.reaches [DecidableEq ι] (h : KeptBy store request σ)
    (hreaches : Reaches (Performs False) σ σ') : KeptBy store request σ' :=
  Kept.reaches (fun s γ i c r s' hs ha hp => (shared_step s γ i c r s' hs ha hp).1) h hreaches

theorem KeptBy.treesKept [DecidableEq ι] (h : KeptBy store request σ)
    (hreaches : Reaches (Performs False) σ σ') : TreesKept σ.state σ'.state :=
  h.reaches_rel (fun _ _ _ _ => rfl) (fun _ _ _ => TreesKept.trans)
    (fun s γ i c r s' hs ha hp => (shared_step s γ i c r s' hs ha hp).1)
    (fun s γ i c r s' hs ha hp => (shared_step s γ i c r s' hs ha hp).2) hreaches

theorem KeptBy.vouched (h : KeptBy store request σ)
    (hverified : ∀ i, (request i).bundle.IsVerified) {installed : InstalledBundle}
    (hdone : σ.thread i = .running (.done (.ok installed))) : Vouched request σ i installed := by
  have hreceived : (phases (protocolOf store request) Phase.start σ i).Received
      (request i).bundle (request i).publisher installed := h.obeys i _ hdone
  obtain ⟨record, hrecord, hseen⟩ := hreceived.record
  obtain ⟨k, hsame, hk, hown⟩ := h.inv.seen i record hseen
  have hinstalled : (request k).InstalledIn σ.state := h.inv.installed k hk
  obtain ⟨record', hrecord', hread⟩ := hinstalled.record
  cases hown.symm.trans hrecord'
  obtain ⟨hbundle, hpublisher⟩ := installationRecordBytes_inj hrecord hown
  refine ⟨hreceived.receipt, ⟨record, hrecord, ?_⟩, ?_⟩
  · have hpath : installed.record = recordPath (request k).subject := by
      rw [hreceived.receipt, recordPath, components_record, hsame]
      rfl
    rw [hpath]
    exact hread
  · rcases hbundle.eq_or_collides (hverified i) (hverified k) with heq | hcollide
    · left
      have hrequest : request i = request k := by
        cases hi : request i
        cases hk : request k
        simp_all
      rw [hrequest]
      exact hinstalled
    · exact .inr ⟨k, after_hasPromoted.mp hk, hinstalled, hcollide⟩

theorem KeptBy.concordant (h : KeptBy store request σ)
    (hverified : ∀ i, (request i).bundle.IsVerified) : Concordant request σ := by
  constructor
  · intro i j hsame hi hj
    exact h.inv.alone i j hsame (after_holdsLock hi) (after_holdsLock hj)
  · intro subject
    by_cases hthere : σ.state.node (subjectRoot subject) = none
    · exact .inl hthere
    · obtain ⟨k, hk, hpromoted⟩ := h.inv.promoter hthere
      refine .inr ⟨k, hk, after_hasPromoted.mp hpromoted, h.inv.installed k hpromoted, ?_⟩
      intro j hj hpromoted'
      exact h.inv.once j k (hj.trans hk.symm) (after_hasPromoted.mpr hpromoted') hpromoted
  · intro i j installed installed' hsame hi hfresh hj hfresh'
    have hpromoted : ∀ {k installed}, σ.thread k = .running (.done (.ok installed)) →
        installed.reused = false →
        (phases (protocolOf store request) Phase.start σ k).promoted = true := by
      intro k installed hdone hfresh
      have hreceived : (phases (protocolOf store request) Phase.start σ k).Received
          (request k).bundle (request k).publisher installed := h.obeys k _ hdone
      exact hreceived.fresh hfresh
    exact h.inv.once i j hsame (hpromoted hi hfresh) (hpromoted hj hfresh')
  · intro i installed hdone
    exact h.vouched hverified hdone

/-- Installations of verified bundles into a store without installed subjects, interleaved in
any order and with any of them crashing: in every configuration they reach they respect each
other, and from then on every installed tree stays as it is. -/
theorem concurrentInstalls_concordant [DecidableEq ι] (store : LinuxInstallStore)
    (request : ι → Request) (fs : Fs) (hverified : ∀ i, (request i).bundle.IsVerified)
    (hempty : ∀ subject, fs.node (subjectRoot subject) = none) (σ : Installations ι)
    (hreaches : Reaches (Performs False)
      (Config.start fs fun i => (request i).program store) σ) :
    Concordant request σ ∧
      ∀ σ', Reaches (Performs False) σ σ' → TreesKept σ.state σ'.state := by
  have hkept : KeptBy store request σ := (keptBy_start hempty).reaches hreaches
  exact ⟨hkept.concordant hverified, fun _ hlater => hkept.treesKept hlater⟩

end Invokrum.Install
