import Invokrum.Install.Protocol

/-!
# What an allowed call does

Every allowed call with its reply is one of nine moves. The invariants of one
installation and of many are proved about moves, not about calls.
-/

namespace Invokrum.Install

open Programs Invokrum.Distribution Invokrum.Acquisition Invokrum.FileSystem
open Text (Bytes)

/-- The path of the record of an installed subject. -/
def recordPath (subject : Sha256Digest) : Path :=
  subjectRoot subject ++ components installationRecordPath

/-- The moves of an installation of `bundle` between file systems and progresses. -/
inductive Moves (bundle : VerifiedBundle) (publisher : Option AuthorizedPublisher)
    (reliable : Prop) (fs : Fs) (p : Progress) : Fs → Progress → Prop where
  | observe {fs' : Fs} (hnode : ∀ q : Path, 2 ≤ q.length → fs'.node q = fs.node q) :
      Moves bundle publisher reliable fs p fs' p
  | read {bytes : Bytes} (hread : fs.readFile (recordPath bundle.subject) = .ok bytes) :
      Moves bundle publisher reliable fs p fs { p with seen := some bytes }
  | lock {fs' : Fs} {n : Node} (hfree : p.lock = .free)
      (habsent : fs.node (lockPath bundle.subject) = none) (hkind : n.kind = .file)
      (hnode : fs'.node = Function.update fs.node (lockPath bundle.subject) (some n)) :
      Moves bundle publisher reliable fs p fs' { p with lock := .held }
  | unlock (hheld : p.lock = .held) : Moves bundle publisher reliable fs p
      (fs.removeTree (lockPath bundle.subject)) { p with lock := .released }
  | unlockFailed (hheld : p.lock = .held)
      (hreliable : reliable → ∀ fs', fs.removeFile (lockPath bundle.subject) ≠ .ok fs') :
      Moves bundle publisher reliable fs p fs { p with lock := .released, stuck := true }
  | stage {fs' : Fs} {n : Node} (attempt : Nat) (hheld : p.lock = .held)
      (hstage : p.stage = .none) (habsent : fs.node (stagingPath bundle.subject attempt) = none)
      (hkind : n.kind = .directory)
      (hnode : fs'.node =
        Function.update fs.node (stagingPath bundle.subject attempt) (some n)) :
      Moves bundle publisher reliable fs p fs'
        { p with stage := .tree (stagingPath bundle.subject attempt) none [] }
  | work {fs' : Fs} (attempt : Nat) (stage' : Stage) (hheld : p.lock = .held)
      (hlive : p.stage.liveAt = some (stagingPath bundle.subject attempt))
      (hlive' : stage'.liveAt = some (stagingPath bundle.subject attempt))
      (houtside : Fs.SameOutside (stagingPath bundle.subject attempt) fs fs')
      (hkind : ∀ n, fs.node (stagingPath bundle.subject attempt) = some n →
        n.kind = .directory →
        ∃ n', fs'.node (stagingPath bundle.subject attempt) = some n' ∧ n'.kind = .directory)
      (hholds : p.stage.Holds bundle fs → stage'.Holds bundle fs') :
      Moves bundle publisher reliable fs p fs' { p with stage := stage' }
  | discard (attempt : Nat) (hheld : p.lock = .held)
      (hroot : p.stage.root = some (stagingPath bundle.subject attempt)) :
      Moves bundle publisher reliable fs p (fs.removeTree (stagingPath bundle.subject attempt))
        { p with stage := p.stage.discard }
  | discardFailed {fs' : Fs} (attempt : Nat) (hheld : p.lock = .held)
      (hroot : p.stage.root = some (stagingPath bundle.subject attempt))
      (hpartly : PartlyRemoved (stagingPath bundle.subject attempt) fs fs')
      (hreliable : reliable → fs' = fs ∧
        ∀ fs'', fs.removeDirAll (stagingPath bundle.subject attempt) ≠ .ok fs'') :
      Moves bundle publisher reliable fs p fs'
        { p with stage := p.stage.taint, stuck := p.stuck || p.stage.liveAt.isSome }
  | promote (attempt : Nat) {files : List (Path × Bytes)} (hheld : p.lock = .held)
      (hstage : p.stage = .tree (stagingPath bundle.subject attempt) none files)
      (hpromoted : p.promoted = false) (hcomplete : installedFiles bundle publisher = .ok files)
      (hmove : fs.CanMove (stagingPath bundle.subject attempt) (subjectRoot bundle.subject)) :
      Moves bundle publisher reliable fs p
        (fs.moveTree (stagingPath bundle.subject attempt) (subjectRoot bundle.subject)
          hmove.parent hmove.apart)
        { p with promoted := true, stage := .gone (stagingPath bundle.subject attempt) }

section

variable {bundle : VerifiedBundle} {publisher : Option AuthorizedPublisher} {reliable : Prop}
  {fs fs' : Fs} {p : Progress}

/-! ## Calls that change nothing -/

theorem move_of_looks {c : Call} (hlooks : c.op.Looks) (r : Reply c) : p.move c r = p := by
  obtain ⟨site, op⟩ := c
  cases hlooks <;> cases site <;> rfl

theorem performs_of_looks {c : Call} {r : Reply c} (hlooks : c.op.Looks)
    (h : Performs reliable fs c r fs') : fs' = fs := by
  obtain ⟨site, op⟩ := c
  cases hlooks with
  | openSource root => cases r <;> exact h
  | load root manifest allowed => cases r <;> exact h
  | _ =>
      cases r with
      | ok value => exact h.2
      | error e => exact h

theorem moves_of_looks {c : Call} {r : Reply c} (hlooks : c.op.Looks)
    (h : Performs reliable fs c r fs') :
    Moves bundle publisher reliable fs p fs' (p.move c r) := by
  rw [move_of_looks hlooks, performs_of_looks hlooks h]
  exact .observe fun _ _ => rfl

/-! ## Calls in the quarantine directory -/

theorem lockPath_length (subject : Sha256Digest) : (lockPath subject).length = 2 := rfl

theorem stagingPath_length (subject : Sha256Digest) (attempt : Nat) :
    (stagingPath subject attempt).length = 2 := rfl

theorem node_eq_of_internal {directory : Path} {n : Option Node} (hinternal : directory.length = 1)
    (hnode : fs'.node = Function.update fs.node directory n) (q : Path) (hq : 2 ≤ q.length) :
    fs'.node q = fs.node q := by
  have hne : q ≠ directory := by
    intro heq
    rw [heq, hinternal] at hq
    omega
  rw [hnode, Function.update_of_ne hne]

/-- A changed entry of the quarantine directory keeps the directory. -/
theorem directory_of_update {root rest : Path} {m : Node}
    (hnode : fs'.node = Function.update fs.node (root ++ rest) (some m))
    (hkind : ∀ n, fs.node (root ++ rest) = some n → m.kind = n.kind) :
    ∀ n, fs.node root = some n → n.kind = .directory →
      ∃ n', fs'.node root = some n' ∧ n'.kind = .directory := by
  intro n hn hdirectory
  by_cases heq : root = root ++ rest
  · refine ⟨m, ?_, ?_⟩
    · rw [hnode, ← heq, Function.update_self]
    · rw [heq] at hn
      exact (hkind n hn).trans hdirectory
  · exact ⟨n, by rw [hnode, Function.update_of_ne heq, hn], hdirectory⟩

theorem sameOutside_of_update {root rest : Path} {m : Option Node}
    (hnode : fs'.node = Function.update fs.node (root ++ rest) m) :
    Fs.SameOutside root fs fs' := by
  intro q hq
  have hne : q ≠ root ++ rest := by
    intro heq
    exact hq (heq ▸ List.prefix_append root rest)
  rw [hnode, Function.update_of_ne hne]

/-- A change of one entry in the quarantine directory. -/
theorem moves_of_update {attempt : Nat} {rest : Path} {m : Node} {opened : Option Path}
    {written : List (Path × Bytes)} {stage' : Stage} (hheld : p.lock = .held)
    (hstage : p.stage = .tree (stagingPath bundle.subject attempt) opened written)
    (hlive : stage'.liveAt = some (stagingPath bundle.subject attempt))
    (hnode : fs'.node =
      Function.update fs.node (stagingPath bundle.subject attempt ++ rest) (some m))
    (hkind : ∀ n, fs.node (stagingPath bundle.subject attempt ++ rest) = some n →
      m.kind = n.kind)
    (hholds : Filled (IsContentDirectory bundle)
      (fs.below (stagingPath bundle.subject attempt)) opened written → stage'.Holds bundle fs') :
    Moves bundle publisher reliable fs p fs' { p with stage := stage' } := by
  apply Moves.work attempt stage' hheld _ hlive (sameOutside_of_update hnode)
    (directory_of_update hnode hkind)
  · rw [hstage]
    exact hholds
  · rw [hstage]
    rfl

theorem moves_protect {attempt : Nat} {rest : Path} {mode : Nat} {opened : Option Path}
    {written : List (Path × Bytes)} (hheld : p.lock = .held)
    (hstage : p.stage = .tree (stagingPath bundle.subject attempt) opened written)
    (h : fs.setMode (stagingPath bundle.subject attempt ++ rest) mode = .ok fs') :
    Moves bundle publisher reliable fs p fs' p := by
  obtain ⟨n, hn, hnode⟩ := Fs.setMode_eq_ok h
  show Moves bundle publisher reliable fs p fs' { p with stage := p.stage }
  apply moves_of_update hheld hstage _ hnode
  · intro n' hn'
    rw [hn] at hn'
    cases hn'
    rfl
  · intro hfilled
    rw [hstage]
    show Filled _ (fs'.below _) opened written
    rw [Fs.below_update hnode]
    exact hfilled.chmod hn rfl rfl
  · rw [hstage]
    rfl

theorem moves_createDirectory {attempt : Nat} {rest : Path} {mode : Nat} {opened : Option Path}
    {written : List (Path × Bytes)} (hheld : p.lock = .held)
    (hstage : p.stage = .tree (stagingPath bundle.subject attempt) opened written)
    (hdirectory : IsContentDirectory bundle rest)
    (h : fs.createDir (stagingPath bundle.subject attempt ++ rest) mode = .ok fs') :
    Moves bundle publisher reliable fs p fs' p := by
  obtain ⟨habsent, n, hkind, _, hnode⟩ := Fs.createNode_eq_ok h
  show Moves bundle publisher reliable fs p fs' { p with stage := p.stage }
  apply moves_of_update hheld hstage _ hnode
  · intro n' hn'
    rw [habsent] at hn'
    cases hn'
  · intro hfilled
    rw [hstage]
    show Filled _ (fs'.below _) opened written
    rw [Fs.below_update hnode]
    exact hfilled.mkdir habsent hkind hdirectory
  · rw [hstage]
    rfl

theorem moves_createFile {attempt : Nat} {rest : Path} {mode : Nat}
    {written : List (Path × Bytes)} (hheld : p.lock = .held)
    (hstage : p.stage = .tree (stagingPath bundle.subject attempt) none written)
    (h : fs.createFile (stagingPath bundle.subject attempt ++ rest) mode = .ok fs') :
    Moves bundle publisher reliable fs p fs'
      { p with stage := p.stage.opening (stagingPath bundle.subject attempt ++ rest) } := by
  obtain ⟨habsent, n, hkind, hbytes, hnode⟩ := Fs.createNode_eq_ok h
  rw [hstage]
  apply moves_of_update hheld hstage rfl hnode
  · intro n' hn'
    rw [habsent] at hn'
    cases hn'
  · intro hfilled
    show Filled _ (fs'.below _) (some (List.drop _ _)) written
    rw [Fs.below_update hnode, List.drop_left]
    exact hfilled.openFile habsent hkind hbytes

theorem moves_writeFile {attempt : Nat} {rest : Path} {bytes : Bytes}
    {written : List (Path × Bytes)} (hheld : p.lock = .held)
    (hstage : p.stage = .tree (stagingPath bundle.subject attempt) (some rest) written)
    (h : fs.append (stagingPath bundle.subject attempt ++ rest) bytes = .ok fs') :
    Moves bundle publisher reliable fs p fs'
      { p with stage := p.stage.wrote (stagingPath bundle.subject attempt ++ rest) bytes } := by
  obtain ⟨n, hn, hkind, hnode⟩ := Fs.append_eq_ok h
  rw [hstage]
  apply moves_of_update hheld hstage rfl hnode
  · intro n' hn'
    rw [hn] at hn'
    cases hn'
    rfl
  · intro hfilled
    obtain ⟨m, hm, _, hempty⟩ := hfilled.empty rest rfl
    have hsame : m = n := Option.some.inj (hm.symm.trans hn)
    have hwritten := hfilled.write (n := { n with bytes := n.bytes ++ bytes }) hkind
    show Filled _ (fs'.below _) none (written ++ [(List.drop _ _, bytes)])
    rw [Fs.below_update hnode, List.drop_left]
    simpa [← hsame, hempty] using hwritten

/-- A write that fails may leave a part of its bytes. -/
theorem moves_writeFailed {attempt : Nat} {rest : Path} {bytes : Bytes} {opened : Option Path}
    {written : List (Path × Bytes)} (hheld : p.lock = .held)
    (hstage : p.stage = .tree (stagingPath bundle.subject attempt) opened written)
    (h : fs' = fs ∨
      ∃ n, fs.append (stagingPath bundle.subject attempt ++ rest) (bytes.take n) = .ok fs') :
    Moves bundle publisher reliable fs p fs' { p with stage := p.stage.taint } := by
  rcases h with rfl | ⟨n, h⟩
  · apply Moves.work attempt p.stage.taint hheld _ _ (Fs.SameOutside.refl _ _)
      (fun n hn hkind => ⟨n, hn, hkind⟩)
    · rw [hstage]
      exact fun _ => trivial
    · rw [hstage]
      rfl
    · rw [hstage]
      rfl
  · obtain ⟨m, hm, _, hnode⟩ := Fs.append_eq_ok h
    rw [hstage]
    apply moves_of_update hheld hstage rfl hnode
    · intro n' hn'
      rw [hm] at hn'
      cases hn'
      rfl
    · exact fun _ => trivial

/-! ## Every allowed call is a move -/

/-- A call that fails without an effect is an observation. -/
theorem moves_refl (h : fs' = fs) : Moves bundle publisher reliable fs p fs' p :=
  .observe fun _ _ => by rw [h]

theorem moves_of_performs {c : Call} {r : Reply c} (hallowed : Allowed bundle publisher p c)
    (h : Performs reliable fs c r fs') :
    Moves bundle publisher reliable fs p fs' (p.move c r) := by
  cases hallowed with
  | look hlooks => exact moves_of_looks hlooks h
  | readStaged root path maximum =>
      cases r with
      | ok bytes => exact moves_refl h.2.2
      | error e => exact moves_refl h
  | readRecord maximum =>
      cases r with
      | ok bytes =>
          obtain ⟨hread, _, hsame⟩ := h
          subst hsame
          exact .read hread
      | error e => exact moves_refl h
  | createInternal mode hinternal =>
      cases r with
      | ok _ =>
          obtain ⟨_, hcreate⟩ := h
          obtain ⟨_, _, _, _, hnode⟩ := Fs.createNode_eq_ok hcreate
          exact .observe (node_eq_of_internal hinternal hnode)
      | error e => exact moves_refl h
  | protectInternal mode hinternal =>
      cases r with
      | ok _ =>
          obtain ⟨_, _, hnode⟩ := Fs.setMode_eq_ok h
          exact .observe (node_eq_of_internal hinternal hnode)
      | error e => exact moves_refl h
  | createLock mode hfree =>
      cases r with
      | ok _ =>
          obtain ⟨_, hcreate⟩ := h
          obtain ⟨habsent, _, hkind, _, hnode⟩ := Fs.createNode_eq_ok hcreate
          exact .lock hfree habsent hkind hnode
      | error e => exact moves_refl h
  | removeLock hheld =>
      cases r with
      | ok _ => exact Fs.removeFile_eq_ok h ▸ .unlock hheld
      | error e =>
          obtain ⟨hsame, hreliable⟩ := h
          subst hsame
          exact .unlockFailed hheld hreliable
  | createStaging attempt mode hheld hstage =>
      cases r with
      | ok _ =>
          obtain ⟨_, hcreate⟩ := h
          obtain ⟨habsent, _, hkind, _, hnode⟩ := Fs.createNode_eq_ok hcreate
          exact .stage attempt hheld hstage habsent hkind hnode
      | error e => exact moves_refl h
  | protect site attempt rest mode hheld hstage =>
      have hmove : p.move ⟨site, .setPermissions _ mode⟩ r = p := by cases site <;> rfl
      rw [hmove]
      cases r with
      | ok _ => exact moves_protect hheld hstage h
      | error e => exact moves_refl h
  | createDirectory attempt rest mode hheld hstage hdirectory =>
      cases r with
      | ok _ =>
          obtain ⟨_, hcreate⟩ := h
          exact moves_createDirectory hheld hstage hdirectory hcreate
      | error e => exact moves_refl h
  | createFile attempt rest mode hheld hstage =>
      cases r with
      | ok _ =>
          obtain ⟨_, hcreate⟩ := h
          exact moves_createFile hheld hstage hcreate
      | error e => exact moves_refl h
  | writeFile attempt rest bytes hheld hstage =>
      cases r with
      | ok _ => exact moves_writeFile hheld hstage h
      | error e => exact moves_writeFailed hheld hstage h
  | promote attempt hheld hstage hpromoted hcomplete =>
      cases r with
      | ok _ =>
          obtain ⟨hmove, hsame⟩ := h
          subst hsame
          show Moves bundle publisher reliable fs p _
            { p with promoted := true, stage := p.stage.discard }
          rw [hstage]
          exact .promote attempt hheld hstage hpromoted hcomplete hmove
      | error e => exact moves_refl h
  | removeStaging attempt hheld hroot =>
      cases r with
      | ok _ => exact Fs.removeDirAll_eq_ok h ▸ .discard attempt hheld hroot
      | error e =>
          obtain ⟨hpartly, hreliable⟩ := h
          exact .discardFailed attempt hheld hroot hpartly hreliable

/-! ## What a move leaves alone -/

theorem head_of_prefix {name : String} {rest q : Path} (h : name :: rest <+: q) :
    q.head? = some name := by
  obtain ⟨tail, rfl⟩ := h
  rfl

theorem head_of_lockPath {subject : Sha256Digest} {q : Path} (h : lockPath subject <+: q) :
    q.head? = some ".locks" :=
  head_of_prefix h

theorem head_of_stagingPath {subject : Sha256Digest} {attempt : Nat} {q : Path}
    (h : stagingPath subject attempt <+: q) : q.head? = some ".staging" :=
  head_of_prefix h

theorem head_of_subjectRoot {subject : Sha256Digest} {q : Path}
    (h : subjectRoot subject <+: q) : q.head? = some "sha256" :=
  head_of_prefix h

/-- Entries outside the three places of a subject stay, and each place has its own moves. -/
theorem Moves.frame {p' : Progress} (h : Moves bundle publisher reliable fs p fs' p') {q : Path}
    (hlength : 2 ≤ q.length) (hlock : p'.lock = p.lock ∨ ¬ lockPath bundle.subject <+: q)
    (hstaging : ∀ attempt, ¬ stagingPath bundle.subject attempt <+: q)
    (htarget : p'.promoted = p.promoted ∨ ¬ subjectRoot bundle.subject <+: q) :
    fs'.node q = fs.node q := by
  cases h with
  | observe hnode => exact hnode q hlength
  | read hread => rfl
  | lock hfree habsent hkind hnode =>
      have hne : q ≠ lockPath bundle.subject := by
        intro heq
        rcases hlock with hsame | hoff
        · rw [hfree] at hsame
          cases hsame
        · exact hoff (heq ▸ List.prefix_refl _)
      rw [hnode, Function.update_of_ne hne]
  | unlock hheld =>
      rcases hlock with hsame | hoff
      · rw [hheld] at hsame
        cases hsame
      · exact Fs.sameOutside_removeTree fs _ q hoff
  | unlockFailed hheld hreliable => rfl
  | stage attempt hheld hstage habsent hkind hnode =>
      have hne : q ≠ stagingPath bundle.subject attempt := by
        intro heq
        exact hstaging attempt (heq ▸ List.prefix_refl _)
      rw [hnode, Function.update_of_ne hne]
  | work attempt stage' hheld hlive hlive' houtside hkind hholds =>
      exact houtside q (hstaging attempt)
  | discard attempt hheld hroot => exact Fs.sameOutside_removeTree fs _ q (hstaging attempt)
  | discardFailed attempt hheld hroot hpartly hreliable =>
      exact hpartly.outside q (hstaging attempt)
  | promote attempt hheld hstage hpromoted hcomplete hmove =>
      rcases htarget with hsame | hoff
      · rw [hpromoted] at hsame
        cases hsame
      · exact Fs.moveTree_outside fs _ _ (hstaging attempt) hoff

theorem Moves.frame_locks {p' : Progress} (h : Moves bundle publisher reliable fs p fs' p')
    {q : Path} (hlength : 2 ≤ q.length) (hhead : q.head? = some ".locks")
    (hlock : p'.lock = p.lock ∨ ¬ lockPath bundle.subject <+: q) : fs'.node q = fs.node q := by
  apply h.frame hlength hlock
  · intro attempt hprefix
    rw [head_of_stagingPath hprefix] at hhead
    simp at hhead
  · right
    intro hprefix
    rw [head_of_subjectRoot hprefix] at hhead
    simp at hhead

theorem Moves.frame_staging {p' : Progress} (h : Moves bundle publisher reliable fs p fs' p')
    {q : Path} (hlength : 2 ≤ q.length) (hhead : q.head? = some ".staging")
    (hstaging : ∀ attempt, ¬ stagingPath bundle.subject attempt <+: q) :
    fs'.node q = fs.node q := by
  apply h.frame hlength _ hstaging
  · right
    intro hprefix
    rw [head_of_subjectRoot hprefix] at hhead
    simp at hhead
  · right
    intro hprefix
    rw [head_of_lockPath hprefix] at hhead
    simp at hhead

theorem Moves.frame_target {p' : Progress} (h : Moves bundle publisher reliable fs p fs' p')
    {q : Path} (hlength : 2 ≤ q.length) (hhead : q.head? = some "sha256")
    (htarget : p'.promoted = p.promoted ∨ ¬ subjectRoot bundle.subject <+: q) :
    fs'.node q = fs.node q := by
  apply h.frame hlength _ _ htarget
  · right
    intro hprefix
    rw [head_of_lockPath hprefix] at hhead
    simp at hhead
  · intro attempt hprefix
    rw [head_of_stagingPath hprefix] at hhead
    simp at hhead

/-! ## The quarantine directory along a run -/

/-- The quarantine directory has its name and holds what the stage says. -/
structure Stage.Valid (bundle : VerifiedBundle) (fs : Fs) (stage : Stage) : Prop where
  root : ∀ q, stage.root = some q → ∃ attempt, q = stagingPath bundle.subject attempt
  holds : stage.Holds bundle fs

theorem Stage.Valid.none (bundle : VerifiedBundle) (fs : Fs) : Stage.none.Valid bundle fs :=
  ⟨fun _ h => (nomatch h), trivial⟩

theorem Stage.root_of_liveAt {stage : Stage} {q : Path} (h : stage.liveAt = some q) :
    stage.root = some q := by
  cases stage with
  | none => cases h
  | gone root => cases h
  | tree root opened written => exact h
  | tainted root => exact h

theorem Stage.holds_discard (bundle : VerifiedBundle) (fs : Fs) (stage : Stage) :
    stage.discard.Holds bundle fs := by
  cases stage <;> trivial

theorem Stage.holds_taint (bundle : VerifiedBundle) (fs : Fs) (stage : Stage) :
    stage.taint.Holds bundle fs := by
  cases stage <;> trivial

/-- Validity depends on the entries at and below the quarantine directory only. -/
theorem Stage.Valid.congr {stage : Stage} (h : stage.Valid bundle fs)
    (hnode : ∀ attempt rest, stage.root = some (stagingPath bundle.subject attempt) →
      fs'.node (stagingPath bundle.subject attempt ++ rest) =
        fs.node (stagingPath bundle.subject attempt ++ rest)) : stage.Valid bundle fs' := by
  refine ⟨h.root, ?_⟩
  cases stage with
  | none => trivial
  | gone root => trivial
  | tainted root => trivial
  | tree root opened written =>
      obtain ⟨attempt, hroot⟩ := h.root root rfl
      subst hroot
      have hbelow : fs'.below (stagingPath bundle.subject attempt) =
          fs.below (stagingPath bundle.subject attempt) := by
        funext rest
        exact hnode attempt rest rfl
      show Filled _ (fs'.below _) opened written
      rw [hbelow]
      exact h.holds

theorem isContentDirectory_nil (bundle : VerifiedBundle) : IsContentDirectory bundle [] := by
  refine ⟨installationRecordPath, List.mem_append_right _ List.mem_cons_self,
    List.nil_prefix, fun heq => ?_⟩
  have hne : components installationRecordPath ≠ [] := by
    simp [components, Text.split_ne_nil]
  exact hne heq.symm

theorem filled_of_created {root : Path} {n : Node} (habsent : fs.node root = none)
    (hkind : n.kind = .directory) (hnode : fs'.node = Function.update fs.node root (some n)) :
    Filled (IsContentDirectory bundle) (fs'.below root) none [] := by
  apply Filled.start _ hkind (isContentDirectory_nil bundle)
  · intro rest hrest
    show fs'.node (root ++ rest) = none
    have hne : root ++ rest ≠ root := by simpa using hrest
    rw [hnode, Function.update_of_ne hne]
    exact fs.absent_below habsent rest
  · show fs'.node (root ++ []) = some n
    rw [List.append_nil, hnode, Function.update_self]

theorem Moves.valid {p' : Progress} (h : Moves bundle publisher reliable fs p fs' p')
    (hvalid : p.stage.Valid bundle fs) : p'.stage.Valid bundle fs' := by
  have hlockPath : ∀ attempt rest,
      ¬ lockPath bundle.subject <+: stagingPath bundle.subject attempt ++ rest := by
    intro attempt rest hprefix
    have hlock := head_of_lockPath hprefix
    rw [head_of_stagingPath (List.prefix_append _ rest)] at hlock
    simp at hlock
  cases h with
  | observe hnode =>
      exact hvalid.congr fun attempt rest _ => hnode _ (by simp [stagingPath_length])
  | read hread => exact hvalid
  | lock hfree habsent hkind hnode =>
      apply hvalid.congr
      intro attempt rest _
      rw [hnode, Function.update_of_ne]
      intro heq
      exact hlockPath attempt rest (heq ▸ List.prefix_refl _)
  | unlock hheld =>
      apply hvalid.congr
      intro attempt rest _
      exact Fs.sameOutside_removeTree fs _ _ (hlockPath attempt rest)
  | unlockFailed hheld hreliable => exact hvalid
  | stage attempt hheld hstage habsent hkind hnode =>
      refine ⟨fun q hq => ⟨attempt, ?_⟩, filled_of_created habsent hkind hnode⟩
      exact (Option.some.inj hq).symm
  | work attempt stage' hheld hlive hlive' houtside hkind hholds =>
      refine ⟨fun q hq => ⟨attempt, ?_⟩, hholds hvalid.holds⟩
      rw [Stage.root_of_liveAt hlive'] at hq
      exact (Option.some.inj hq).symm
  | discard attempt hheld hroot =>
      exact ⟨fun q hq => hvalid.root q (by simpa using hq), Stage.holds_discard ..⟩
  | discardFailed attempt hheld hroot hpartly hreliable =>
      exact ⟨fun q hq => hvalid.root q (by simpa using hq), Stage.holds_taint ..⟩
  | promote attempt hheld hstage hpromoted hcomplete hmove =>
      exact ⟨fun q hq => ⟨attempt, (Option.some.inj hq).symm⟩, trivial⟩

end

end Invokrum.Install
