import Invokrum.Cli.OutputEffects

/-!
# Safe writes side by side

Writes on one file system never touch each other's files exactly when their
temporary places are apart: free before, distinct, and no target of another
write that gets to its commit.
-/

namespace Invokrum.Cli

open Programs Invokrum.Inodes
open Text (Bytes)

variable {ι : Type}

/-- A state of several writes, with what is left of each. -/
abbrev Writes (ι : Type) : Type := Config ι (Call (ι × Site)) Reply Disk (Except OutputError Unit)

/-- No write has made a call yet. -/
def together (w : ι → Writer) (d : Disk) : Writes ι :=
  Config.start d fun i => tagged i (w i).program.run

/-- A call of write `j` leaves alone what that write has not created, its target apart, and what
the other writes have staged. -/
structure Confined (w : ι → Writer) (d₀ : Disk) (σ : Writes ι) (j : ι) (d' : Disk) : Prop where
  others : ∀ q k, d₀.locate (w j).proc.cwd (w j).path ≠ .ok q → σ.state.entry q = some k →
    ¬ Created (σ.trace j) k → Stays q k σ.state d'
  staged : ∀ i, i ≠ j → ∀ p k, d₀.locate (w i).proc.cwd (w i).path = .ok p →
    Created (σ.trace i) k → σ.state.entry ((w i).temporary p) = some k →
      Stays ((w i).temporary p) k σ.state d'

variable [DecidableEq ι]

/-- In every interleaving, every call is confined, whatever it is answered. -/
def Considerate (w : ι → Writer) (faulty : ι → Call Site → IoError → Prop) (d₀ : Disk) : Prop :=
  ∀ σ, Reaches (PerformsFor (fun i => (w i).proc) faulty) (together w d₀) σ →
    ∀ j c next r d', σ.thread j = .running (.call c next) →
      PerformsFor (fun i => (w i).proc) faulty σ.state c r d' → Confined w d₀ σ j d'

variable {w : ι → Writer} {faulty : ι → Call Site → IoError → Prop} {d₀ d d' : Disk}
  {σ : Writes ι}

/-! ## Apart, every call is confined -/

theorem sideBySide_reaches (hapart : Apart w d₀) (htruthful : ∀ i, Truthful (faulty i))
    (hreaches : Reaches (PerformsFor (fun i => (w i).proc) faulty) (together w d₀) σ) :
    SideBySide w d₀ σ.state (histories σ) ∧ ∀ i c next, σ.thread i = .running (.call c next) →
      c.site.1 = i ∧ (w i).Allowed (histories σ i) c.untagged := by
  apply disciplined_reaches (sideBySide_start hapart)
  · intro d γ i c r d' h hallowed hcall
    exact h.step hapart (htruthful i) hallowed hcall
  · intro i
    apply Protocol.Obeys.mono _ (disciplined_program (w i)).obeys
    exact fun _ _ _ => trivial
  · exact hreaches

theorem considerate_of_apart (hapart : Apart w d₀) (htruthful : ∀ i, Truthful (faulty i)) :
    Considerate w faulty d₀ := by
  intro σ hreaches j c next r d' hthread hcall
  obtain ⟨hside, hdiscipline⟩ := sideBySide_reaches hapart htruthful hreaches
  obtain ⟨rfl, hallowed⟩ := hdiscipline j c next hthread
  obtain ⟨own', heffect, _⟩ := hside.good.effects (hside.learned _) hallowed hcall
  constructor
  · intro q k hq hk hown
    exact heffect.others hside.good hq hk (fun h => hown (created_untagged.mp h))
  · intro i hi p k hp hown hk
    have hcreated : Created (histories σ i) k := created_untagged.mpr hown
    obtain ⟨_, _, _, _, p', hpasses, _⟩ := hside.good.created i k hcreated
    obtain rfl := Except.ok.inj (hp.symm.trans hpasses.located)
    exact heffect.staged hside.good hapart hi hpasses hk hcreated

/-! ## A write that meets a foreign file -/

/-- What is left of a writer behind its checks. -/
def Writer.rest (w : Writer) (d : Disk) (parent : Place) (name : Name) (n : Nat) : Output Unit :=
  publish parent (parent ++ [name]) (parent ++ [temporaryName name w.pid w.sequence]) (d.stat n)
    w.bytes w.force

theorem Writer.Passes.goes {w : Writer} {p : Place} (h : w.Passes d p)
    (faulty : Call Site → IoError → Prop) :
    ∃ parent name n t, p = parent ++ [name] ∧ d.IsDirectory parent ∧ d.entry parent = some n ∧
      Goes (Performs w.proc faulty) d t (w.rest d parent name n).run d [] w.program.run := by
  obtain ⟨parent, name, n, t, hp, hdir, hn, _, hgoes⟩ :=
    goes_checks w.proc faulty w.pid w.sequence w.bytes h.accepts h.located
  exact ⟨parent, name, n, t, hp, hdir, hn, hgoes⟩

/-- Behind its checks a write takes away what another has created at its temporary place. -/
theorem not_considerate {i : ι} {parent : Place} {name : Name} {n k : Nat}
    (hreaches : Reaches (PerformsFor (fun i => (w i).proc) faulty) (together w d₀) σ)
    (hthread : σ.thread i = .running (tagged i ((w i).rest d₀ parent name n).run))
    (hpasses : (w i).Passes d₀ (parent ++ [name])) (hdir : σ.state.IsDirectory parent)
    (hk : σ.state.entry ((w i).temporary (parent ++ [name])) = some k)
    (hfile : ¬ σ.state.IsDirectory ((w i).temporary (parent ++ [name])))
    (hnone : ∀ k, ¬ Created (σ.trace i) k) : ¬ Considerate w faulty d₀ := by
  intro hconsiderate
  have hne := hpasses.temporary_ne
  rw [temporary_concat] at hk hfile hne
  have hcreate : PerformsFor (fun i => (w i).proc) faulty σ.state
      (⟨(i, .stage), .createNew (absolute (parent ++
        [temporaryName name (w i).pid (w i).sequence])) privateMode⟩ : Call (ι × Site))
      (.error .alreadyExists) σ.state := by
    refine .inl ?_
    show Changes σ.state _ _ _
    simp only [Disk.locate_place hdir, bind, Except.bind, Disk.createNew, hk]
    exact ⟨rfl, rfl⟩
  have hstep : Step (PerformsFor (fun i => (w i).proc) faulty) σ _ := .call i hthread hcreate
  obtain ⟨d', hremoved⟩ := Disk.removeFile_ok hk hfile
  have hremove : PerformsFor (fun i => (w i).proc) faulty σ.state
      (⟨(i, .cleanup), .removeFile (absolute (parent ++
        [temporaryName name (w i).pid (w i).sequence]))⟩ : Call (ι × Site)) (.ok ()) d' := by
    refine .inl ?_
    show Changes σ.state _ _ _
    simp only [Disk.locate_place hdir, bind, Except.bind, hremoved]
    exact ⟨rfl, rfl⟩
  have hconfined := hconsiderate _ (hreaches.tail hstep) i _ _ _ _
    (Function.update_self i _ _) hremove
  have hother : d₀.locate (w i).proc.cwd (w i).path ≠
      .ok (parent ++ [temporaryName name (w i).pid (w i).sequence]) := by
    intro heq
    exact hne (Except.ok.inj (hpasses.located.symm.trans heq))
  have hcreated : ¬ Created (σ.trace i ++ [⟨⟨(i, .stage), .createNew (absolute (parent ++
      [temporaryName name (w i).pid (w i).sequence])) privateMode⟩, .error .alreadyExists⟩]) k := by
    rw [created_concat_error]
    exact hnone k
  have hstays := (hconfined.others _ k hother hk (by
    show ¬ Created (Function.update σ.trace i _ i) k
    rw [Function.update_self]
    exact hcreated)).1
  obtain ⟨_, _, _, _, hentry, _⟩ := Disk.removeFile_eq_ok hremoved
  rw [hentry, Function.update_self] at hstays
  cases hstays

/-- A write whose checks pass comes behind them while the others wait. -/
theorem exists_checked (faulty : ι → Call Site → IoError → Prop) {i : ι} {p : Place}
    (hpasses : (w i).Passes d₀ p) :
    ∃ parent name n σ, p = parent ++ [name] ∧ d₀.IsDirectory parent ∧
      Reaches (PerformsFor (fun i => (w i).proc) faulty) (together w d₀) σ ∧ σ.state = d₀ ∧
      σ.thread i = .running (tagged i ((w i).rest d₀ parent name n).run) ∧
      (∀ k, ¬ Created (σ.trace i) k) ∧
      ∀ j, j ≠ i → σ.thread j = .running (tagged j (w j).program.run) := by
  obtain ⟨parent, name, n, t, hp, hdir, _, hchecks⟩ := hpasses.goes (faulty i)
  obtain ⟨σ, hreaches, hstate, hthread, hothers⟩ :=
    reaches_of_goes (fun i => (w i).proc) faulty (σ := together w d₀) hchecks rfl rfl
  refine ⟨parent, name, n, σ, hp, hdir, hreaches, hstate, hthread, ?_, fun j hj => (hothers j hj).1⟩
  intro k hcreated
  obtain ⟨hlow, hhigh⟩ := (created_next hreaches).2 i k hcreated
  rw [hstate] at hhigh
  exact absurd hhigh (Nat.not_lt.mpr hlow)

theorem free_of_considerate (h : Considerate w faulty d₀) {i : ι} {p : Place}
    (hpasses : (w i).Passes d₀ p) : ¬ Occupied d₀ ((w i).temporary p) := by
  intro h
  obtain ⟨hsome, hfile⟩ := h
  obtain ⟨k, hk⟩ := Option.ne_none_iff_exists'.mp hsome
  obtain ⟨parent, name, n, σ, rfl, hdir, hreaches, rfl, hthread, hnone, _⟩ :=
    exists_checked faulty hpasses
  exact not_considerate hreaches hthread hpasses hdir hk hfile hnone h

/-- A write is checked, and waits while another goes on to a disk on which something stands at
the temporary place of the first. -/
theorem not_considerate_of_goes {i j : ι} {p : Place} {k : Nat} {t' : History}
    {rest : Program (Call Site) Reply (Except OutputError Unit)} (hij : j ≠ i)
    (hpasses : (w i).Passes d₀ p)
    (hgoes : Goes (Performs (w j).proc (faulty j)) d' t' rest d₀ [] (w j).program.run)
    (hdirectories : ∀ q, d₀.IsDirectory q → d'.IsDirectory q)
    (hk : d'.entry ((w i).temporary p) = some k)
    (hfile : ¬ d'.IsDirectory ((w i).temporary p)) : ¬ Considerate w faulty d₀ := by
  obtain ⟨parent, name, n, σ, rfl, hdir, hreaches, hstate, hthread, hnone, hothers⟩ :=
    exists_checked faulty hpasses
  obtain ⟨σ', hreaches', rfl, _, hothers'⟩ :=
    reaches_of_goes (fun i => (w i).proc) faulty hgoes hstate (hothers j hij)
  obtain ⟨hthread', htrace'⟩ := hothers' i hij.symm
  apply not_considerate (hreaches.trans hreaches') (hthread'.trans hthread) hpasses
    (hdirectories parent hdir) hk hfile
  rwa [htrace']

/-! ## Writes that come to create and to commit -/

section

omit [DecidableEq ι]

variable {w : Writer} {parent : Place} {name other : Name} {target : Place} {m : Inode}
  {faulty : Call Site → IoError → Prop} {t : History}

theorem exists_created (w : Writer) (hdir : d.IsDirectory parent)
    (hnone : d.entry (parent ++ [other]) = none) :
    ∃ d' m, Answers w.proc d (.createNew (absolute (parent ++ [other])) privateMode)
        (.ok d.next) d' ∧
      Staged d (parent ++ [other]) m d' ∧ m.content = .file [] ∧ m.mode = w.stagedMode ∧
        m.links = 1 := by
  obtain ⟨d', hcreate⟩ := Disk.createNew_ok hnone (by rwa [List.dropLast_concat])
    (newFile w.stagedMode (d.deviceOf parent))
  obtain ⟨_, _, _, _, hentry, hinode⟩ := Disk.createNew_eq_ok hcreate
  refine ⟨d', _, ?_, ⟨hnone, hentry, hinode⟩, rfl, rfl, rfl⟩
  show Changes d _ _ _
  simp only [Disk.locate_place hdir, bind, Except.bind, List.dropLast_concat]
  rw [show privateMode - (privateMode &&& w.proc.umask) = w.stagedMode from rfl, hcreate]
  exact ⟨rfl, rfl⟩

/-- The file is staged. -/
theorem yields_stageFile (w : Writer) (faulty : Call Site → IoError → Prop) (bytes : Bytes)
    (hdir : d.IsDirectory parent) (hnone : d.entry (parent ++ [other]) = none)
    (hmode : w.stagedMode &&& 0o777 = privateMode) (t : History) :
    ∃ d' m t', Staged d (parent ++ [other]) m d' ∧ m.content.kind = .file ∧
      Yields (Performs w.proc faulty) (.ok (d'.stat d.next)) d' t' d t
        (stageFile (parent ++ [other]) bytes).run := by
  obtain ⟨d₁, m, hcreate, hstaged, hcontent, hm, hlinks⟩ := exists_created w hdir hnone
  have hwritten := hstaged.rewrite (· ++ bytes)
  have hrewritten : Inode.rewrite (· ++ bytes) m =
      { m with content := .file bytes, mtime := m.mtime + 1, ctime := m.ctime + 1 } := by
    simp [Inode.rewrite, hcontent]
  rw [hrewritten] at hwritten
  have hinode : (d₁.rewrite d.next (· ++ bytes)).inode d.next =
      { m with content := .file bytes, mtime := m.mtime + 1, ctime := m.ctime + 1 } := by
    rw [hwritten.inode, Function.update_self]
  have hvalidated : ∀ t, Yields (Performs w.proc faulty) (.ok ())
      (d₁.rewrite d.next (· ++ bytes)) t (d₁.rewrite d.next (· ++ bytes)) t
      (validateStagedMetadata ((d₁.rewrite d.next (· ++ bytes)).stat d.next)).run := by
    intro t
    apply Yields.bind_throwIf
    · simp [Disk.stat, hinode, Content.kind]
    · unfold throwIf Fallible.throwIf
      rw [if_neg (by simp [Disk.stat, hinode, hm, hmode, hlinks])]
      exact ⟨rfl, rfl, rfl⟩
  have hwrite : Answers w.proc d₁ (.writeAll d.next bytes) (.ok ())
      (d₁.rewrite d.next (· ++ bytes)) := ⟨rfl, rfl⟩
  exact ⟨_, _, _, hwritten, rfl, yields_call hcreate (yields_call hwrite (yields_call ⟨rfl, rfl⟩
    (yields_call ⟨rfl, rfl⟩ (Yields.bind (hvalidated _) ⟨rfl, rfl, rfl⟩))))⟩

theorem yields_verifyParentIdentity (proc : Process) (faulty : Call Site → IoError → Prop)
    (site : Site) {n : Nat} (hn : d.entry parent = some n) (hkind : (d.stat n).kind = .directory)
    {pinned : Metadata} (hsame : sameIdentity (d.stat n) pinned = true) (t : History) :
    ∃ t', Yields (Performs proc faulty) (.ok ()) d t' d t
      (verifyParentIdentity site parent pinned).run := by
  refine ⟨t ++ [⟨⟨site, .symlinkMetadata (absolute parent)⟩, .ok (d.stat n)⟩],
    yields_call (answers_symlinkMetadata hn) ?_⟩
  unfold throwIf Fallible.throwIf
  rw [if_neg (by simp [hkind, hsame])]
  exact ⟨rfl, rfl, rfl⟩

theorem not_prefix_child (h : name ≠ other) : ¬ parent ++ [other] <+: parent ++ [name] := by
  rw [List.prefix_append_right_inj]
  simpa using Ne.symm h

theorem answers_rename {proc : Process} (hdir : d.IsDirectory parent)
    (h : d.rename (parent ++ [other]) (parent ++ [name]) = .ok d') :
    Answers proc d (.rename (absolute (parent ++ [other])) (absolute (parent ++ [name])))
      (.ok ()) d' := by
  show Changes d _ _ _
  simp only [Disk.locate_place hdir, bind, Except.bind, h]
  exact ⟨rfl, rfl⟩

theorem answers_hardLink {proc : Process} (hdir : d.IsDirectory parent)
    (h : d.hardLink (parent ++ [other]) (parent ++ [name]) = .ok d') :
    Answers proc d (.hardLink (absolute (parent ++ [other])) (absolute (parent ++ [name])))
      (.ok ()) d' := by
  show Changes d _ _ _
  simp only [Disk.locate_place hdir, bind, Except.bind, h]
  exact ⟨rfl, rfl⟩

theorem not_isDirectory_of_file {q : Place} {k : Nat} (hk : d.entry q = some k)
    (hkind : (d.inode k).content.kind = .file) : ¬ d.IsDirectory q := by
  intro h
  obtain ⟨j, hj, hcontent⟩ := h
  rw [hk, Option.some.injEq] at hj
  subst hj
  rw [hcontent] at hkind
  cases hkind

/-- The commit gives the staged file a free target. -/
theorem goes_commit (w : Writer) (faulty : Call Site → IoError → Prop) (staged : Metadata)
    {d₀ : Disk} (hdir : d₀.IsDirectory parent) (hfree : d₀.entry (parent ++ [name]) = none)
    (hstaged : Staged d₀ (parent ++ [temporaryName name w.pid w.sequence]) m d)
    (hkind : m.content.kind = .file) (t : History) :
    ∃ d' t' rest, Goes (Performs w.proc faulty) d' t' rest d t
        (if w.force then commitReplace (parent ++ [temporaryName name w.pid w.sequence])
          (parent ++ [name]) staged
        else commitNoClobber (parent ++ [temporaryName name w.pid w.sequence])
          (parent ++ [name]) staged).run ∧
      d'.entry (parent ++ [name]) = some d₀.next ∧
      ¬ d'.IsDirectory (parent ++ [name]) ∧ ∀ q, d₀.IsDirectory q → d'.IsDirectory q := by
  have hne : parent ++ [name] ≠ parent ++ [temporaryName name w.pid w.sequence] :=
    child_ne (temporaryName_ne w.pid w.sequence)
  have hold : ∀ q, d₀.IsDirectory q →
      q ≠ parent ++ [name] ∧ q ≠ parent ++ [temporaryName name w.pid w.sequence] := by
    intro q hq
    constructor
    · intro heq
      subst heq
      exact hq.entry_ne_none hfree
    · intro heq
      subst heq
      exact hq.entry_ne_none hstaged.absent
  have hdir' : d.IsDirectory parent :=
    hstaged.frame.isDirectory (hold parent hdir).1 (hold parent hdir).2 hdir
  have hsrc : d.entry (parent ++ [temporaryName name w.pid w.sequence]) = some d₀.next := by
    rw [hstaged.entry, Function.update_self]
  have hdst : d.entry (parent ++ [name]) = none := by
    rw [hstaged.entry, Function.update_of_ne hne, hfree]
  have hparent : d.IsDirectory (parent ++ [name]).dropLast := by rwa [List.dropLast_concat]
  cases w.force with
  | true =>
      have hwritable : Writable d (parent ++ [name]) true := .inl hdst
      obtain ⟨t₁, hcheck⟩ := yields_checkTarget w.proc faulty .commit hdir' hwritable t
      obtain ⟨d', hrename⟩ := Disk.rename_ok hsrc hdst hparent
        (not_prefix_child (temporaryName_ne w.pid w.sequence))
      have hcommitted := hstaged.rename hkind hne hrename
      have htarget : d'.entry (parent ++ [name]) = some d₀.next := by
        rw [hcommitted.entry, Function.update_self]
      have hframe : Frame d₀ (parent ++ [name]) (parent ++ [name]) d' := hcommitted.frame
      exact ⟨d', _, _, Goes.bind hcheck (.call (.inl (answers_rename hdir' hrename)) .refl), htarget,
        not_isDirectory_of_file htarget (by rw [hcommitted.inode, hkind]),
        fun q hq => hframe.isDirectory (hold q hq).1 (hold q hq).1 hq⟩
  | false =>
      obtain ⟨d', hlink⟩ := Disk.hardLink_ok hsrc (hstaged.isFile hkind) hdst hparent
      have hlinked := hstaged.link hne hlink
      have htarget : d'.entry (parent ++ [name]) = some d₀.next := by
        rw [hlinked.entry, Function.update_self]
      have hfile : (d'.inode d₀.next).content.kind = .file := by
        rw [hlinked.inode, Function.update_self]
        exact hkind
      exact ⟨d', _, _, .call (.inl (answers_hardLink hdir' hlink)) .refl, htarget,
        not_isDirectory_of_file htarget hfile,
        fun q hq => hlinked.frame.isDirectory (hold q hq).1 (hold q hq).2 hq⟩

/-- A write whose checks pass creates its file in some run, where its temporary place is free. -/
theorem exists_creating (w : Writer) (faulty : Call Site → IoError → Prop)
    (hpasses : w.Passes d target) (hfree : d.entry (w.temporary target) = none) :
    ∃ d' t' rest, Goes (Performs w.proc faulty) d' t' rest d [] w.program.run ∧
      d'.entry (w.temporary target) = some d.next ∧ ¬ d'.IsDirectory (w.temporary target) ∧
      ∀ q, d.IsDirectory q → d'.IsDirectory q := by
  obtain ⟨parent, name, n, t, rfl, hdir, _, hchecks⟩ := hpasses.goes faulty
  rw [temporary_concat] at hfree ⊢
  obtain ⟨d', m, hcreate, hstaged, hcontent, _, _⟩ := exists_created w hdir hfree
  have hframe : Frame d (parent ++ [temporaryName name w.pid w.sequence])
    (parent ++ [temporaryName name w.pid w.sequence]) d' := hstaged.frame
  have hcreates : Goes (Performs w.proc faulty) d' _ _ d t (w.rest d parent name n).run :=
    .call (.inl hcreate) .refl
  refine ⟨d', _, _, hchecks.trans hcreates, by rw [hstaged.entry, Function.update_self],
    hstaged.isFile (by rw [hcontent, Content.kind]), ?_⟩
  intro q hq
  have hne : q ≠ parent ++ [temporaryName name w.pid w.sequence] := by
    intro heq
    subst heq
    exact hq.entry_ne_none hfree
  exact hframe.isDirectory hne hne hq

/-- A write that may commit does so in some run, where its target is free. -/
theorem exists_committed (w : Writer) (faulty : Call Site → IoError → Prop)
    (hcommits : w.Commits d target) (hfree : d.entry target = none) :
    ∃ d' t' rest, Goes (Performs w.proc faulty) d' t' rest d [] w.program.run ∧
      d'.entry target = some d.next ∧ ¬ d'.IsDirectory target ∧
      ∀ q, d.IsDirectory q → d'.IsDirectory q := by
  obtain ⟨parent, name, n, t, rfl, hdir, hn, hchecks⟩ := hcommits.passes.goes faulty
  have htemporary := hcommits.free
  rw [temporary_concat] at htemporary
  obtain ⟨d₁, m, t₁, hstaged, hkind, hstage⟩ :=
    yields_stageFile w faulty w.bytes hdir htemporary hcommits.mode t
  have hentry : d₁.entry parent = some n := by
    rw [hstaged.entry, Function.update_of_ne, hn]
    intro heq
    rw [heq, htemporary] at hn
    cases hn
  have hinode := hstaged.inode_old (d.fresh parent n hn)
  have hstat : d₁.stat n = d.stat n := by
    rw [Disk.stat, Disk.stat, hinode]
  have hparent : (d₁.stat n).kind = .directory := by
    obtain ⟨j, hj, hcontent⟩ := hdir
    rw [hn, Option.some.injEq] at hj
    subst hj
    rw [hstat, Disk.stat, hcontent, Content.kind]
  have hsame : sameIdentity (d₁.stat n) (d.stat n) = true := by simp [sameIdentity, hstat]
  obtain ⟨t₂, hverify⟩ :=
    yields_verifyParentIdentity w.proc faulty .stage hentry hparent hsame t₁
  obtain ⟨d', t', rest, hcommit, htarget, hfile, hdirectories⟩ :=
    goes_commit w faulty (d₁.stat d.next) hdir hfree hstaged hkind t₂
  have hbody : Goes (Performs w.proc faulty) d' t' rest d t
      (stageAndCommit parent (parent ++ [name]) (parent ++ [temporaryName name w.pid w.sequence])
        (d.stat n) w.bytes w.force).run := Goes.bind hstage (Goes.bind hverify hcommit)
  obtain ⟨_, hguarded⟩ := hbody.onError
    (dropGuard (parent ++ [temporaryName name w.pid w.sequence]))
  obtain ⟨rest', hrest⟩ := hguarded.part _
  exact ⟨d', t', rest', hchecks.trans hrest, htarget, hfile, hdirectories⟩

end

/-! ## Confined calls, apart -/

theorem apart_of_considerate (h : Considerate w faulty d₀) : Apart w d₀ where
  free i p hpasses := free_of_considerate h hpasses
  temporary i j p q hij hpasses hfree hpasses' := by
    intro heq
    rw [← heq] at hfree
    obtain ⟨d', t', rest, hgoes, htemporary, hfile, hdirectories⟩ :=
      exists_creating (w j) (faulty j) hpasses' hfree
    rw [heq] at htemporary hfile
    exact not_considerate_of_goes hij.symm hpasses hgoes hdirectories htemporary hfile h
  target i j p q hij hpasses hfree hcommits := by
    intro heq
    subst heq
    obtain ⟨d', t', rest, hgoes, htarget, hfile, hdirectories⟩ :=
      exists_committed (w j) (faulty j) hcommits hfree
    exact not_considerate_of_goes hij.symm hpasses hgoes hdirectories htarget hfile h

/-- Alone, the runs of a write spare what they find exactly when nothing foreign stands at its
temporary place. Side by side, all calls of all writes are confined exactly when they are apart. -/
theorem writeAtomic_spares_iff (w : ι → Writer) (d₀ : Disk)
    (htruthful : ∀ i, Truthful (faulty i)) :
    (∀ i, (∀ σ, Reaches (Performs (w i).proc (faulty i))
          (Config.start d₀ fun _ : Unit => (w i).program.run) σ →
        Spares (w i).proc.cwd (w i).path d₀ σ.state) ↔
      ∀ p, (w i).Passes d₀ p → ¬ Occupied d₀ ((w i).temporary p)) ∧
    (Considerate w faulty d₀ ↔ Apart w d₀) := by
  refine ⟨?_, apart_of_considerate, fun hapart => considerate_of_apart hapart htruthful⟩
  intro i
  rw [Writer.program, alone_spares_iff (htruthful i)]
  constructor
  · exact fun h p hpasses => h hpasses.accepts p hpasses.located
  · exact fun h haccepts p hlocated => h p ⟨haccepts, hlocated⟩

/-! ## Two processes with one target -/

theorem barePath_rooted : Component.rootDir ∉ barePath.tail := by decide

/-- Processes 7 and 8 write `/t`. -/
def twoWriters (second : Bool) : Writer :=
  ⟨rootProcess, if second then 8 else 7, 1, barePath, Text.bytes "lock", false, barePath_rooted⟩

theorem twoWriters_passes {i : Bool} {p : Place} (h : (twoWriters i).Passes bareDisk p) :
    p = bareTarget :=
  Except.ok.inj (h.located.symm.trans bareTarget_located)

theorem twoWriters_apart : Apart twoWriters bareDisk where
  free i p hpasses := by
    obtain rfl := twoWriters_passes hpasses
    intro htaken
    apply htaken.1
    cases i <;> decide
  temporary i j p q hij hpasses _ hpasses' := by
    obtain rfl := twoWriters_passes hpasses
    obtain rfl := twoWriters_passes hpasses'
    revert hij
    cases i <;> cases j <;> decide
  target i j p q _ hpasses _ hcommits := by
    obtain rfl := twoWriters_passes hpasses
    obtain rfl := twoWriters_passes hcommits.passes
    cases i <;> decide

def neverFailing (_ : Bool) : Call Site → IoError → Prop := neverFails

/-- Every call is answered. -/
def reactTogether (d : Disk) (c : Call (Bool × Site)) : Option (Reply c × Disk) :=
  d.answer rootProcess [] c.op

/-- Process 8 has staged its file when process 7 does all it does up to its commit. -/
def twoSchedule : List Bool := List.replicate 4 true ++ List.replicate 8 false

theorem twoWriters_played :
    ((together twoWriters bareDisk).turns reactTogether twoSchedule).bind (fun σ =>
      (σ.turn reactTogether false).map fun σ' =>
        (decide (Created (σ.trace true) 1), σ.state.entry ((twoWriters true).temporary bareTarget),
          σ'.state.entry bareTarget)) = some (true, some 1, some 2) := by
  decide +kernel

/-- The link that process 7 makes leaves the staged file of process 8 alone. -/
theorem writeAtomic_spares_iff_sample :
    ∃ σ d', Reaches (PerformsFor (fun i => (twoWriters i).proc) neverFailing)
        (together twoWriters bareDisk) σ ∧
      Created (σ.trace true) 1 ∧ d'.entry bareTarget = some 2 ∧
      Stays ((twoWriters true).temporary bareTarget) 1 σ.state d' := by
  have hreact : ∀ d c r d', reactTogether d c = some (r, d') →
      PerformsFor (fun i => (twoWriters i).proc) neverFailing d c r d' :=
    fun d c r d' h => .inl (Disk.answers_answer h)
  obtain ⟨σ, hturns, hlast⟩ := Option.bind_eq_some_iff.mp twoWriters_played
  obtain ⟨σ', hturn, hseen⟩ := Option.map_eq_some_iff.mp hlast
  obtain ⟨hcreated, hentry⟩ := Prod.mk.inj hseen
  obtain ⟨hstaged, htarget⟩ := Prod.mk.inj hentry
  obtain ⟨c, next, r, hthread, hcall, _⟩ := turn_eq_some hturn
  have hreaches := reaches_of_turns hreact hturns
  have hconfined := (writeAtomic_spares_iff twoWriters bareDisk
    fun _ => neverFails_truthful).2.mpr twoWriters_apart σ hreaches false c next r σ'.state hthread
      (hreact _ _ _ _ hcall)
  exact ⟨σ, σ'.state, hreaches, of_decide_eq_true hcreated, htarget,
    hconfined.staged true (by decide) bareTarget 1 bareTarget_located
      (of_decide_eq_true hcreated) hstaged⟩

end Invokrum.Cli
