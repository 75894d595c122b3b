import Invokrum.Cli.OutputAtomic

/-!
# Runs of a safe write

A run keeps its target whole and, its late failures apart, leaves everything
as found when it fails. It removes an entry of its temporary name that it has
not created, if that is not a directory.
-/

namespace Invokrum.Cli

open Programs Invokrum.Inodes
open Text (Bytes)

/-- The temporary place of a target. -/
def temporaryOf (pid sequence : Nat) (target : Place) : Place :=
  target.dropLast ++ [temporaryName (target.getLast?.getD []) pid sequence]

theorem temporaryOf_concat (pid sequence : Nat) (parent : Place) (name : Name) :
    temporaryOf pid sequence (parent ++ [name]) = parent ++ [temporaryName name pid sequence] := by
  rw [temporaryOf, List.dropLast_concat, List.getLast?_concat, Option.getD_some]

section

variable {proc : Process} {faulty : Call Site → IoError → Prop} {d₀ : Disk} {path : PathBuf}
  {bytes : Bytes} {force : Bool} {pid sequence : Nat}
  {σ : Config Unit (Call Site) Reply Disk (Except OutputError Unit)}

theorem locate_eq_ok {target : Place} {cwd : Place} (h : d₀.locate cwd path = .ok target) :
    ∃ parent name, path.getLast? = some (.normal name) ∧
      d₀.lookup cwd true (if path.dropLast = [] then [.curDir] else path.dropLast) = .ok parent ∧
      d₀.IsDirectory parent ∧ target = parent ++ [name] := by
  unfold Disk.locate at h
  split at h
  · next name hlast =>
      split at h
      · next parent hlookup =>
          split_ifs at h with hdir
          cases h
          exact ⟨parent, name, hlast, hlookup, hdir, rfl⟩
      · cases h
  · cases h

/-- A path without a place changes nothing. -/
theorem ends_unplaced {e : IoError} (h : d₀.locate proc.cwd path = .error e) :
    Ends (Performs proc faulty) (· = d₀) (fun _ _ _ => False) (fun _ _ => True) d₀ []
      (writeAtomic pid sequence path bytes force) := by
  have hinv : d₀ = d₀ := rfl
  refine ends_writeAtomic hinv (fun _ => trivial) ?_
  intro parent name i t hlocate _
  rw [h] at hlocate
  cases hlocate

theorem ends_placed {target : Place} (hlocate : d₀.locate proc.cwd path = .ok target)
    (hfree : d₀.entry (temporaryOf pid sequence target) = none ∨
      d₀.IsDirectory (temporaryOf pid sequence target)) :
    Ends (Performs proc faulty)
      (Guarded d₀ target (temporaryOf pid sequence target) bytes force)
      (fun _ d _ => ∃ m, Committed d₀ target m d ∧ Published bytes m)
      (Failed faulty d₀ target bytes) d₀ [] (writeAtomic pid sequence path bytes force) := by
  obtain ⟨parent, name, _, _, _, rfl⟩ := locate_eq_ok hlocate
  rw [temporaryOf_concat] at hfree ⊢
  apply ends_writeAtomic guarded_start fun _ _ => .inl restored_refl
  intro parent' name' i t hlocate' _ hparent hi
  obtain ⟨rfl, hname⟩ := List.append_inj' (Except.ok.inj (hlocate.symm.trans hlocate')) rfl
  cases hname
  exact ends_publish hparent hi (temporaryName_ne pid sequence) hfree

/-- What a write may have done to its target, while it runs and at its end. -/
structure Atomically (d₀ : Disk) (target temporary : Place) (bytes : Bytes) (force : Bool)
    (σ : Config Unit (Call Site) Reply Disk (Except OutputError Unit)) : Prop where
  whole : Unaltered d₀ target σ.state ∨ HoldsBytes target bytes σ.state
  kept : force = false → d₀.entry target ≠ none → Unaltered d₀ target σ.state
  ok : σ.thread () = .running (.done (.ok ())) →
    σ.state.entry temporary = none ∧
      ∃ i, σ.state.entry target = some i ∧ Published bytes (σ.state.inode i)
  error : ∀ e, σ.thread () = .running (.done (.error e)) →
    σ.state.entry temporary = none ∧
      (Unaltered d₀ target σ.state ∨ HoldsBytes target bytes σ.state ∧ Late (σ.trace ()))

theorem writeAtomic_atomic (hreliable : Reliable faulty)
    (hunused : ∀ target, d₀.locate proc.cwd path = .ok target →
      d₀.entry (temporaryOf pid sequence target) = none)
    (hreaches : Reaches (Performs proc faulty)
      (Config.start d₀ fun _ : Unit => (writeAtomic pid sequence path bytes force).run) σ) :
    match d₀.locate proc.cwd path with
    | .ok target => Atomically d₀ target (temporaryOf pid sequence target) bytes force σ
    | .error _ => σ.state = d₀ ∧ σ.thread () ≠ .running (.done (.ok ())) := by
  cases hlocate : d₀.locate proc.cwd path with
  | error e =>
      obtain ⟨hstate, hrest⟩ := Safe.reaches (ends_unplaced hlocate).safe hreaches
      exact ⟨hstate, fun hdone => (hrest _ hdone).2⟩
  | ok target =>
      have hnone := hunused target hlocate
      have hne : temporaryOf pid sequence target ≠ target := by
        obtain ⟨parent, name, _, _, _, rfl⟩ := locate_eq_ok hlocate
        rw [temporaryOf_concat]
        exact (child_ne (temporaryName_ne pid sequence)).symm
      obtain ⟨hinv, hrest⟩ := Safe.reaches (ends_placed hlocate (.inl hnone)).safe hreaches
      refine ⟨hinv.whole, hinv.kept, ?_, ?_⟩
      · intro hdone
        obtain ⟨m, hcommitted, hm⟩ := (hrest _ hdone).2
        refine ⟨by rw [hcommitted.entry, Function.update_of_ne hne, hnone], d₀.next, ?_, ?_⟩
        · rw [hcommitted.entry, Function.update_self]
        · rwa [hcommitted.inode]
      · intro e hdone
        rcases (hrest _ hdone).2 hreliable with hrestored | ⟨m, hcommitted, hm, hlate⟩
        · exact ⟨by rw [hrestored.entry, hnone], .inl hrestored.unaltered⟩
        · exact ⟨by rw [hcommitted.entry, Function.update_of_ne hne, hnone],
            .inr ⟨hcommitted.holdsBytes hm, hlate⟩⟩

end

/-! ## A failed synchronisation -/

def rootInode : Inode := ⟨.directory, 0, 0o755, 2, 0, 0⟩

theorem bareEntries_rooted : Rooted [([], rootInode)] := by decide

/-- The root directory and nothing else. -/
def bareDisk : Disk := .ofList [([], rootInode)] bareEntries_rooted

def rootProcess : Process := ⟨[], 0⟩

def barePath : PathBuf := [.rootDir, .normal (Text.bytes "t")]

def bareTarget : Place := [Text.bytes "t"]

def bareWrite : Output Unit := writeAtomic 7 1 barePath (Text.bytes "lock") false

/-- Only the synchronisation of the directory may fail. -/
def syncFails (c : Call Site) (_ : IoError) : Prop :=
  match c with
  | ⟨.settle, .syncAll _⟩ => True
  | _ => False

def reactSyncFails (d : Disk) (c : Call Site) : Option (Reply c × Disk) :=
  match c with
  | ⟨.settle, .syncAll _⟩ => some (.error .other, d)
  | ⟨_, op⟩ => d.answer rootProcess [] op

theorem performs_reactSyncFails (d : Disk) (c : Call Site) (r : Reply c) (d' : Disk)
    (h : reactSyncFails d c = some (r, d')) : Performs rootProcess syncFails d c r d' := by
  unfold reactSyncFails at h
  split at h
  · cases h
    exact .inr ⟨.other, trivial, rfl, rfl⟩
  · exact .inl (Disk.answers_answer h)

theorem syncFails_reliable : Reliable syncFails := by
  intro c e hsite h
  obtain ⟨site, op⟩ := c
  obtain rfl : site = .cleanup := hsite
  exact h

theorem bareTarget_located : bareDisk.locate rootProcess.cwd barePath = .ok bareTarget := by
  decide

theorem bareTarget_unused (target : Place)
    (h : bareDisk.locate rootProcess.cwd barePath = .ok target) :
    bareDisk.entry (temporaryOf 7 1 target) = none := by
  rw [bareTarget_located] at h
  cases h
  decide

theorem bareWrite_played :
    (play reactSyncFails bareDisk [] bareWrite.run).map
      (fun run => (run.1, run.2.1.entry bareTarget)) = some (.error .io, some 1) := by
  decide

theorem bareWrite_reaches :
    ∃ σ, Reaches (Performs rootProcess syncFails)
        (Config.start bareDisk fun _ : Unit => bareWrite.run) σ ∧
      σ.thread () = .running (.done (.error .io)) ∧ σ.state.entry bareTarget = some 1 := by
  obtain ⟨⟨result, d, t⟩, hplay, hend⟩ := Option.map_eq_some_iff.mp bareWrite_played
  obtain ⟨rfl, hentry⟩ := Prod.mk.inj hend
  exact ⟨_, (play_yields performs_reactSyncFails hplay).reaches, rfl, hentry⟩

theorem writeAtomic_atomic_sample :
    ∃ σ, Reaches (Performs rootProcess syncFails)
        (Config.start bareDisk fun _ : Unit => bareWrite.run) σ ∧
      HoldsBytes bareTarget (Text.bytes "lock") σ.state ∧ Late (σ.trace ()) := by
  obtain ⟨σ, hreaches, hdone, hentry⟩ := bareWrite_reaches
  have hatomic := writeAtomic_atomic syncFails_reliable bareTarget_unused hreaches
  rw [bareTarget_located] at hatomic
  rcases (hatomic.error .io hdone).2 with hsame | hlate
  · have hnone : σ.state.entry bareTarget = none := by
      rw [hsame.1]
      decide
    rw [hentry] at hnone
    cases hnone
  · exact ⟨σ, hreaches, hlate⟩

/-- The write of `/t` fails, and `/t` stands where nothing was. -/
theorem writeAtomic_failed_published :
    Reliable syncFails ∧ bareDisk.locate rootProcess.cwd barePath = .ok bareTarget ∧
      bareDisk.entry (temporaryOf 7 1 bareTarget) = none ∧
      ∃ σ, Reaches (Performs rootProcess syncFails)
          (Config.start bareDisk fun _ : Unit => bareWrite.run) σ ∧
        σ.thread () = .running (.done (.error .io)) ∧ ¬ Unaltered bareDisk bareTarget σ.state := by
  obtain ⟨σ, hreaches, hdone, hentry⟩ := bareWrite_reaches
  refine ⟨syncFails_reliable, bareTarget_located, bareTarget_unused _ bareTarget_located, σ,
    hreaches, hdone, ?_⟩
  intro hsame
  have hnone : σ.state.entry bareTarget = none := by
    rw [hsame.1]
    decide
  rw [hentry] at hnone
  cases hnone

/-! ## Other entries -/

/-- What was found stays, the target apart. -/
def Spares (cwd : Place) (path : PathBuf) (d₀ d : Disk) : Prop :=
  ∀ q i, d₀.locate cwd path ≠ .ok q → d₀.entry q = some i →
    d.entry q = some i ∧ (d.inode i).content = (d₀.inode i).content

/-- Something other than a directory stands there. -/
def Occupied (d : Disk) (p : Place) : Prop := d.entry p ≠ none ∧ ¬ d.IsDirectory p

section

variable {proc : Process} {faulty : Call Site → IoError → Prop} {d₀ d d' : Disk}
  {path : PathBuf} {bytes : Bytes} {force : Bool} {pid sequence : Nat} {site : Site} {op : Op}
  {t t' : List (Event (Call Site) Reply)} {α : Type} {result : Except OutputError α}

theorem spares_refl (cwd : Place) (path : PathBuf) : Spares cwd path d₀ d₀ :=
  fun _ _ _ hi => ⟨hi, rfl⟩

theorem Frame.spares {target temporary : Place} (h : Frame d₀ target temporary d)
    (hlocate : d₀.locate proc.cwd path = .ok target) (hnone : d₀.entry temporary = none) :
    Spares proc.cwd path d₀ d := by
  intro q i hq hi
  have htarget : q ≠ target := by
    intro heq
    subst heq
    exact hq hlocate
  have htemporary : q ≠ temporary := by
    intro heq
    subst heq
    rw [hnone] at hi
    cases hi
  exact ⟨by rw [h.entry q htarget htemporary, hi], h.content i (d₀.fresh q i hi)⟩

/-- Every run spares what it found, unless its temporary name is taken. -/
theorem spares_of_free (htruthful : Truthful faulty)
    (hfree : Accepts d₀ proc.cwd path force → ∀ target, d₀.locate proc.cwd path = .ok target →
      ¬ Occupied d₀ (temporaryOf pid sequence target))
    {σ : Config Unit (Call Site) Reply Disk (Except OutputError Unit)}
    (hreaches : Reaches (Performs proc faulty)
      (Config.start d₀ fun _ : Unit => (writeAtomic pid sequence path bytes force).run) σ) :
    Spares proc.cwd path d₀ σ.state := by
  have hsame : (∀ parent name i t, d₀.locate proc.cwd path = .ok (parent ++ [name]) →
      (Truthful faulty → Accepts d₀ proc.cwd path force) → d₀.IsDirectory parent →
      d₀.entry parent = some i →
      Ends (Performs proc faulty) (Spares proc.cwd path d₀) (fun _ _ _ => True) (fun _ _ => True)
        d₀ t (publish parent (parent ++ [name]) (parent ++ [temporaryName name pid sequence])
          (d₀.stat i) bytes force)) → Spares proc.cwd path d₀ σ.state := by
    intro hpublish
    exact (Safe.reaches (ends_writeAtomic (spares_refl proc.cwd path)
      (fun _ => trivial) hpublish).safe hreaches).1
  cases hlocate : d₀.locate proc.cwd path with
  | error e =>
      apply hsame
      intro parent name i t hparent
      rw [hlocate] at hparent
      cases hparent
  | ok target =>
      by_cases hnone : d₀.entry (temporaryOf pid sequence target) = none
      · have hinv := (Safe.reaches (ends_placed hlocate (.inl hnone)).safe hreaches).1
        exact hinv.frame.spares hlocate hnone
      · apply hsame
        intro parent name i t hparent haccepts hdir hi
        obtain rfl := Except.ok.inj (hlocate.symm.trans hparent)
        have htaken := hfree (haccepts htruthful) _ hlocate
        rw [temporaryOf_concat] at htaken hnone
        have hrefused : d₀.IsDirectory (parent ++ [temporaryName name pid sequence]) := by
          by_contra hnot
          exact htaken ⟨hnone, hnot⟩
        exact (ends_publish_refused (spares_refl proc.cwd path) hdir hrefused).mono
          (fun _ _ _ h => h.elim) fun _ _ h => h

/-! ## The run that removes a foreign file -/

/-- A call that is answered. -/
theorem yields_call {β : Type} {wrap : IoError → OutputError} {f : op.Value → Output β}
    {result : Except OutputError β} {v : op.Value} {d₁ : Disk}
    (hanswer : Answers proc d op (.ok v) d₁)
    (hf : Yields (Performs proc faulty) result d' t' d₁ (t ++ [⟨⟨site, op⟩, .ok v⟩]) (f v).run) :
    Yields (Performs proc faulty) result d' t' d t (call site op wrap >>= f).run :=
  ⟨.ok v, d₁, .inl hanswer, hf⟩

theorem yields_request {β : Type} {f : Except IoError op.Value → Output β}
    {result : Except OutputError β} {r : Except IoError op.Value} {d₁ : Disk}
    (hanswer : Answers proc d op r d₁)
    (hf : Yields (Performs proc faulty) result d' t' d₁ (t ++ [⟨⟨site, op⟩, r⟩]) (f r).run) :
    Yields (Performs proc faulty) result d' t' d t (request site op >>= f).run :=
  ⟨r, d₁, .inl hanswer, hf⟩

theorem answers_symlinkMetadata {p : Place} {i : Nat} (hi : d.entry p = some i) :
    Answers proc d (.symlinkMetadata (absolute p)) (.ok (d.stat i)) d := by
  refine ⟨rfl, ?_⟩
  rw [inodeAt_place hi]
  rfl

theorem stat_isDirectory {p : Place} (h : d.IsDirectory p) :
    ∃ i, d.entry p = some i ∧ (d.stat i).kind = .directory := by
  obtain ⟨i, hi, hcontent⟩ := h
  exact ⟨i, hi, by rw [Disk.stat, hcontent, Content.kind]⟩

theorem yields_walkComponents (proc : Process) (faulty : Call Site → IoError → Prop)
    {parent : PathBuf} {current : Place} (h : Plain d current parent)
    (t : List (Event (Call Site) Reply)) :
    ∃ t', Yields (Performs proc faulty) (.ok ()) d t' d t (walkComponents current parent).run := by
  induction parent generalizing current t with
  | nil => exact ⟨t, rfl, rfl, rfl⟩
  | cons component rest ih =>
      cases component with
      | rootDir => exact ih h t
      | curDir => exact ih h t
      | parentDir => exact h.elim
      | normal segment =>
          obtain ⟨i, hi, hkind⟩ := stat_isDirectory h.1
          obtain ⟨t', hrest⟩ := ih h.2 (t ++ [⟨⟨.prepare,
            .symlinkMetadata (absolute (current ++ [segment]))⟩, .ok (d.stat i)⟩])
          refine ⟨t', yields_call (answers_symlinkMetadata hi) ?_⟩
          apply Yields.bind_throwIf (by simp [hkind])
          exact Yields.bind_throwIf (by simp [hkind]) hrest

theorem yields_rejectParentLinks (proc : Process) (faulty : Call Site → IoError → Prop)
    {parent : PathBuf}
    (hcwd : parent.head? = some .rootDir ∨ d.IsDirectory proc.cwd)
    (h : Plain d (startOf proc.cwd parent) parent) (t : List (Event (Call Site) Reply)) :
    ∃ t', Yields (Performs proc faulty) (.ok ()) d t' d t (rejectParentLinks parent).run := by
  unfold rejectParentLinks
  unfold startOf at h
  by_cases hroot : parent.head? = some .rootDir
  · rw [if_pos hroot] at h ⊢
    exact yields_walkComponents proc faulty h t
  · rw [if_neg hroot] at h ⊢
    have hdir := hcwd.resolve_left hroot
    obtain ⟨t', hrest⟩ := yields_walkComponents proc faulty h
      (t ++ [⟨⟨.prepare, .currentDir⟩, .ok proc.cwd⟩])
    exact ⟨t', yields_call ⟨rfl, by rw [if_pos hdir]⟩ hrest⟩

theorem yields_pinParent (proc : Process) (faulty : Call Site → IoError → Prop) {parent : Place}
    {i : Nat} (hi : d.entry parent = some i) (hkind : (d.stat i).kind = .directory)
    (t : List (Event (Call Site) Reply)) :
    Yields (Performs proc faulty) (.ok (d.stat i)) d
      (t ++ [⟨⟨.prepare, .symlinkMetadata (absolute parent)⟩, .ok (d.stat i)⟩]) d t
      (pinParent parent).run := by
  apply yields_call (answers_symlinkMetadata hi)
  apply Yields.bind_throwIf (by simp [hkind])
  exact Yields.bind_throwIf (by simp [hkind]) ⟨rfl, rfl, rfl⟩

theorem yields_checkTarget (proc : Process) (faulty : Call Site → IoError → Prop) (site : Site)
    {parent : Place} {name : Name} (hdir : d.IsDirectory parent)
    (h : Writable d (parent ++ [name]) force) (t : List (Event (Call Site) Reply)) :
    ∃ t', Yields (Performs proc faulty) (.ok ()) d t' d t
      (checkTarget site (parent ++ [name]) force).run := by
  rcases h with hnone | ⟨hforce, i, hi, hkind⟩
  · have hanswer : Answers proc d (.symlinkMetadata (absolute (parent ++ [name])))
        (.error .notFound) d := by
      refine ⟨rfl, ?_⟩
      rw [inodeAt_missing hdir hnone]
      rfl
    exact ⟨_, yields_request hanswer ⟨rfl, rfl, rfl⟩⟩
  · refine ⟨t ++ [⟨⟨site, .symlinkMetadata (absolute (parent ++ [name]))⟩, .ok (d.stat i)⟩],
      yields_request (answers_symlinkMetadata hi) ?_⟩
    apply Yields.bind_throwIf (by simp [Disk.stat, hkind])
    apply Yields.bind_throwIf (by simp [Disk.stat, hkind])
    rw [hforce]
    exact ⟨rfl, rfl, rfl⟩

/-- Behind the checks the run fails to create its temporary file, and removes what stands
there. -/
theorem yields_publish (proc : Process) (faulty : Call Site → IoError → Prop) (bytes : Bytes)
    (force : Bool) {parent : Place} {other : Name} (target : Place) (pinned : Metadata)
    (hdir : d.IsDirectory parent) (h : Occupied d (parent ++ [other]))
    (t : List (Event (Call Site) Reply)) :
    ∃ d' t', d'.entry (parent ++ [other]) = none ∧
      Yields (Performs proc faulty) (.error .io) d' t' d t
        (publish parent target (parent ++ [other]) pinned bytes force).run := by
  obtain ⟨hsome, hfile⟩ := h
  obtain ⟨j, hj⟩ := Option.ne_none_iff_exists'.mp hsome
  obtain ⟨d', hd'⟩ := Disk.removeFile_ok hj hfile
  obtain ⟨_, _, _, _, hentry, _⟩ := Disk.removeFile_eq_ok hd'
  have hcreate : Answers proc d (.createNew (absolute (parent ++ [other])) privateMode)
      (.error .alreadyExists) d := by
    show Changes d _ _ _
    simp only [Disk.locate_place hdir, bind, Except.bind, Disk.createNew, dif_neg hsome]
    exact ⟨rfl, rfl⟩
  have hremove : Answers proc d (.removeFile (absolute (parent ++ [other]))) (.ok ()) d' := by
    show Changes d _ _ _
    simp only [Disk.locate_place hdir, bind, Except.bind, hd']
    exact ⟨rfl, rfl⟩
  have hstage : Yields (Performs proc faulty) (.error .io) d
      (t ++ [⟨⟨.stage, .createNew (absolute (parent ++ [other])) privateMode⟩,
        .error .alreadyExists⟩]) d t
      (stageAndCommit parent target (parent ++ [other]) pinned bytes force).run :=
    ⟨.error .alreadyExists, d, .inl hcreate, rfl, rfl, rfl⟩
  have hdrop : ∀ t, Yields (Performs proc faulty) (.ok ()) d'
      (t ++ [⟨⟨.cleanup, .removeFile (absolute (parent ++ [other]))⟩, .ok ()⟩]) d t
      (dropGuard (parent ++ [other])).run :=
    fun t => yields_request hremove ⟨rfl, rfl, rfl⟩
  exact ⟨d', _, by rw [hentry, Function.update_self],
    Yields.bind_error (Yields.onError_error hstage (hdrop _))⟩

/-- Where the checks pass, some run arrives behind them with the disk as found. -/
theorem goes_checks (proc : Process) (faulty : Call Site → IoError → Prop) (pid sequence : Nat)
    (bytes : Bytes) {target : Place} (haccepts : Accepts d₀ proc.cwd path force)
    (hlocate : d₀.locate proc.cwd path = .ok target) :
    ∃ parent name i t, target = parent ++ [name] ∧ d₀.IsDirectory parent ∧
      d₀.entry parent = some i ∧ Writable d₀ (parent ++ [name]) force ∧
      Goes (Performs proc faulty) d₀ t (publish parent (parent ++ [name])
          (parent ++ [temporaryName name pid sequence]) (d₀.stat i) bytes force).run d₀ []
        (writeAtomic pid sequence path bytes force).run := by
  obtain ⟨⟨name, hname⟩, hrelative, hplain, target', hlocate', hwritable⟩ := haccepts
  obtain rfl := Except.ok.inj (hlocate.symm.trans hlocate')
  obtain ⟨parent, name', hlast, hlookup, hdir, rfl⟩ := locate_eq_ok hlocate
  have hlast' := getLast?_of_validatedFileName hname
  obtain rfl : name = name' := by
    rw [hlast', Option.some.injEq, Component.normal.injEq] at hlast
    exact hlast
  rw [if_neg hrelative] at hlookup
  obtain ⟨i, hi, hkind⟩ := stat_isDirectory hdir
  obtain ⟨t₁, hreject⟩ := yields_rejectParentLinks proc faulty
    (Disk.cwd_of_lookup hlookup) hplain []
  have hcanonical : Answers proc d₀ (.canonicalize path.dropLast) (.ok parent) d₀ :=
    ⟨rfl, hlookup.symm⟩
  obtain ⟨t₂, hcheck⟩ := yields_checkTarget proc faulty .prepare
    hdir hwritable (t₁ ++ [⟨⟨.prepare, .canonicalize path.dropLast⟩, .ok parent⟩] ++
      [⟨⟨.prepare, .symlinkMetadata (absolute parent)⟩, .ok (d₀.stat i)⟩])
  have hparent : (pathParent path).getD [.curDir] = path.dropLast := by
    rw [pathParent, hlast]
    rfl
  have hvalid : Yields (Performs proc faulty) (.ok name) d₀ [] d₀ []
      (Fallible.ofExcept (validatedFileName path) : Output Name).run := ⟨hname, rfl, rfl⟩
  refine ⟨parent, name, i, t₂, rfl, hdir, hi, hwritable, Goes.bind hvalid ?_⟩
  rw [hparent]
  apply Goes.bind hreject
  apply Goes.call (.inl hcanonical)
  apply Goes.bind (yields_pinParent proc faulty hi hkind _)
  exact Goes.bind hcheck .refl

/-- Where the checks pass, some run takes away what stands at its temporary place. -/
theorem exists_removed (proc : Process) (faulty : Call Site → IoError → Prop) (bytes : Bytes)
    {target : Place} (haccepts : Accepts d₀ proc.cwd path force)
    (hlocate : d₀.locate proc.cwd path = .ok target)
    (htaken : Occupied d₀ (temporaryOf pid sequence target)) :
    ∃ d' t', d'.entry (temporaryOf pid sequence target) = none ∧
      Yields (Performs proc faulty) (.error .io) d' t' d₀ []
        (writeAtomic pid sequence path bytes force).run := by
  obtain ⟨parent, name, i, t, rfl, hdir, _, _, hchecks⟩ :=
    goes_checks proc faulty pid sequence bytes haccepts hlocate
  rw [temporaryOf_concat] at htaken ⊢
  obtain ⟨d', t', hnone, hpublish⟩ := yields_publish proc faulty bytes force
    (parent ++ [name]) (d₀.stat i) hdir htaken t
  exact ⟨d', t', hnone, hchecks.yields hpublish⟩

/-- Alone, every run spares what it found exactly when none meets a foreign file at its temporary
place. -/
theorem alone_spares_iff (htruthful : Truthful faulty) :
    (∀ σ, Reaches (Performs proc faulty)
        (Config.start d₀ fun _ : Unit => (writeAtomic pid sequence path bytes force).run) σ →
      Spares proc.cwd path d₀ σ.state) ↔
      (Accepts d₀ proc.cwd path force → ∀ target, d₀.locate proc.cwd path = .ok target →
        ¬ Occupied d₀ (temporaryOf pid sequence target)) := by
  constructor
  · intro hspares haccepts target hlocate htaken
    obtain ⟨j, hj⟩ := Option.ne_none_iff_exists'.mp htaken.1
    obtain ⟨d', t', hnone, hyields⟩ := exists_removed proc faulty bytes haccepts hlocate htaken
    have hother : d₀.locate proc.cwd path ≠ .ok (temporaryOf pid sequence target) := by
      intro hsame
      have hne := Except.ok.inj (hlocate.symm.trans hsame)
      obtain ⟨parent, name, _, _, _, rfl⟩ := locate_eq_ok hlocate
      rw [temporaryOf_concat] at hne
      exact child_ne (temporaryName_ne pid sequence) hne
    have hstill := (hspares _ hyields.reaches _ j hother hj).1
    rw [show d'.entry _ = none from hnone] at hstill
    cases hstill
  · exact fun hfree σ hreaches => spares_of_free htruthful hfree hreaches

end

/-! ## A leftover at the temporary place -/

def neverFails (_ : Call Site) (_ : IoError) : Prop := False

theorem neverFails_truthful : Truthful neverFails := fun _ h => h

def leftover : Name := temporaryName (Text.bytes "t") 7 1

def takenEntries : List (Place × Inode) :=
  [([], rootInode), ([leftover], ⟨.file (Text.bytes "other"), 0, 0o600, 1, 0, 0⟩)]

theorem takenEntries_rooted : Rooted takenEntries := by decide

/-- Another run has left its temporary file. -/
def takenDisk : Disk := .ofList takenEntries takenEntries_rooted

theorem takenDisk_played :
    (play (fun d c => d.answer rootProcess [] c.op) takenDisk [] bareWrite.run).map
      (fun run => (run.1, run.2.1.entry [leftover])) = some (.error .io, none) := by
  decide

/-- The failed write of `/t` has removed the file of the other run. -/
theorem writeAtomic_removes_leftover :
    ∃ σ, Reaches (Performs rootProcess neverFails)
        (Config.start takenDisk fun _ : Unit => bareWrite.run) σ ∧
      σ.thread () = .running (.done (.error .io)) ∧
      ¬ Spares rootProcess.cwd barePath takenDisk σ.state := by
  obtain ⟨⟨result, d, t⟩, hplay, hend⟩ := Option.map_eq_some_iff.mp takenDisk_played
  obtain ⟨rfl, hentry⟩ := Prod.mk.inj hend
  have hyields := play_yields
    (fun d c r d' h => (.inl (Disk.answers_answer h) : Performs rootProcess neverFails d c r d'))
    hplay
  refine ⟨_, hyields.reaches, rfl, ?_⟩
  intro hspares
  have hother : takenDisk.locate rootProcess.cwd barePath ≠ .ok [leftover] := by decide
  have hfound : takenDisk.entry [leftover] = some 1 := by decide
  have hstill := (hspares [leftover] 1 hother hfound).1
  rw [show d.entry [leftover] = none from hentry] at hstill
  cases hstill

end Invokrum.Cli
