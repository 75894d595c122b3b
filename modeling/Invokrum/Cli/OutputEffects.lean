import Invokrum.Cli.OutputDiscipline

/-!
# What disciplined writes do to a disk

Several writes run on one file system, call by call. A directory found stays
one, and nothing but a file created here appears, so that the checks of every
write see the disk as found. As long as the temporary places are apart, what
stands at one of them was created by its writer.
-/

namespace Invokrum.Cli

open Programs Invokrum.Inodes
open Text (Bytes)

/-! ## Paths through directories -/

/-- The names of a path. -/
def namesOf : PathBuf → Place
  | [] => []
  | .normal name :: rest => name :: namesOf rest
  | _ :: rest => namesOf rest

section

variable {d : Disk} {path : PathBuf} {current cwd : Place} {follow : Bool}
  {link : Place → PathBuf → Except IoError Place}

/-- Where a path through directories ends is a directory. -/
theorem Plain.isDirectory (h : Plain d current path) (hne : namesOf path ≠ []) :
    d.IsDirectory (current ++ namesOf path) := by
  induction path generalizing current with
  | nil => exact absurd rfl hne
  | cons component rest ih =>
      cases component with
      | rootDir => exact ih h hne
      | curDir => exact ih h hne
      | parentDir => exact h.elim
      | normal name =>
          rw [namesOf, ← List.singleton_append, ← List.append_assoc]
          by_cases hrest : namesOf rest = []
          · rw [hrest, List.append_nil]
            exact h.1
          · exact ih h.2 hrest

theorem Plain.walk (h : Plain d current path) (hroot : Component.rootDir ∉ path) :
    d.walk follow link current path =
      if d.entry (current ++ namesOf path) = none then .error .notFound
      else .ok (current ++ namesOf path) := by
  induction path generalizing current with
  | nil => rw [Disk.walk, namesOf, List.append_nil]
  | cons component rest ih =>
      rw [List.mem_cons, not_or] at hroot
      cases component with
      | rootDir => exact absurd rfl hroot.1
      | curDir => exact ih h hroot.2
      | parentDir => exact h.elim
      | normal name =>
          obtain ⟨i, hi, hcontent⟩ := h.1
          have hcurrent : d.IsDirectory current := d.closed current name (by rw [hi]; simp)
          rw [Disk.walk_cons_normal hcurrent hi (by simp [hcontent, Content.kind]), ih h.2 hroot.2,
            namesOf, List.append_assoc, List.singleton_append]

/-- Without links on its way a path is looked up name by name. -/
theorem Plain.lookup (h : Plain d (startOf cwd path) path) (hroot : Component.rootDir ∉ path.tail)
    (hne : path ≠ []) (hcwd : path.head? = some .rootDir ∨ d.IsDirectory cwd) :
    d.lookup cwd true path =
      if d.entry (startOf cwd path ++ namesOf path) = none then .error .notFound
      else .ok (startOf cwd path ++ namesOf path) := by
  obtain ⟨link, hlink⟩ := Disk.resolve_eq_walk d true Disk.maxLinks
  rw [Disk.lookup, if_neg hne, if_pos hcwd, hlink]
  cases path with
  | nil => exact absurd rfl hne
  | cons component rest =>
      by_cases hhead : component = .rootDir
      · subst hhead
        have hrest : Plain d [] rest := h
        exact hrest.walk hroot
      · have hstart : startOf cwd (component :: rest) = cwd := if_neg (by simpa using hhead)
        rw [hstart] at h ⊢
        apply h.walk
        rw [List.mem_cons, not_or]
        exact ⟨fun heq => hhead heq.symm, hroot⟩

theorem Plain.congr {d' : Disk} (hdir : ∀ p, d.IsDirectory p → d'.IsDirectory p)
    (h : Plain d current path) : Plain d' current path := by
  induction path generalizing current with
  | nil => trivial
  | cons component rest ih =>
      cases component with
      | rootDir => exact ih h
      | curDir => exact ih h
      | parentDir => exact h.elim
      | normal name => exact ⟨hdir _ h.1, ih h.2⟩

end

/-! ## Writers -/

namespace Writer

/-- The mode of the file that the writer creates. -/
def stagedMode (w : Writer) : Nat := privateMode - (privateMode &&& w.proc.umask)

/-- The checks of the writer pass on the disk, with this target. -/
structure Passes (w : Writer) (d : Disk) (target : Place) : Prop where
  accepts : Accepts d w.proc.cwd w.path w.force
  located : d.locate w.proc.cwd w.path = .ok target

/-- Besides, its temporary place is free, and its file will be private. -/
structure Commits (w : Writer) (d : Disk) (target : Place) : Prop where
  passes : w.Passes d target
  free : d.entry (w.temporary target) = none
  mode : w.stagedMode &&& 0o777 = privateMode

variable {w : Writer} {d : Disk} {target : Place}

theorem Passes.unique {other : Place} (h : w.Passes d target) (hother : w.Passes d other) :
    target = other :=
  Except.ok.inj (h.located.symm.trans hother.located)

theorem Passes.parent (h : w.Passes d target) : ∃ parent name, d.IsDirectory parent ∧
    target = parent ++ [name] ∧
      w.temporary target = parent ++ [temporaryName name w.pid w.sequence] := by
  obtain ⟨parent, name, _, _, hdir, rfl⟩ := locate_eq_ok h.located
  exact ⟨parent, name, hdir, rfl, temporaryOf_concat w.pid w.sequence parent name⟩

theorem Passes.temporary_ne (h : w.Passes d target) : target ≠ w.temporary target := by
  obtain ⟨parent, name, _, rfl, htemporary⟩ := h.parent
  rw [htemporary]
  exact child_ne (temporaryName_ne w.pid w.sequence)

theorem Passes.writable (h : w.Passes d target) : Writable d target w.force := by
  obtain ⟨other, hlocated, hwritable⟩ := h.accepts.target
  obtain rfl := Except.ok.inj (h.located.symm.trans hlocated)
  exact hwritable

end Writer

variable {ι : Type}

/-- No temporary place is taken, nor shared, nor a target of another write. -/
structure Apart (w : ι → Writer) (d : Disk) : Prop where
  free : ∀ i p, (w i).Passes d p → ¬ Occupied d ((w i).temporary p)
  temporary : ∀ i j p q, i ≠ j → (w i).Passes d p → d.entry ((w i).temporary p) = none →
    (w j).Passes d q → (w j).temporary q ≠ (w i).temporary p
  target : ∀ i j p q, i ≠ j → (w i).Passes d p → d.entry ((w i).temporary p) = none →
    (w j).Commits d q → q ≠ (w i).temporary p

/-! ## What writers make of a disk -/

/-- The inodes that a writer has created. -/
abbrev Owners (ι : Type) : Type := ι → Nat → Prop

/-- What has become of the disk `d₀` when the writers have created the inodes of `own`. -/
structure Good (w : ι → Writer) (d₀ : Disk) (own : Owners ι) (d : Disk) : Prop where
  next : d₀.next ≤ d.next
  content : ∀ k, k < d₀.next → (d.inode k).content = (d₀.inode k).content
  created : ∀ i k, own i k → d₀.next ≤ k ∧ k < d.next ∧ (d.inode k).content.kind = .file ∧
    (d.inode k).mode = (w i).stagedMode ∧
      ∃ p, (w i).Passes d₀ p ∧ d₀.entry ((w i).temporary p) = none
  distinct : ∀ i j k, own i k → own j k → i = j
  origin : ∀ q k, d.entry q = some k → d₀.entry q = some k ∨ ∃ i, own i k
  kept : ∀ q k, d₀.entry q = some k →
    ∃ k', d.entry q = some k' ∧ (d.inode k').content.kind = (d₀.inode k).content.kind
  held : ∀ i p, (w i).Passes d₀ p → ∀ k, d.entry ((w i).temporary p) = some k →
    own i k ∨ d₀.IsDirectory ((w i).temporary p)

variable {w : ι → Writer} {d₀ d d' : Disk} {own : Owners ι} {i j : ι} {k : Nat} {p q : Place}

theorem good_start (hapart : Apart w d₀) : Good w d₀ (fun _ _ => False) d₀ where
  next := Nat.le_refl _
  content _ _ := rfl
  created _ _ h := h.elim
  distinct _ _ _ h := h.elim
  origin _ _ h := .inl h
  kept q k h := ⟨k, h, rfl⟩
  held i p hpasses k hk := by
    by_contra hnot
    rw [not_or] at hnot
    exact hapart.free i p hpasses ⟨by simp [hk], hnot.2⟩

namespace Good

theorem isDirectory (h : Good w d₀ own d) : d.IsDirectory q ↔ d₀.IsDirectory q := by
  constructor
  · intro hdir
    obtain ⟨k, hk, hcontent⟩ := hdir
    rcases h.origin q k hk with hold | ⟨i, hown⟩
    · exact ⟨k, hold, by rw [← h.content k (d₀.fresh q k hold), hcontent]⟩
    · have hkind := (h.created i k hown).2.2.1
      rw [hcontent] at hkind
      cases hkind
  · intro hdir
    obtain ⟨k, hk, hcontent⟩ := hdir
    obtain ⟨k', hk', hkind⟩ := h.kept q k hk
    refine ⟨k', hk', ?_⟩
    rw [hcontent] at hkind
    cases hnew : (d.inode k').content <;> simp [hnew, Content.kind] at hkind ⊢

theorem absent (h : Good w d₀ own d) (hnone : d.entry q = none) : d₀.entry q = none := by
  by_contra hsome
  obtain ⟨k, hk⟩ := Option.ne_none_iff_exists'.mp hsome
  obtain ⟨k', hk', _⟩ := h.kept q k hk
  rw [hnone] at hk'
  cases hk'

/-- Where something is created, nothing was found. -/
theorem free_of_own (h : Good w d₀ own d) (hpasses : (w i).Passes d₀ p) (hown : own i k) :
    d₀.entry ((w i).temporary p) = none := by
  obtain ⟨_, _, _, _, p', hpasses', hnone⟩ := h.created i k hown
  rwa [hpasses.unique hpasses']

/-- A file that stands at a temporary place was created by its writer. -/
theorem own_of_file (h : Good w d₀ own d) (hpasses : (w i).Passes d₀ p)
    (hk : d.entry ((w i).temporary p) = some k)
    (hfile : ¬ d.IsDirectory ((w i).temporary p)) : own i k := by
  rcases h.held i p hpasses k hk with hown | hdir
  · exact hown
  · exact absurd (h.isDirectory.mpr hdir) hfile

/-! ## Steps -/

/-- Entries move among the files that stand. -/
theorem moved (h : Good w d₀ own d) (hsame : SameFiles d d')
    (horigin : ∀ q k, d'.entry q = some k → d.entry q = some k ∨ ∃ i, own i k)
    (hkept : ∀ q k, d₀.entry q = some k → d'.entry q = d.entry q ∨
      ∃ k', d'.entry q = some k' ∧ (d.inode k').content.kind = (d₀.inode k).content.kind)
    (hheld : ∀ i p, (w i).Passes d₀ p → ∀ k, d'.entry ((w i).temporary p) = some k →
      d.entry ((w i).temporary p) = some k ∨ own i k ∨
        d₀.IsDirectory ((w i).temporary p)) : Good w d₀ own d' where
  next := by rw [hsame.next]; exact h.next
  content k hk := by rw [hsame.content, h.content k hk]
  created i k hown := by
    rw [hsame.next, hsame.content, hsame.mode]
    exact h.created i k hown
  distinct := h.distinct
  origin q k hk := by
    rcases horigin q k hk with hold | hown
    · exact h.origin q k hold
    · exact .inr hown
  kept q k hk := by
    rcases hkept q k hk with hsameEntry | ⟨k', hk', hkind⟩
    · obtain ⟨k', hk', hkind⟩ := h.kept q k hk
      exact ⟨k', by rw [hsameEntry, hk'], by rw [hsame.content, hkind]⟩
    · exact ⟨k', hk', by rw [hsame.content, hkind]⟩
  held i p hpasses k hk := by
    rcases hheld i p hpasses k hk with hold | hown
    · exact h.held i p hpasses k hold
    · exact hown

/-- An entry disappears where nothing was found. -/
theorem removed (h : Good w d₀ own d) (hnone : d₀.entry q = none)
    (hremove : d.removeFile q = .ok d') : Good w d₀ own d' := by
  obtain ⟨_, _, _, _, hentry, _⟩ := Disk.removeFile_eq_ok hremove
  have hstays : ∀ q' k, d'.entry q' = some k → d.entry q' = some k := by
    intro q' k hk
    rw [hentry] at hk
    by_cases hq : q' = q
    · subst hq
      rw [Function.update_self] at hk
      cases hk
    · rwa [Function.update_of_ne hq] at hk
  apply h.moved (sameFiles_removeFile hremove)
  · exact fun q' k hk => .inl (hstays q' k hk)
  · intro q' k hk
    have hq : q' ≠ q := by
      intro heq
      subst heq
      rw [hnone] at hk
      cases hk
    exact .inl (by rw [hentry, Function.update_of_ne hq])
  · exact fun i p _ k hk => .inl (hstays _ k hk)

/-- The target of a write gets the file that the write has created. -/
theorem placed (h : Good w d₀ own d) (hapart : Apart w d₀) (hcommits : (w i).Commits d₀ p)
    (hown : own i k) (hsame : SameFiles d d') (htarget : d'.entry p = some k)
    (htemporary : d'.entry ((w i).temporary p) = d.entry ((w i).temporary p) ∨
      d'.entry ((w i).temporary p) = none)
    (hother : ∀ q, q ≠ p → q ≠ (w i).temporary p → d'.entry q = d.entry q) :
    Good w d₀ own d' := by
  apply h.moved hsame
  · intro q k' hk'
    by_cases hq : q = p
    · subst hq
      rw [htarget] at hk'
      cases hk'
      exact .inr ⟨i, hown⟩
    · by_cases hq' : q = (w i).temporary p
      · subst hq'
        rcases htemporary with hsameEntry | hnone
        · exact .inl (by rw [← hsameEntry, hk'])
        · rw [hnone] at hk'
          cases hk'
      · exact .inl (by rw [← hother q hq hq', hk'])
  · intro q k' hk'
    by_cases hq : q = p
    · subst hq
      refine .inr ⟨k, htarget, ?_⟩
      rcases hcommits.passes.writable with hnone | ⟨_, j, hj, hkind⟩
      · rw [hnone] at hk'
        cases hk'
      · rw [hj] at hk'
        cases hk'
        rw [hkind]
        exact (h.created i k hown).2.2.1
    · have hq' : q ≠ (w i).temporary p := by
        intro heq
        subst heq
        rw [hcommits.free] at hk'
        cases hk'
      exact .inl (hother q hq hq')
  · intro j q hpasses k' hk'
    by_cases hj : j = i
    · subst hj
      obtain rfl := hpasses.unique hcommits.passes
      rcases htemporary with hsameEntry | hnone
      · exact .inl (by rw [← hsameEntry, hk'])
      · rw [hnone] at hk'
        cases hk'
    · by_cases hfree : d₀.entry ((w j).temporary q) = none
      · have htarget' := hapart.target j i q p hj hpasses hfree hcommits
        have htemporary' := hapart.temporary j i q p hj hpasses hfree hcommits.passes
        exact .inl (by rw [← hother _ htarget'.symm htemporary'.symm, hk'])
      · have hdir : d₀.IsDirectory ((w j).temporary q) := by
          by_contra hnot
          exact hapart.free j q hpasses ⟨hfree, hnot⟩
        exact .inr (.inr hdir)

/-- A created file is written. -/
theorem wrote (h : Good w d₀ own d) (hown : own i k) (f : Bytes → Bytes) :
    Good w d₀ own (d.rewrite k f) := by
  have hinode : (d.rewrite k f).inode = Function.update d.inode k (Inode.rewrite f (d.inode k)) :=
    rfl
  have hkind : ∀ j, ((d.rewrite k f).inode j).content.kind = (d.inode j).content.kind ∧
      ((d.rewrite k f).inode j).mode = (d.inode j).mode := by
    intro j
    rw [hinode]
    by_cases hj : j = k
    · subst hj
      rw [Function.update_self]
      exact ⟨Inode.rewrite_kind f _, rewrite_mode f _⟩
    · rw [Function.update_of_ne hj]
      exact ⟨rfl, rfl⟩
  refine ⟨h.next, ?_, ?_, h.distinct, h.origin, ?_, h.held⟩
  · intro j hj
    have hne : j ≠ k := Nat.ne_of_lt (Nat.lt_of_lt_of_le hj (h.created i k hown).1)
    rw [hinode, Function.update_of_ne hne, h.content j hj]
  · intro i' j hown'
    rw [(hkind j).1, (hkind j).2]
    exact h.created i' j hown'
  · intro q j hj
    obtain ⟨k', hk', hsame⟩ := h.kept q j hj
    exact ⟨k', hk', by rw [(hkind k').1, hsame]⟩

end Good

variable [DecidableEq ι]

theorem owns_created {n : Nat} :
    Function.update own i (fun m => own i m ∨ m = n) j k ↔ own j k ∨ j = i ∧ k = n := by
  by_cases hj : j = i
  · subst hj
    rw [Function.update_self]
    simp
  · rw [Function.update_of_ne hj]
    simp [hj]

/-- The temporary file of a write appears. -/
theorem Good.create (h : Good w d₀ own d) (hapart : Apart w d₀) (hpasses : (w i).Passes d₀ p)
    {device : Nat} (hcreate : d.createNew ((w i).temporary p) (newFile (w i).stagedMode device) =
      .ok (k, d')) :
    Good w d₀ (Function.update own i fun j => own i j ∨ j = k) d' := by
  obtain ⟨rfl, hnone, _, hnext, hentry, hinode⟩ := Disk.createNew_eq_ok hcreate
  have hfree := h.absent hnone
  have hold : ∀ j, j < d.next → d'.inode j = d.inode j := by
    intro j hj
    rw [hinode, Function.update_of_ne (Nat.ne_of_lt hj)]
  constructor
  · rw [hnext]
    exact Nat.le_succ_of_le h.next
  · intro j hj
    rw [hold j (Nat.lt_of_lt_of_le hj h.next), h.content j hj]
  · intro j k hown
    rcases owns_created.mp hown with hown | ⟨rfl, rfl⟩
    · obtain ⟨hlow, hhigh, hrest⟩ := h.created j k hown
      rw [hold k hhigh, hnext]
      exact ⟨hlow, Nat.lt_succ_of_lt hhigh, hrest⟩
    · rw [hinode, Function.update_self, hnext]
      exact ⟨h.next, Nat.lt_succ_self _, rfl, rfl, p, hpasses, hfree⟩
  · intro j j' k hown hown'
    rcases owns_created.mp hown with hj | ⟨hj, hk⟩
    · rcases owns_created.mp hown' with hj' | ⟨_, hk'⟩
      · exact h.distinct j j' k hj hj'
      · exact absurd (h.created j k hj).2.1 (hk' ▸ Nat.lt_irrefl _)
    · rcases owns_created.mp hown' with hj' | ⟨hj', _⟩
      · exact absurd (h.created j' k hj').2.1 (hk ▸ Nat.lt_irrefl _)
      · rw [hj, hj']
  · intro q k hk
    rw [hentry] at hk
    by_cases hq : q = (w i).temporary p
    · subst hq
      rw [Function.update_self, Option.some.injEq] at hk
      exact .inr ⟨i, owns_created.mpr (.inr ⟨rfl, hk.symm⟩)⟩
    · rw [Function.update_of_ne hq] at hk
      exact (h.origin q k hk).imp_right fun ⟨j, hown⟩ => ⟨j, owns_created.mpr (.inl hown)⟩
  · intro q k hk
    obtain ⟨k', hk', hkind⟩ := h.kept q k hk
    have hq : q ≠ (w i).temporary p := by
      intro heq
      subst heq
      rw [hnone] at hk'
      cases hk'
    exact ⟨k', by rw [hentry, Function.update_of_ne hq, hk'],
      by rw [hold k' (d.fresh q k' hk'), hkind]⟩
  · intro j q hpasses' k hk
    by_cases hj : j = i
    · subst hj
      obtain rfl := hpasses'.unique hpasses
      rw [hentry, Function.update_self, Option.some.injEq] at hk
      exact .inl (owns_created.mpr (.inr ⟨rfl, hk.symm⟩))
    · have hne := hapart.temporary i j p q (Ne.symm hj) hpasses hfree hpasses'
      rw [hentry, Function.update_of_ne hne] at hk
      exact (h.held j q hpasses' k hk).imp_left fun hown => owns_created.mpr (.inl hown)

/-! ## What a call can do -/

/-- What a call of a disciplined write does to the disk, and which inodes are its own then. -/
inductive Effect (w : Writer) (d₀ : Disk) (own : Nat → Prop) (d : Disk) :
    (Nat → Prop) → Disk → Prop where
  | quiet : Effect w d₀ own d own d
  | wrote {k : Nat} (hown : own k) (f : Bytes → Bytes) : Effect w d₀ own d own (d.rewrite k f)
  | created {target : Place} {device k : Nat} {d' : Disk} (hpasses : w.Passes d₀ target)
      (h : d.createNew (w.temporary target) (newFile w.stagedMode device) = .ok (k, d')) :
      Effect w d₀ own d (fun j => own j ∨ j = k) d'
  | renamed {target : Place} {d' : Disk} (hcommits : w.Commits d₀ target)
      (h : d.rename (w.temporary target) target = .ok d') : Effect w d₀ own d own d'
  | linked {target : Place} {d' : Disk} (hcommits : w.Commits d₀ target)
      (h : d.hardLink (w.temporary target) target = .ok d') : Effect w d₀ own d own d'
  | cleared {target : Place} {d' : Disk} (hpasses : w.Passes d₀ target)
      (h : d.removeFile (w.temporary target) = .ok d') : Effect w d₀ own d own d'
  | unlinked {target : Place} {d' : Disk} (hcommits : w.Commits d₀ target)
      (hnone : d₀.entry target = none) (h : d.removeFile target = .ok d') :
      Effect w d₀ own d own d'

omit [DecidableEq ι] in
/-- The temporary place of a write that commits holds nothing or its own file. -/
theorem Good.temporary_file (h : Good w d₀ own d) (hcommits : (w i).Commits d₀ p) :
    ¬ d.IsDirectory ((w i).temporary p) := by
  rw [h.isDirectory]
  intro hdir
  exact hdir.entry_ne_none hcommits.free

omit [DecidableEq ι] in
/-- A rename that does something. -/
theorem Good.rename (h : Good w d₀ own d) (hcommits : (w i).Commits d₀ p)
    (hrename : d.rename ((w i).temporary p) p = .ok d') :
    d' = d ∨ ∃ k, own i k ∧ d.entry ((w i).temporary p) = some k ∧
      d'.entry = Function.update (Function.update d.entry ((w i).temporary p) none) p (some k) := by
  have hfile := h.temporary_file hcommits
  by_cases hother : d.entry ((w i).temporary p) = d.entry p
  · unfold Disk.rename at hrename
    split_ifs at hrename
    cases hrename
    exact .inl rfl
  · obtain ⟨hsome, _, _, hentry, _⟩ := Disk.rename_eq_ok hfile hother hrename
    obtain ⟨k, hk⟩ := Option.ne_none_iff_exists'.mp hsome
    rw [hk] at hentry
    exact .inr ⟨k, h.own_of_file hcommits.passes hk hfile, hk, hentry⟩

theorem Good.effect (h : Good w d₀ own d) (hapart : Apart w d₀) {own' : Nat → Prop}
    (heffect : Effect (w i) d₀ (own i) d own' d') : Good w d₀ (Function.update own i own') d' := by
  cases heffect with
  | quiet => rwa [Function.update_eq_self]
  | wrote hown f =>
      rw [Function.update_eq_self]
      exact h.wrote hown f
  | created hpasses hcreate => exact h.create hapart hpasses hcreate
  | @renamed target _ hcommits hrename =>
      rw [Function.update_eq_self]
      rcases h.rename hcommits hrename with rfl | ⟨k, hown, _, hentry⟩
      · exact h
      · have hne := hcommits.passes.temporary_ne
        apply h.placed hapart hcommits hown (sameFiles_rename hrename)
        · rw [hentry, Function.update_self]
        · rw [hentry, Function.update_of_ne hne.symm, Function.update_self]
          exact .inr rfl
        · intro q hq hq'
          rw [hentry, Function.update_of_ne hq, Function.update_of_ne hq']
  | @linked target _ hcommits hlink =>
      rw [Function.update_eq_self]
      obtain ⟨k, hk, hfile, _, _, hentry, _⟩ := Disk.hardLink_eq_ok hlink
      have hown := h.own_of_file hcommits.passes hk hfile
      apply h.placed hapart hcommits hown (sameFiles_hardLink hlink)
      · rw [hentry, Function.update_self]
      · rw [hentry, Function.update_of_ne hcommits.passes.temporary_ne.symm]
        exact .inl rfl
      · intro q hq _
        rw [hentry, Function.update_of_ne hq]
  | @cleared target _ hpasses hremove =>
      rw [Function.update_eq_self]
      obtain ⟨k, hk, hfile, _⟩ := Disk.removeFile_eq_ok hremove
      exact h.removed (h.free_of_own hpasses (h.own_of_file hpasses hk hfile)) hremove
  | unlinked _ hnone hremove =>
      rw [Function.update_eq_self]
      exact h.removed hnone hremove

section

omit [DecidableEq ι]

variable {own' : Nat → Prop}

/-- A call changes entries at the temporary place and the target only. -/
theorem Effect.entry (heffect : Effect (w i) d₀ (own i) d own' d') (h : Good w d₀ own d)
    (hk : d.entry q = some k)
    (htemporary : ∀ target, (w i).Passes d₀ target → q = (w i).temporary target →
      d.IsDirectory q)
    (htarget : ∀ target, (w i).Commits d₀ target → q ≠ target) : d'.entry q = some k := by
  cases heffect with
  | quiet => exact hk
  | wrote _ _ => exact hk
  | @created target _ _ _ _ hcreate =>
      obtain ⟨_, hnone, _, _, hentry, _⟩ := Disk.createNew_eq_ok hcreate
      have hq : q ≠ (w i).temporary target := by
        intro heq
        subst heq
        rw [hnone] at hk
        cases hk
      rw [hentry, Function.update_of_ne hq, hk]
  | @renamed target _ hcommits hrename =>
      rcases h.rename hcommits hrename with rfl | ⟨_, _, _, hentry⟩
      · exact hk
      · have hq : q ≠ (w i).temporary target := by
          intro heq
          exact h.temporary_file hcommits (heq ▸ htemporary target hcommits.passes heq)
        rw [hentry, Function.update_of_ne (htarget target hcommits), Function.update_of_ne hq, hk]
  | linked hcommits hlink =>
      obtain ⟨_, _, _, _, _, hentry, _⟩ := Disk.hardLink_eq_ok hlink
      rw [hentry, Function.update_of_ne (htarget _ hcommits), hk]
  | @cleared target _ hpasses hremove =>
      obtain ⟨_, _, hfile, _, hentry, _⟩ := Disk.removeFile_eq_ok hremove
      have hq : q ≠ (w i).temporary target := by
        intro heq
        exact hfile (heq ▸ htemporary target hpasses heq)
      rw [hentry, Function.update_of_ne hq, hk]
  | unlinked hcommits _ hremove =>
      obtain ⟨_, _, _, _, hentry, _⟩ := Disk.removeFile_eq_ok hremove
      rw [hentry, Function.update_of_ne (htarget _ hcommits), hk]

/-- A call changes the content of created files only. -/
theorem Effect.content (heffect : Effect (w i) d₀ (own i) d own' d') (hk : k < d.next)
    (hown : ¬ own i k) : (d'.inode k).content = (d.inode k).content := by
  cases heffect with
  | quiet => rfl
  | @wrote j hj f =>
      have hne : k ≠ j := by
        intro heq
        subst heq
        exact hown hj
      show (Function.update d.inode j _ k).content = _
      rw [Function.update_of_ne hne]
  | created _ hcreate =>
      obtain ⟨_, _, _, _, _, hinode⟩ := Disk.createNew_eq_ok hcreate
      rw [hinode, Function.update_of_ne (Nat.ne_of_lt hk)]
  | renamed _ hrename => exact (sameFiles_rename hrename).content k
  | linked _ hlink => exact (sameFiles_hardLink hlink).content k
  | cleared _ hremove => exact (sameFiles_removeFile hremove).content k
  | unlinked _ _ hremove => exact (sameFiles_removeFile hremove).content k

/-- An entry stays, with its content. -/
def Stays (q : Place) (k : Nat) (d d' : Disk) : Prop :=
  d'.entry q = some k ∧ (d'.inode k).content = (d.inode k).content

/-- What a write has not created, and is not its target, it leaves alone. -/
theorem Effect.others (heffect : Effect (w i) d₀ (own i) d own' d') (h : Good w d₀ own d)
    (hq : d₀.locate (w i).proc.cwd (w i).path ≠ .ok q) (hk : d.entry q = some k)
    (hown : ¬ own i k) : Stays q k d d' := by
  refine ⟨heffect.entry h hk ?_ ?_, heffect.content (d.fresh q k hk) hown⟩
  · intro target hpasses heq
    subst heq
    by_contra hfile
    exact hown (h.own_of_file hpasses hk hfile)
  · intro target hcommits heq
    exact hq (heq ▸ hcommits.passes.located)

/-- What another write has staged it leaves alone. -/
theorem Effect.staged (heffect : Effect (w j) d₀ (own j) d own' d') (h : Good w d₀ own d)
    (hapart : Apart w d₀) (hij : i ≠ j) (hpasses : (w i).Passes d₀ p)
    (hk : d.entry ((w i).temporary p) = some k) (hown : own i k) :
    Stays ((w i).temporary p) k d d' := by
  have hfree := h.free_of_own hpasses hown
  refine ⟨heffect.entry h hk ?_ ?_, heffect.content (d.fresh _ k hk) ?_⟩
  · intro target hpasses' heq
    exact absurd heq.symm (hapart.temporary i j p target hij hpasses hfree hpasses')
  · intro target hcommits heq
    exact hapart.target i j p target hij hpasses hfree hcommits heq.symm
  · exact fun hown' => hij (h.distinct i j k hown hown')

/-! ## What answers tell -/

/-- Nothing was found at the place of the path. -/
def FreeAt (d₀ : Disk) (path : PathBuf) : Prop :=
  ∀ parent name, path = absolute (parent ++ [name]) → d₀.entry (parent ++ [name]) = none

/-- What an answer tells about the disk as found. -/
def Tells (w : Writer) (d₀ : Disk) : (op : Op) → Except IoError op.Value → Prop
  | .currentDir, .ok place => place = w.proc.cwd ∧ d₀.IsDirectory w.proc.cwd
  | .symlinkMetadata path, .ok m =>
      (path = absolute [] → m.kind = .directory → d₀.IsDirectory []) ∧
        ∀ parent name, path = absolute (parent ++ [name]) →
          (parent = [] ∨ d₀.IsDirectory parent → m.kind = .directory →
            d₀.IsDirectory (parent ++ [name])) ∧
          (d₀.IsDirectory parent → m.kind = .file → ∀ k, d₀.entry (parent ++ [name]) = some k →
            (d₀.inode k).content.kind = .file)
  | .symlinkMetadata path, .error .notFound => FreeAt d₀ path
  | .canonicalize path, .ok place =>
      path ≠ [] ∧ (path.head? = some .rootDir ∨ d₀.IsDirectory w.proc.cwd) ∧
        (Plain d₀ (startOf w.proc.cwd path) path → Component.rootDir ∉ path.tail →
          place = startOf w.proc.cwd path ++ namesOf path)
  | .descriptorMetadata _, .ok m => m.mode = w.stagedMode
  | .hardLink _ dst, .ok _ => FreeAt d₀ dst
  | _, _ => True

def Learned (w : Writer) (d₀ : Disk) (t : History) : Prop :=
  ∀ op r, Saw t op r → Tells w d₀ op r

theorem Learned.concat {w : Writer} {t : History} {site : Site} {op : Op}
    {r : Except IoError op.Value} (h : Learned w d₀ t) (htells : Tells w d₀ op r) :
    Learned w d₀ (t ++ [⟨⟨site, op⟩, r⟩]) := by
  intro op' r' hsaw
  obtain ⟨site', hmem⟩ := hsaw
  rcases List.mem_append.mp hmem with hold | hnew
  · exact h op' r' ⟨site', hold⟩
  · cases List.mem_singleton.mp hnew
    exact htells

section

variable {w : Writer} {t : History} {parent : Place} {name : Name}

theorem Learned.started {path : PathBuf} {start : Place} (h : Learned w d₀ t)
    (hstarted : Started t path start) :
    start = startOf w.proc.cwd path ∧ (start = [] ∨ d₀.IsDirectory start) := by
  unfold Started at hstarted
  unfold startOf
  split_ifs at hstarted ⊢
  · exact ⟨hstarted, .inl hstarted⟩
  · obtain ⟨rfl, hdir⟩ : start = w.proc.cwd ∧ d₀.IsDirectory w.proc.cwd := h _ _ hstarted
    exact ⟨rfl, .inr hdir⟩

theorem Learned.plain {path : PathBuf} {current : Place} (h : Learned w d₀ t)
    (hcurrent : current = [] ∨ d₀.IsDirectory current) (hwalked : Walked t current path) :
    Plain d₀ current path := by
  induction path generalizing current with
  | nil => trivial
  | cons component rest ih =>
      cases component with
      | rootDir => exact ih hcurrent hwalked
      | curDir => exact ih hcurrent hwalked
      | parentDir => exact hwalked.elim
      | normal segment =>
          obtain ⟨⟨m, hsaw, hkind⟩, hrest⟩ := hwalked
          have hdir : d₀.IsDirectory (current ++ [segment]) :=
            ((h _ _ hsaw).2 current segment rfl).1 hcurrent hkind
          exact ⟨hdir, ih (.inr hdir) hrest⟩

theorem Learned.writable {force : Bool} (h : Learned w d₀ t) (hdir : d₀.IsDirectory parent)
    (hseen : SeenWritable t (parent ++ [name]) force) : Writable d₀ (parent ++ [name]) force := by
  rcases hseen with hnone | ⟨hforce, m, hsaw, hkind⟩
  · exact .inl (h _ _ hnone parent name rfl)
  · by_cases hentry : d₀.entry (parent ++ [name]) = none
    · exact .inl hentry
    · obtain ⟨k, hk⟩ := Option.ne_none_iff_exists'.mp hentry
      exact .inr ⟨hforce, k, hk, ((h _ _ hsaw).2 parent name rfl).2 hdir hkind k hk⟩

/-- Checks that pass side by side with other writes would pass on the disk as found. -/
theorem Learned.passes (h : Learned w d₀ t) (hchecked : Checked w t parent name) :
    w.Passes d₀ (parent ++ [name]) ∧ d₀.IsDirectory parent := by
  have hlast := getLast?_of_validatedFileName hchecked.valid
  have hroot : Component.rootDir ∉ w.path.dropLast.tail := by
    intro hmem
    rw [List.tail_dropLast] at hmem
    exact w.rooted (List.mem_of_mem_dropLast hmem)
  obtain ⟨start, hstarted, hwalked⟩ := hchecked.walked
  obtain ⟨hstart, hcurrent⟩ := h.started hstarted
  have hplain := h.plain hcurrent hwalked
  rw [hstart] at hplain hcurrent
  obtain ⟨hne, hcwd, hcanonical⟩ := h _ _ hchecked.canonical
  have hparent := hcanonical hplain hroot
  obtain ⟨m, hpinned, hkind⟩ := hchecked.pinned
  have hdir : d₀.IsDirectory parent := by
    by_cases hnames : namesOf w.path.dropLast = []
    · rw [hnames, List.append_nil] at hparent
      rcases hcurrent with hnil | hdir
      · rw [hnil] at hparent
        subst hparent
        exact (h _ _ hpinned).1 rfl hkind
      · rwa [hparent]
    · rw [hparent]
      exact hplain.isDirectory hnames
  have hlookup : d₀.lookup w.proc.cwd true w.path.dropLast = .ok parent := by
    rw [hplain.lookup hroot hne hcwd, ← hparent, if_neg hdir.entry_ne_none]
  have hlocated : d₀.locate w.proc.cwd w.path = .ok (parent ++ [name]) := by
    simp only [Disk.locate, hlast, if_neg hne, hlookup, if_pos hdir]
  exact ⟨⟨⟨⟨name, hchecked.valid⟩, hne, hplain, _, hlocated, h.writable hdir hchecked.writable⟩,
    hlocated⟩, hdir⟩

end

theorem root_of_performs {proc : Process} {faulty : Call Site → IoError → Prop} {site : Site}
    {m : Metadata} (hkind : m.kind = .directory)
    (h : Performs proc faulty d ⟨site, .symlinkMetadata (absolute [])⟩ (.ok m) d') :
    d.IsDirectory [] := by
  have hroot : d.entry [] ≠ none := by
    intro hnone
    obtain ⟨link, hlookup⟩ := Disk.lookup_absolute d proc.cwd [] false
    have hanswer := h.answers.2
    rw [Disk.inodeAt, hlookup, List.map_nil, Disk.walk, if_pos hnone] at hanswer
    cases hanswer
  obtain ⟨k, hk, rfl⟩ := h.symlinkMetadata_place hroot
  refine ⟨k, hk, ?_⟩
  cases hcontent : (d.inode k).content <;> simp [Disk.stat, hcontent, Content.kind] at hkind ⊢

variable {faulty : ι → Call Site → IoError → Prop} {γ : ι → History}

/-- A write that has seen its file to be private, and passes, commits. -/
theorem Good.commits (h : Good w d₀ (fun i => Created (γ i)) d)
    (hlearned : Learned (w i) d₀ (γ i)) (hpasses : (w i).Passes d₀ p)
    (hvalid : Validated (γ i)) : (w i).Commits d₀ p := by
  obtain ⟨n, m, hcreated, hsaw, hmode⟩ := hvalid
  have htold : m.mode = (w i).stagedMode := hlearned _ _ hsaw
  exact ⟨hpasses, h.free_of_own hpasses hcreated, by rw [← htold, hmode]⟩

section

variable {own : Owners ι} {proc : Process} {refuse : Call Site → IoError → Prop} {site : Site}
  {path : PathBuf}

omit [DecidableEq ι] in
theorem Good.directory_of_seen {m : Metadata} (h : Good w d₀ own d) (hkind : m.kind = .directory)
    {parent : Place} {name : Name} (hparent : parent = [] ∨ d₀.IsDirectory parent)
    (hcall : Performs proc refuse d ⟨site, .symlinkMetadata (absolute (parent ++ [name]))⟩ (.ok m)
      d') : d₀.IsDirectory (parent ++ [name]) :=
  h.isDirectory.mp (hcall.isDirectory_child (hparent.imp_right h.isDirectory.mpr) hkind)

omit [DecidableEq ι] in
/-- What is seen as a file was one when it was found. -/
theorem Good.file_of_seen {m : Metadata} (h : Good w d₀ own d) (hkind : m.kind = .file)
    {parent : Place} {name : Name} (hparent : d₀.IsDirectory parent)
    (hcall : Performs proc refuse d ⟨site, .symlinkMetadata (absolute (parent ++ [name]))⟩ (.ok m)
      d') (hk : d₀.entry (parent ++ [name]) = some k) : (d₀.inode k).content.kind = .file := by
  obtain ⟨k', hk', rfl⟩ := hcall.symlinkMetadata_child (h.isDirectory.mpr hparent)
  obtain ⟨k'', hk'', hsame⟩ := h.kept _ k hk
  rw [hk'] at hk''
  cases hk''
  exact hsame.symm.trans hkind

omit [DecidableEq ι] in
theorem Good.tells_canonicalize {w' : Writer} {place : Place} (h : Good w d₀ own d)
    (hcall : Performs w'.proc refuse d ⟨site, .canonicalize path⟩ (.ok place) d') :
    Tells w' d₀ (.canonicalize path) (.ok place) := by
  have hlookup : d.lookup w'.proc.cwd true path = .ok place := hcall.answers.2.symm
  have hne : path ≠ [] := by
    intro heq
    subst heq
    rw [Disk.lookup, if_pos rfl] at hlookup
    cases hlookup
  have hcwd := Disk.cwd_of_lookup hlookup
  refine ⟨hne, hcwd.imp_right h.isDirectory.mp, ?_⟩
  intro hplain hroot
  rw [(hplain.congr fun p hp => h.isDirectory.mpr hp).lookup hroot hne hcwd] at hlookup
  split_ifs at hlookup
  cases hlookup
  rfl

omit [DecidableEq ι] in
theorem Good.tells_currentDir {w' : Writer} {place : Place} (h : Good w d₀ own d)
    (hcall : Performs w'.proc refuse d ⟨site, .currentDir⟩ (.ok place) d') :
    Tells w' d₀ .currentDir (.ok place) := by
  have hanswer := hcall.answers.2
  by_cases hcwd : d.IsDirectory w'.proc.cwd
  · rw [if_pos hcwd] at hanswer
    exact ⟨Except.ok.inj hanswer, h.isDirectory.mp hcwd⟩
  · rw [if_neg hcwd] at hanswer
    cases hanswer

end

/-- Answers tell the truth about the disk as found. -/
theorem Good.tells (h : Good w d₀ (fun i => Created (γ i)) d)
    (hlearned : Learned (w i) d₀ (γ i)) (htruthful : Truthful (faulty i)) {c : Call Site}
    {r : Reply c} (hallowed : (w i).Allowed (γ i) c)
    (hcall : Performs (w i).proc (faulty i) d c r d') : Tells (w i) d₀ c.op r := by
  obtain ⟨site, op⟩ := c
  cases op with
  | currentDir =>
      cases r with
      | ok place => exact h.tells_currentDir hcall
      | error e => trivial
  | symlinkMetadata path =>
      cases r with
      | ok m =>
          refine ⟨?_, ?_⟩
          · intro heq hkind
            subst heq
            exact h.isDirectory.mp (root_of_performs hkind hcall)
          · intro parent name heq
            subst heq
            exact ⟨fun hparent hkind => h.directory_of_seen hkind hparent hcall,
              fun hdir hkind k hk => h.file_of_seen hkind hdir hcall hk⟩
      | error e =>
          cases e with
          | notFound =>
              intro parent name heq
              subst heq
              exact h.absent (hcall.absent_child (htruthful _))
          | _ => trivial
  | canonicalize path =>
      cases r with
      | ok place => exact h.tells_canonicalize hcall
      | error e => trivial
  | descriptorMetadata n =>
      cases r with
      | ok m =>
          obtain ⟨_, rfl⟩ : d' = d ∧ m = d.stat n :=
            ⟨hcall.answers.1, Except.ok.inj hcall.answers.2⟩
          exact (h.created i n hallowed).2.2.2.1
      | error e => trivial
  | hardLink src dst =>
      cases r with
      | ok _ =>
          obtain ⟨parent, name, hchecked, _, rfl, rfl⟩ := hallowed
          have hdir := h.isDirectory.mpr (hlearned.passes hchecked).2
          obtain ⟨_, _, _, hnone, _⟩ := Disk.hardLink_eq_ok (hcall.hardLink_child hdir)
          intro parent' name' heq
          rw [← absolute_injective heq]
          exact h.absent hnone
      | error e => trivial
  | _ => cases r <;> trivial

/-- A writer that has passed its checks finds its places in a directory. -/
theorem Good.directory {parent : Place} {name : Name} (h : Good w d₀ own d)
    (hlearned : Learned (w i) d₀ (γ i)) (hchecked : Checked (w i) (γ i) parent name) :
    d.IsDirectory parent :=
  h.isDirectory.mpr (hlearned.passes hchecked).2

theorem temporary_concat (w : Writer) (parent : Place) (name : Name) :
    w.temporary (parent ++ [name]) = parent ++ [temporaryName name w.pid w.sequence] :=
  temporaryOf_concat w.pid w.sequence parent name

theorem effect_createNew (h : Good w d₀ own d) (hlearned : Learned (w i) d₀ (γ i))
    {parent : Place} {name : Name} (hchecked : Checked (w i) (γ i) parent name) {site : Site}
    (hcall : Performs (w i).proc (faulty i) d ⟨site, .createNew (absolute (parent ++
      [temporaryName name (w i).pid (w i).sequence])) privateMode⟩ (.ok k) d') :
    Effect (w i) d₀ (own i) d (fun j => own i j ∨ j = k) d' := by
  have hanswer := Changes.of_ok hcall.answers
  simp only [Disk.locate_place (h.directory hlearned hchecked), bind, Except.bind] at hanswer
  apply Effect.created (hlearned.passes hchecked).1
  rw [temporary_concat]
  exact hanswer

theorem effect_removeFile (h : Good w d₀ (fun i => Created (γ i)) d)
    (hlearned : Learned (w i) d₀ (γ i)) {path : PathBuf} {site : Site}
    (hallowed : (w i).Allowed (γ i) ⟨site, .removeFile path⟩)
    (hcall : Performs (w i).proc (faulty i) d ⟨site, .removeFile path⟩ (.ok ()) d') :
    Effect (w i) d₀ (Created (γ i)) d (Created (γ i)) d' := by
  obtain ⟨parent, name, hchecked, rfl | ⟨hvalid, ⟨_, hlinked⟩, rfl⟩⟩ := hallowed
  · have hpasses := (hlearned.passes hchecked).1
    apply Effect.cleared hpasses
    rw [temporary_concat]
    exact hcall.removeFile_child (h.directory hlearned hchecked)
  · have hpasses := (hlearned.passes hchecked).1
    have hnone : d₀.entry (parent ++ [name]) = none := hlearned _ _ hlinked parent name rfl
    exact Effect.unlinked (h.commits hlearned hpasses hvalid) hnone
      (hcall.removeFile_child (h.directory hlearned hchecked))

/-- What an allowed call does. -/
theorem Good.effects (h : Good w d₀ (fun i => Created (γ i)) d)
    (hlearned : Learned (w i) d₀ (γ i)) {c : Call Site} {r : Reply c}
    (hallowed : (w i).Allowed (γ i) c) (hcall : Performs (w i).proc (faulty i) d c r d') :
    ∃ own', Effect (w i) d₀ (Created (γ i)) d own' d' ∧
      ∀ k, Created (γ i ++ [⟨c, r⟩]) k ↔ own' k := by
  obtain ⟨site, op⟩ := c
  cases op with
  | createNew path mode =>
      cases r with
      | ok k =>
          obtain ⟨parent, name, hchecked, rfl, rfl⟩ := hallowed
          exact ⟨_, effect_createNew h hlearned hchecked hcall, fun _ => created_concat_ok⟩
      | error e =>
          obtain rfl := hcall.of_error rfl
          exact ⟨_, .quiet, fun _ => created_concat_error⟩
  | writeAll n bytes =>
      refine ⟨_, ?_, fun _ => created_concat_of_ne (by simp)⟩
      rcases hcall with ⟨_, rfl⟩ | ⟨_, _, _, m, rfl⟩
      · exact .wrote hallowed _
      · exact .wrote hallowed _
  | rename src dst =>
      refine ⟨_, ?_, fun _ => created_concat_of_ne (by simp)⟩
      cases r with
      | ok _ =>
          obtain ⟨parent, name, hchecked, hvalid, rfl, rfl⟩ := hallowed
          apply Effect.renamed (h.commits hlearned (hlearned.passes hchecked).1 hvalid)
          rw [temporary_concat]
          exact hcall.rename_child (h.directory hlearned hchecked)
      | error e =>
          obtain rfl := hcall.of_error rfl
          exact .quiet
  | hardLink src dst =>
      refine ⟨_, ?_, fun _ => created_concat_of_ne (by simp)⟩
      cases r with
      | ok _ =>
          obtain ⟨parent, name, hchecked, hvalid, rfl, rfl⟩ := hallowed
          apply Effect.linked (h.commits hlearned (hlearned.passes hchecked).1 hvalid)
          rw [temporary_concat]
          exact hcall.hardLink_child (h.directory hlearned hchecked)
      | error e =>
          obtain rfl := hcall.of_error rfl
          exact .quiet
  | removeFile path =>
      refine ⟨_, ?_, fun _ => created_concat_of_ne (by simp)⟩
      cases r with
      | ok _ => exact effect_removeFile h hlearned hallowed hcall
      | error e =>
          obtain rfl := hcall.of_error rfl
          exact .quiet
  | _ =>
      obtain rfl := hcall.unchanged rfl
      exact ⟨_, .quiet, fun _ => created_concat_of_ne (by simp)⟩

end

/-! ## Whole runs -/

/-- What holds of every state in which disciplined writes are, with their events. -/
structure SideBySide (w : ι → Writer) (d₀ d : Disk) (γ : ι → History) : Prop where
  good : Good w d₀ (fun i => Created (γ i)) d
  learned : ∀ i, Learned (w i) d₀ (γ i)

section

variable {faulty : ι → Call Site → IoError → Prop} {γ : ι → History}

omit [DecidableEq ι] in
theorem sideBySide_start (hapart : Apart w d₀) : SideBySide w d₀ d₀ fun _ => [] := by
  have hnone : (fun (_ : ι) => Created ([] : History)) = fun _ _ => False := by
    funext i k
    apply propext
    refine ⟨?_, fun h => h.elim⟩
    intro h
    obtain ⟨path, mode, site, hmem⟩ := h
    cases hmem
  constructor
  · rw [hnone]
    exact good_start hapart
  · intro i op r h
    obtain ⟨site, hmem⟩ := h
    cases hmem

theorem SideBySide.step (h : SideBySide w d₀ d γ) (hapart : Apart w d₀)
    (htruthful : Truthful (faulty i)) {c : Call Site} {r : Reply c}
    (hallowed : (w i).Allowed (γ i) c) (hcall : Performs (w i).proc (faulty i) d c r d') :
    SideBySide w d₀ d' (Function.update γ i (γ i ++ [⟨c, r⟩])) := by
  obtain ⟨own', heffect, hown⟩ := h.good.effects (h.learned i) hallowed hcall
  have howners : (fun j => Created (Function.update γ i (γ i ++ [⟨c, r⟩]) j)) =
      Function.update (fun j => Created (γ j)) i own' := by
    funext j k
    apply propext
    by_cases hj : j = i
    · subst hj
      rw [Function.update_self, Function.update_self]
      exact hown k
    · rw [Function.update_of_ne hj, Function.update_of_ne hj]
  constructor
  · rw [howners]
    exact h.good.effect hapart heffect
  · intro j
    by_cases hj : j = i
    · subst hj
      rw [Function.update_self]
      exact (h.learned j).concat (h.good.tells (h.learned j) htruthful hallowed hcall)
    · rw [Function.update_of_ne hj]
      exact h.learned j

end

end Invokrum.Cli
