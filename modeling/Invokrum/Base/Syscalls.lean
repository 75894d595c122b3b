import Invokrum.Base.Inodes
import Invokrum.Base.Program

/-!
# Calls on a file system of inodes

What a call answers and does is a relation: a read may return fewer bytes than
it was asked for, and an inode may stand at several places. Besides, a call may
fail on its own; it then changes nothing, or leaves a part of what it wrote.
-/

namespace Invokrum.Inodes

open Text (Bytes)

structure Process where
  cwd : Place
  umask : Nat

/-! ## Calls -/

inductive Op where
  | currentDir
  | symlinkMetadata (path : PathBuf)
  | metadata (path : PathBuf)
  | canonicalize (path : PathBuf)
  /-- Whether `/proc/self/fd` is a directory. -/
  | descriptorDirectory
  | openFile (path : PathBuf) (noFollow : Bool)
  | createNew (path : PathBuf) (mode : Nat)
  | writeAll (descriptor : Nat) (bytes : Bytes)
  | syncAll (descriptor : Nat)
  | descriptorMetadata (descriptor : Nat)
  /-- The target of the link `/proc/self/fd/<descriptor>`. -/
  | descriptorPath (descriptor : Nat)
  | read (descriptor offset count : Nat)
  | rename (src dst : PathBuf)
  | hardLink (src dst : PathBuf)
  | removeFile (path : PathBuf)

/-- A descriptor is the inode it was opened on. -/
def Op.Value : Op → Type
  | .currentDir | .canonicalize _ | .descriptorPath _ => Place
  | .symlinkMetadata _ | .metadata _ | .descriptorMetadata _ => Metadata
  | .descriptorDirectory => Bool
  | .openFile _ _ | .createNew _ _ => Nat
  | .writeAll _ _ | .syncAll _ | .rename _ _ | .hardLink _ _ | .removeFile _ => Unit
  | .read _ _ _ => Bytes

/-- Calls that never change the file system. -/
def Op.observes : Op → Bool
  | .createNew _ _ | .writeAll _ _ | .rename _ _ | .hardLink _ _ | .removeFile _ => false
  | _ => true

/-- A call that leaves a part when it fails. -/
def Op.writes : Op → Bool
  | .writeAll _ _ => true
  | _ => false

/-- A call at a site of the program. -/
structure Call (T : Type) where
  site : T
  op : Op

abbrev Reply {T : Type} (c : Call T) : Type := Except IoError c.op.Value

/-! ## Answers -/

def Disk.inodeAt (d : Disk) (cwd : Place) (follow : Bool) (path : PathBuf) : Except IoError Nat :=
  match d.lookup cwd follow path with
  | .ok p =>
      match d.entry p with
      | some i => .ok i
      | none => .error .notFound
  | .error e => .error e

/-- `open` for reading; with `O_NOFOLLOW` a link at the end of the path is refused. -/
def Disk.openFile (d : Disk) (cwd : Place) (path : PathBuf) (noFollow : Bool) :
    Except IoError Nat :=
  match d.inodeAt cwd (!noFollow) path with
  | .ok i => if (d.inode i).content.kind = .symlink then .error .other else .ok i
  | .error e => .error e

/-- A new private file, owned by the device of its directory. -/
def newFile (mode device : Nat) : Inode := ⟨.file [], device, mode, 1, 0, 0⟩

def Disk.deviceOf (d : Disk) (p : Place) : Nat :=
  match d.entry p with
  | some i => (d.inode i).device
  | none => 0

/-- The answer of a call that changes the file system or fails. -/
def Changes {α : Type} (d : Disk) (x : Except IoError (α × Disk)) (r : Except IoError α)
    (d' : Disk) : Prop :=
  match x with
  | .ok (a, d₁) => r = .ok a ∧ d' = d₁
  | .error e => r = .error e ∧ d' = d

/-- An operation without a result. -/
def effect (x : Except IoError Disk) : Except IoError (Unit × Disk) := x.map fun d => ((), d)

def Answers (proc : Process) (d : Disk) : (op : Op) → Except IoError op.Value → Disk → Prop
  | .currentDir, r, d' => d' = d ∧
      r = if d.IsDirectory proc.cwd then .ok proc.cwd else .error .notFound
  | .symlinkMetadata path, r, d' => d' = d ∧ r = (d.inodeAt proc.cwd false path).map d.stat
  | .metadata path, r, d' => d' = d ∧ r = (d.inodeAt proc.cwd true path).map d.stat
  | .canonicalize path, r, d' => d' = d ∧ r = d.lookup proc.cwd true path
  | .descriptorDirectory, r, d' => d' = d ∧ r = .ok true
  | .openFile path noFollow, r, d' => d' = d ∧ r = d.openFile proc.cwd path noFollow
  | .createNew path mode, r, d' => Changes d (do
      let p ← d.locate proc.cwd path
      d.createNew p (newFile (mode - (mode &&& proc.umask)) (d.deviceOf p.dropLast))) r d'
  | .writeAll descriptor bytes, r, d' => r = .ok () ∧ d' = d.rewrite descriptor (· ++ bytes)
  | .syncAll _, r, d' => d' = d ∧ r = .ok ()
  | .descriptorMetadata descriptor, r, d' => d' = d ∧ r = .ok (d.stat descriptor)
  | .descriptorPath descriptor, r, d' => d' = d ∧
      ((∃ p, d.entry p = some descriptor ∧ r = .ok p) ∨
        (∀ p, d.entry p ≠ some descriptor) ∧ r = .error .notFound)
  | .read descriptor offset count, r, d' => d' = d ∧
      ∃ n, 0 < n ∧ r = .ok (((d.inode descriptor).content.bytes.drop offset).take (min n count))
  | .rename src dst, r, d' => Changes d (effect do
      let p ← d.locate proc.cwd src
      let q ← d.locate proc.cwd dst
      d.rename p q) r d'
  | .hardLink src dst, r, d' => Changes d (effect do
      let p ← d.locate proc.cwd src
      let q ← d.locate proc.cwd dst
      d.hardLink p q) r d'
  | .removeFile path, r, d' => Changes d (effect do
      let p ← d.locate proc.cwd path
      d.removeFile p) r d'

/-- What a call leaves that fails on its own: a failed write may have written a part. -/
def Leaves (d : Disk) : Op → Disk → Prop
  | .writeAll descriptor bytes, d' => ∃ n, d' = d.rewrite descriptor (· ++ bytes.take n)
  | _, d' => d' = d

/-- A call is answered, or fails on its own where and as it may. -/
def Performs {T : Type} (proc : Process) (faulty : Call T → IoError → Prop) (d : Disk)
    (c : Call T) (r : Reply c) (d' : Disk) : Prop :=
  Answers proc d c.op r d' ∨ ∃ e, faulty c e ∧ r = .error e ∧ Leaves d c.op d'

/-! ## Computed answers -/

/-- The result of a changing operation with the disk behind it. -/
def Disk.outcome {α : Type} (d : Disk) (x : Except IoError (α × Disk)) : Except IoError α × Disk :=
  match x with
  | .ok (a, d') => (.ok a, d')
  | .error e => (.error e, d)

/-- One answer to a call: reads are complete, and an inode is found at `place` only. -/
def Disk.answer (d : Disk) (proc : Process) (place : Place) :
    (op : Op) → Option (Except IoError op.Value × Disk)
  | .currentDir => some (if d.IsDirectory proc.cwd then .ok proc.cwd else .error .notFound, d)
  | .symlinkMetadata path => some ((d.inodeAt proc.cwd false path).map d.stat, d)
  | .metadata path => some ((d.inodeAt proc.cwd true path).map d.stat, d)
  | .canonicalize path => some (d.lookup proc.cwd true path, d)
  | .descriptorDirectory => some (.ok true, d)
  | .openFile path noFollow => some (d.openFile proc.cwd path noFollow, d)
  | .createNew path mode => some (d.outcome (do
      let p ← d.locate proc.cwd path
      d.createNew p (newFile (mode - (mode &&& proc.umask)) (d.deviceOf p.dropLast))))
  | .writeAll descriptor bytes => some (.ok (), d.rewrite descriptor (· ++ bytes))
  | .syncAll _ => some (.ok (), d)
  | .descriptorMetadata descriptor => some (.ok (d.stat descriptor), d)
  | .descriptorPath descriptor =>
      if d.entry place = some descriptor then some (.ok place, d) else none
  | .read descriptor offset count =>
      some (.ok (((d.inode descriptor).content.bytes.drop offset).take count), d)
  | .rename src dst => some (d.outcome (effect do
      let p ← d.locate proc.cwd src
      let q ← d.locate proc.cwd dst
      d.rename p q))
  | .hardLink src dst => some (d.outcome (effect do
      let p ← d.locate proc.cwd src
      let q ← d.locate proc.cwd dst
      d.hardLink p q))
  | .removeFile path => some (d.outcome (effect do
      let p ← d.locate proc.cwd path
      d.removeFile p))

theorem Disk.changes_of_outcome {α : Type} {d d' : Disk} {x : Except IoError (α × Disk)}
    {r : Except IoError α} (h : some (d.outcome x) = some (r, d')) : Changes d x r d' := by
  cases x <;> cases h <;> exact ⟨rfl, rfl⟩

theorem Disk.answers_answer {d d' : Disk} {proc : Process} {place : Place} {op : Op}
    {r : Except IoError op.Value} (h : d.answer proc place op = some (r, d')) :
    Answers proc d op r d' := by
  cases op with
  | descriptorPath descriptor =>
      rw [Disk.answer] at h
      split at h
      · next hentry =>
          cases h
          exact ⟨rfl, .inl ⟨place, hentry, rfl⟩⟩
      · cases h
  | read descriptor offset count =>
      cases h
      refine ⟨rfl, count + 1, Nat.succ_pos count, ?_⟩
      rw [Nat.min_eq_right (Nat.le_succ count)]
  | createNew path mode => exact Disk.changes_of_outcome h
  | rename src dst => exact Disk.changes_of_outcome h
  | hardLink src dst => exact Disk.changes_of_outcome h
  | removeFile path => exact Disk.changes_of_outcome h
  | writeAll descriptor bytes =>
      cases h
      exact ⟨rfl, rfl⟩
  | _ =>
      cases h
      exact ⟨rfl, rfl⟩

/-! ## What calls change -/

variable {T : Type} {proc : Process} {faulty : Call T → IoError → Prop} {d d' : Disk}

theorem Answers.unchanged {op : Op} {r : Except IoError op.Value} (hop : op.observes = true)
    (h : Answers proc d op r d') : d' = d := by
  cases op <;> first | exact h.1 | cases hop

theorem Performs.unchanged {c : Call T} {r : Reply c} (hop : c.op.observes = true)
    (h : Performs proc faulty d c r d') : d' = d := by
  obtain ⟨site, op⟩ := c
  rcases h with h | ⟨e, _, _, h⟩
  · exact h.unchanged hop
  · cases op <;> first | exact h | cases hop

/-- The answer behind a value. -/
theorem Performs.answers {c : Call T} {v : c.op.Value} (h : Performs proc faulty d c (.ok v) d') :
    Answers proc d c.op (.ok v) d' := by
  rcases h with h | ⟨e, _, herror, _⟩
  · exact h
  · cases herror

theorem Changes.of_ok {α : Type} {x : Except IoError (α × Disk)} {a : α}
    (h : Changes d x (.ok a) d') : x = .ok (a, d') := by
  unfold Changes at h
  split at h
  · obtain ⟨hr, rfl⟩ := h
    cases hr
    rfl
  · cases h.1

theorem Changes.of_error {α : Type} {x : Except IoError (α × Disk)} {e : IoError}
    (h : Changes d x (.error e) d') : x = .error e ∧ d' = d := by
  unfold Changes at h
  split at h
  · cases h.1
  · obtain ⟨hr, rfl⟩ := h
    cases hr
    exact ⟨rfl, rfl⟩

/-! ## Calls on entries of a directory -/

section

variable {p : Place} {name other : Name} {site : T} {i : Nat}

theorem inodeAt_place {cwd : Place} (hentry : d.entry p = some i) :
    d.inodeAt cwd false (absolute p) = .ok i := by
  rw [Disk.inodeAt, Disk.lookup_place hentry (.inl rfl)]
  simp only [hentry]

theorem inodeAt_missing {cwd : Place} (hdir : d.IsDirectory p)
    (hentry : d.entry (p ++ [name]) = none) :
    d.inodeAt cwd false (absolute (p ++ [name])) = .error .notFound := by
  rw [Disk.inodeAt, Disk.lookup_missing hdir hentry]

theorem Performs.symlinkMetadata_place {m : Metadata} (hentry : d.entry p ≠ none)
    (h : Performs proc faulty d ⟨site, .symlinkMetadata (absolute p)⟩ (.ok m) d') :
    ∃ i, d.entry p = some i ∧ m = d.stat i := by
  obtain ⟨i, hi⟩ := Option.ne_none_iff_exists'.mp hentry
  have hanswer := h.answers.2
  rw [inodeAt_place hi] at hanswer
  exact ⟨i, hi, Except.ok.inj hanswer⟩

theorem Performs.symlinkMetadata_child {m : Metadata} (hdir : d.IsDirectory p)
    (h : Performs proc faulty d ⟨site, .symlinkMetadata (absolute (p ++ [name]))⟩ (.ok m) d') :
    ∃ i, d.entry (p ++ [name]) = some i ∧ m = d.stat i := by
  by_cases hentry : d.entry (p ++ [name]) = none
  · have hanswer := h.answers.2
    rw [inodeAt_missing hdir hentry] at hanswer
    cases hanswer
  · exact h.symlinkMetadata_place hentry

theorem Performs.isDirectory_child {m : Metadata} (hp : p = [] ∨ d.IsDirectory p)
    (h : Performs proc faulty d ⟨site, .symlinkMetadata (absolute (p ++ [name]))⟩ (.ok m) d')
    (hkind : m.kind = .directory) : d.IsDirectory (p ++ [name]) := by
  have hdir : d.IsDirectory p := by
    rcases hp with rfl | hdir
    · have hanswer := h.answers.2
      unfold Disk.inodeAt at hanswer
      split at hanswer
      · next q hlookup => exact Disk.root_of_lookup (List.cons_ne_nil name []) hlookup
      · cases hanswer
    · exact hdir
  obtain ⟨i, hi, rfl⟩ := h.symlinkMetadata_child hdir
  refine ⟨i, hi, ?_⟩
  cases hcontent : (d.inode i).content <;>
    simp [Disk.stat, hcontent, Content.kind] at hkind ⊢

/-- What is said to be missing is missing. -/
theorem Performs.absent_child
    (htruthful : ¬ faulty ⟨site, .symlinkMetadata (absolute (p ++ [name]))⟩ .notFound)
    (h : Performs proc faulty d ⟨site, .symlinkMetadata (absolute (p ++ [name]))⟩
      (.error .notFound) d') : d.entry (p ++ [name]) = none := by
  rcases h with ⟨_, hanswer⟩ | ⟨e, hfaulty, herror, _⟩
  · by_contra hsome
    obtain ⟨i, hi⟩ := Option.ne_none_iff_exists'.mp hsome
    rw [inodeAt_place hi] at hanswer
    cases hanswer
  · cases herror
    exact absurd hfaulty htruthful

theorem Performs.createNew_child {mode j : Nat} (hdir : d.IsDirectory p)
    (h : Performs proc faulty d ⟨site, .createNew (absolute (p ++ [name])) mode⟩ (.ok j) d') :
    j = d.next ∧ d.entry (p ++ [name]) = none ∧ d'.next = d.next + 1 ∧
      d'.entry = Function.update d.entry (p ++ [name]) (some d.next) ∧
      d'.inode = Function.update d.inode d.next
        (newFile (mode - (mode &&& proc.umask)) (d.deviceOf p)) := by
  have hanswer := Changes.of_ok h.answers
  simp only [Disk.locate_place hdir, List.dropLast_concat, bind, Except.bind] at hanswer
  obtain ⟨hj, hnone, _, hnext, hentry, hinode⟩ := Disk.createNew_eq_ok hanswer
  exact ⟨hj, hnone, hnext, hentry, hinode⟩

theorem effect_eq_ok {x : Except IoError Disk} (h : effect x = .ok ((), d')) : x = .ok d' := by
  cases x with
  | ok d₁ =>
      cases h
      rfl
  | error e => cases h

theorem Performs.removeFile_child (hdir : d.IsDirectory p)
    (h : Performs proc faulty d ⟨site, .removeFile (absolute (p ++ [name]))⟩ (.ok ()) d') :
    d.removeFile (p ++ [name]) = .ok d' := by
  have hanswer := effect_eq_ok (Changes.of_ok h.answers)
  simpa only [Disk.locate_place hdir, bind, Except.bind] using hanswer

theorem Performs.hardLink_child (hdir : d.IsDirectory p)
    (h : Performs proc faulty d
      ⟨site, .hardLink (absolute (p ++ [name])) (absolute (p ++ [other]))⟩ (.ok ()) d') :
    d.hardLink (p ++ [name]) (p ++ [other]) = .ok d' := by
  have hanswer := effect_eq_ok (Changes.of_ok h.answers)
  simpa only [Disk.locate_place hdir, bind, Except.bind] using hanswer

theorem Performs.rename_child (hdir : d.IsDirectory p)
    (h : Performs proc faulty d
      ⟨site, .rename (absolute (p ++ [name])) (absolute (p ++ [other]))⟩ (.ok ()) d') :
    d.rename (p ++ [name]) (p ++ [other]) = .ok d' := by
  have hanswer := effect_eq_ok (Changes.of_ok h.answers)
  simpa only [Disk.locate_place hdir, bind, Except.bind] using hanswer

/-- A removal that must not fail on its own removes what is there. -/
theorem Performs.removeFile_reliable {r : Except IoError Unit} (hdir : d.IsDirectory p)
    (hreliable : ∀ e, ¬ faulty ⟨site, .removeFile (absolute (p ++ [name]))⟩ e)
    (h : Performs proc faulty d ⟨site, .removeFile (absolute (p ++ [name]))⟩ r d') :
    d.removeFile (p ++ [name]) = .ok d' ∨ d' = d ∧ ∃ e, d.removeFile (p ++ [name]) = .error e := by
  rcases h with h | ⟨e, hfaulty, _⟩
  · cases r with
    | ok u =>
        have hanswer := effect_eq_ok (Changes.of_ok h)
        exact .inl (by simpa only [Disk.locate_place hdir, bind, Except.bind] using hanswer)
    | error e =>
        obtain ⟨hanswer, rfl⟩ := Changes.of_error h
        simp only [Disk.locate_place hdir, bind, Except.bind] at hanswer
        refine .inr ⟨rfl, ?_⟩
        cases hx : d'.removeFile (p ++ [name]) with
        | ok d₁ =>
            rw [hx] at hanswer
            cases hanswer
        | error e' => exact ⟨e', rfl⟩
  · exact absurd hfaulty (hreliable e)

end

/-- A failed call changes nothing, a failed write apart. -/
theorem Performs.of_error {c : Call T} {e : IoError} (hop : c.op.writes = false)
    (h : Performs proc faulty d c (.error e) d') : d' = d := by
  obtain ⟨site, op⟩ := c
  rcases h with h | ⟨_, _, _, h⟩
  · cases op with
    | createNew path mode => exact (Changes.of_error h).2
    | rename src dst => exact (Changes.of_error h).2
    | hardLink src dst => exact (Changes.of_error h).2
    | removeFile path => exact (Changes.of_error h).2
    | writeAll j bytes => cases hop
    | _ => exact h.1
  · cases op with
    | writeAll j bytes => cases hop
    | _ => exact h

end Invokrum.Inodes
