import Mathlib.Tactic

/-!
# A file system as a map from paths to nodes

Paths are component lists below one root directory. Every node lies in a
directory; the field `closed` says so, and no operation can break it. Each
operation either answers with an error and changes nothing or yields a new file
system, and a lemma beside it says which nodes it changes.
-/

namespace Invokrum.FileSystem

abbrev Path := List String

instance : LawfulBEq Path := inferInstance

inductive Kind where
  | file
  | directory
  | symlink
  | other
deriving DecidableEq

structure Metadata where
  kind : Kind
  device : Nat
  inode : Nat
  links : Nat
  mode : Nat
deriving DecidableEq

/-- An entry; `bytes` is the content of a regular file. -/
structure Node where
  metadata : Metadata
  bytes : List UInt8
deriving DecidableEq

def Node.kind (n : Node) : Kind := n.metadata.kind

inductive IoError where
  | notFound
  | alreadyExists
  | other
deriving DecidableEq

structure Fs where
  node : Path → Option Node
  nextInode : Nat
  closed : ∀ (p : Path) (name : String), node (p ++ [name]) ≠ none →
    ∃ n, node p = some n ∧ n.kind = .directory

namespace Fs

/-! ## Trees -/

/-- Nothing lies below a path without a node. -/
theorem absent_below (fs : Fs) {p : Path} (h : fs.node p = none) (rest : Path) :
    fs.node (p ++ rest) = none := by
  induction rest using List.reverseRecOn with
  | nil => rwa [List.append_nil]
  | append_singleton rest name ih =>
      by_contra hsome
      rw [← List.append_assoc] at hsome
      obtain ⟨n, hn, _⟩ := fs.closed _ _ hsome
      rw [ih] at hn
      cases hn

/-- The directory that an entry at this path lies in. -/
def parentDirectory (fs : Fs) (p : Path) : Option Node :=
  if p = [] then none
  else (fs.node p.dropLast).filter fun n => n.kind = .directory

theorem parentDirectory_eq_some {fs : Fs} {p : Path} {d : Node}
    (h : fs.parentDirectory p = some d) :
    p ≠ [] ∧ fs.node p.dropLast = some d ∧ d.kind = .directory := by
  unfold parentDirectory at h
  split at h
  · cases h
  · next hp =>
      rw [Option.filter_eq_some_iff] at h
      exact ⟨hp, h.1, by simpa using h.2⟩

/-- Why a path has no node: a missing name, or something on the way that is no directory. -/
def absentError (fs : Fs) (p : Path) : IoError :=
  if (p.inits.any fun q => (fs.node q).any fun n => n.kind != .directory) then .other
  else .notFound

/-! ## Updates -/

/-- A new entry in an existing directory. -/
def create (fs : Fs) (p : Path) (n : Node) (hparent : fs.parentDirectory p ≠ none)
    (habsent : fs.node p = none) : Fs where
  node := Function.update fs.node p (some n)
  nextInode := fs.nextInode + 1
  closed := by
    intro q name hq
    obtain ⟨d, hd⟩ := Option.ne_none_iff_exists'.mp hparent
    obtain ⟨_, hnode, hkind⟩ := parentDirectory_eq_some hd
    by_cases hp : q ++ [name] = p
    · subst hp
      rw [List.dropLast_concat] at hnode
      have hne : q ≠ q ++ [name] := by simp
      exact ⟨d, by rw [Function.update_of_ne hne, hnode], hkind⟩
    · rw [Function.update_of_ne hp] at hq
      obtain ⟨n', hn', hkind'⟩ := fs.closed q name hq
      have hne : q ≠ p := by
        intro heq
        rw [heq, habsent] at hn'
        cases hn'
      exact ⟨n', by rw [Function.update_of_ne hne, hn'], hkind'⟩

/-- A change of a node that keeps its kind. -/
def modify (fs : Fs) (p : Path) (f : Node → Node) (hf : ∀ n, (f n).kind = n.kind) : Fs where
  node := Function.update fs.node p ((fs.node p).map f)
  nextInode := fs.nextInode
  closed := by
    intro q name hq
    have hsome : fs.node (q ++ [name]) ≠ none := by
      intro hnone
      by_cases hp : q ++ [name] = p
      · subst hp
        simp [hnone] at hq
      · exact hq (by rw [Function.update_of_ne hp, hnone])
    obtain ⟨n, hn, hkind⟩ := fs.closed q name hsome
    by_cases hp : q = p
    · subst hp
      exact ⟨f n, by simp [hn], (hf n).trans hkind⟩
    · exact ⟨n, by rw [Function.update_of_ne hp, hn], hkind⟩

/-- Everything from this path on is gone. -/
def removeTree (fs : Fs) (a : Path) : Fs where
  node p := if a <+: p then none else fs.node p
  nextInode := fs.nextInode
  closed := by
    intro q name hq
    by_cases ha : a <+: q ++ [name]
    · exact absurd (if_pos ha) hq
    · have hqa : ¬ a <+: q := fun h => ha (h.trans (List.prefix_append q [name]))
      rw [if_neg ha] at hq
      rw [if_neg hqa]
      exact fs.closed q name hq

/-- The tree at `a` moves to `b`. -/
def moveTree (fs : Fs) (a b : Path) (hparent : fs.parentDirectory b ≠ none)
    (hapart : ¬ a <+: b) : Fs where
  node p := if b <+: p then fs.node (a ++ p.drop b.length)
    else if a <+: p then none else fs.node p
  nextInode := fs.nextInode
  closed := by
    intro q name hq
    obtain ⟨d, hd⟩ := Option.ne_none_iff_exists'.mp hparent
    obtain ⟨hb, hnode, hkind⟩ := parentDirectory_eq_some hd
    by_cases hbq : b <+: q
    · obtain ⟨rest, rfl⟩ := hbq
      have hbn : b <+: b ++ rest ++ [name] := ⟨rest ++ [name], by rw [List.append_assoc]⟩
      rw [if_pos hbn, List.append_assoc, List.drop_left, ← List.append_assoc] at hq
      rw [if_pos (List.prefix_append b rest), List.drop_left]
      exact fs.closed _ _ hq
    · rw [if_neg hbq]
      by_cases hbn : b <+: q ++ [name]
      · have heq : b = q ++ [name] := by
          rcases List.prefix_concat_iff.mp hbn with h | h
          · exact h
          · exact absurd h hbq
        subst heq
        have haq : ¬ a <+: q := fun h => hapart (h.trans (List.prefix_append q [name]))
        rw [List.dropLast_concat] at hnode
        rw [if_neg haq]
        exact ⟨d, hnode, hkind⟩
      · rw [if_neg hbn] at hq
        by_cases han : a <+: q ++ [name]
        · exact absurd (if_pos han) hq
        · have haq : ¬ a <+: q := fun h => han (h.trans (List.prefix_append q [name]))
          rw [if_neg han] at hq
          rw [if_neg haq]
          exact fs.closed q name hq

/-! ## Operations -/

/-- `lstat`. -/
def symlinkMetadata (fs : Fs) (p : Path) : Except IoError Metadata :=
  match fs.node p with
  | some n => .ok n.metadata
  | none => .error (fs.absentError p)

/-- A new empty entry, on the device of its directory. -/
def createNode (fs : Fs) (p : Path) (kind : Kind) (links mode : Nat) : Except IoError Fs :=
  if habsent : fs.node p = none then
    match hparent : fs.parentDirectory p with
    | some d =>
        .ok (fs.create p ⟨⟨kind, d.metadata.device, fs.nextInode, links, mode⟩, []⟩
          (by simp [hparent]) habsent)
    | none => .error (fs.absentError p)
  else .error .alreadyExists

/-- `mkdir`. -/
def createDir (fs : Fs) (p : Path) (mode : Nat) : Except IoError Fs :=
  fs.createNode p .directory 2 mode

/-- `open` with `O_CREAT | O_EXCL`. -/
def createFile (fs : Fs) (p : Path) (mode : Nat) : Except IoError Fs :=
  fs.createNode p .file 1 mode

/-- `chmod`. -/
def setMode (fs : Fs) (p : Path) (mode : Nat) : Except IoError Fs :=
  match fs.node p with
  | some _ =>
      .ok (fs.modify p (fun n => { n with metadata := { n.metadata with mode := mode } })
        fun _ => rfl)
  | none => .error (fs.absentError p)

/-- `write` at the end of an open file. -/
def append (fs : Fs) (p : Path) (bytes : List UInt8) : Except IoError Fs :=
  match fs.node p with
  | some n =>
      if n.kind = .file then
        .ok (fs.modify p (fun n => { n with bytes := n.bytes ++ bytes }) fun _ => rfl)
      else .error .other
  | none => .error (fs.absentError p)

/-- `open` and `fsync`. -/
def sync (fs : Fs) (p : Path) : Except IoError Unit :=
  match fs.node p with
  | some _ => .ok ()
  | none => .error (fs.absentError p)

/-- The whole content of a regular file. -/
def readFile (fs : Fs) (p : Path) : Except IoError (List UInt8) :=
  match fs.node p with
  | some n => if n.kind = .file then .ok n.bytes else .error .other
  | none => .error (fs.absentError p)

/-- `unlink`. -/
def removeFile (fs : Fs) (p : Path) : Except IoError Fs :=
  match fs.node p with
  | some n => if n.kind = .directory then .error .other else .ok (fs.removeTree p)
  | none => .error (fs.absentError p)

/-- `remove_dir_all`. -/
def removeDirAll (fs : Fs) (p : Path) : Except IoError Fs :=
  match fs.node p with
  | some n => if n.kind = .directory then .ok (fs.removeTree p) else .error .other
  | none => .error (fs.absentError p)

/-- When `rename` moves a directory: into an existing directory, not below itself, to a
free name or over an empty directory. -/
structure CanMove (fs : Fs) (a b : Path) : Prop where
  source : ∃ n, fs.node a = some n ∧ n.kind = .directory
  parent : fs.parentDirectory b ≠ none
  apart : ¬ a <+: b
  target : fs.node b = none ∨ ((∃ n, fs.node b = some n ∧ n.kind = .directory) ∧
    ∀ name, fs.node (b ++ [name]) = none)

/-! ## What the operations change -/

/-- Outside the tree at `p` nothing has changed. -/
def SameOutside (p : Path) (fs fs' : Fs) : Prop := ∀ q, ¬ p <+: q → fs'.node q = fs.node q

theorem SameOutside.refl (p : Path) (fs : Fs) : SameOutside p fs fs := fun _ _ => rfl

theorem symlinkMetadata_eq_ok {fs : Fs} {p : Path} {m : Metadata} :
    fs.symlinkMetadata p = .ok m ↔ ∃ n, fs.node p = some n ∧ n.metadata = m := by
  unfold symlinkMetadata
  cases fs.node p <;> simp

theorem createNode_eq_ok {fs fs' : Fs} {p : Path} {kind : Kind} {links mode : Nat}
    (h : fs.createNode p kind links mode = .ok fs') :
    fs.node p = none ∧ ∃ n : Node, n.kind = kind ∧ n.bytes = [] ∧
      fs'.node = Function.update fs.node p (some n) := by
  unfold createNode at h
  split at h
  · next habsent =>
      split at h
      · cases h
        exact ⟨habsent, _, rfl, rfl, rfl⟩
      · cases h
  · cases h

theorem createNode_exists {fs : Fs} {p : Path} {kind : Kind} {links mode : Nat}
    (h : fs.node p ≠ none) : fs.createNode p kind links mode = .error .alreadyExists := by
  rw [createNode, dif_neg h]

theorem createNode_absent {fs : Fs} {p : Path} {d : Node} {kind : Kind} {links mode : Nat}
    (habsent : fs.node p = none) (hparent : fs.parentDirectory p = some d) :
    ∃ fs', fs.createNode p kind links mode = .ok fs' ∧ fs'.node = Function.update fs.node p
      (some ⟨⟨kind, d.metadata.device, fs.nextInode, links, mode⟩, []⟩) := by
  rw [createNode, dif_pos habsent]
  split
  · next d' hd' =>
      rw [hparent] at hd'
      cases hd'
      exact ⟨_, rfl, rfl⟩
  · next hnone =>
      rw [hnone] at hparent
      cases hparent

theorem setMode_eq_ok {fs fs' : Fs} {p : Path} {mode : Nat} (h : fs.setMode p mode = .ok fs') :
    ∃ n, fs.node p = some n ∧ fs'.node = Function.update fs.node p
      (some { n with metadata := { n.metadata with mode := mode } }) := by
  unfold setMode at h
  cases hnode : fs.node p with
  | none =>
      rw [hnode] at h
      cases h
  | some n =>
      rw [hnode] at h
      cases h
      exact ⟨n, rfl, by simp [modify, hnode]⟩

theorem setMode_some {fs : Fs} {p : Path} {n : Node} {mode : Nat} (h : fs.node p = some n) :
    ∃ fs', fs.setMode p mode = .ok fs' ∧ fs'.node = Function.update fs.node p
      (some { n with metadata := { n.metadata with mode := mode } }) := by
  rw [setMode, h]
  exact ⟨_, rfl, by simp [modify, h]⟩

theorem append_eq_ok {fs fs' : Fs} {p : Path} {bytes : List UInt8}
    (h : fs.append p bytes = .ok fs') : ∃ n, fs.node p = some n ∧ n.kind = .file ∧
      fs'.node = Function.update fs.node p (some { n with bytes := n.bytes ++ bytes }) := by
  unfold append at h
  cases hnode : fs.node p with
  | none =>
      rw [hnode] at h
      cases h
  | some n =>
      rw [hnode] at h
      by_cases hkind : n.kind = .file
      · simp only [hkind, if_true] at h
        cases h
        exact ⟨n, rfl, hkind, by simp [modify, hnode]⟩
      · simp [hkind] at h

theorem readFile_eq_ok {fs : Fs} {p : Path} {bytes : List UInt8}
    (h : fs.readFile p = .ok bytes) :
    ∃ n, fs.node p = some n ∧ n.kind = .file ∧ n.bytes = bytes := by
  unfold readFile at h
  cases hnode : fs.node p with
  | none =>
      rw [hnode] at h
      cases h
  | some n =>
      rw [hnode] at h
      by_cases hkind : n.kind = .file
      · simp only [hkind, if_true, Except.ok.injEq] at h
        exact ⟨n, rfl, hkind, h⟩
      · simp [hkind] at h

theorem removeFile_eq_ok {fs fs' : Fs} {p : Path} (h : fs.removeFile p = .ok fs') :
    fs' = fs.removeTree p := by
  unfold removeFile at h
  split at h
  · split at h
    · cases h
    · cases h
      rfl
  · cases h

theorem removeDirAll_eq_ok {fs fs' : Fs} {p : Path} (h : fs.removeDirAll p = .ok fs') :
    fs' = fs.removeTree p := by
  unfold removeDirAll at h
  split at h
  · split at h
    · cases h
      rfl
    · cases h
  · cases h

theorem sameOutside_update {fs fs' : Fs} {p : Path} {n : Option Node}
    (h : fs'.node = Function.update fs.node p n) : SameOutside p fs fs' := by
  intro q hq
  have hne : q ≠ p := by
    rintro rfl
    exact hq (List.prefix_refl q)
  rw [h, Function.update_of_ne hne]

theorem sameOutside_removeTree (fs : Fs) (p : Path) : SameOutside p fs (fs.removeTree p) :=
  fun _ hq => if_neg hq

theorem removeTree_below (fs : Fs) {a p : Path} (h : a <+: p) : (fs.removeTree a).node p = none :=
  if_pos h

/-- The tree at `root`, with paths relative to it. -/
def below (fs : Fs) (root : Path) : Path → Option Node := fun p => fs.node (root ++ p)

theorem below_update {fs fs' : Fs} {root p : Path} {n : Option Node}
    (h : fs'.node = Function.update fs.node (root ++ p) n) :
    fs'.below root = Function.update (fs.below root) p n := by
  funext q
  by_cases hq : q = p
  · subst hq
    simp [below, h]
  · simp [below, h, hq]

theorem below_moveTree (fs : Fs) {a b : Path} (hparent : fs.parentDirectory b ≠ none)
    (hapart : ¬ a <+: b) : (fs.moveTree a b hparent hapart).below b = fs.below a := by
  funext q
  show (if b <+: b ++ q then fs.node (a ++ (b ++ q).drop b.length) else _) = fs.node (a ++ q)
  rw [if_pos (List.prefix_append b q), List.drop_left]

/-- A move changes nothing outside both trees. -/
theorem moveTree_outside (fs : Fs) {a b p : Path} (hparent : fs.parentDirectory b ≠ none)
    (hapart : ¬ a <+: b) (ha : ¬ a <+: p) (hb : ¬ b <+: p) :
    (fs.moveTree a b hparent hapart).node p = fs.node p := by
  show (if b <+: p then _ else if a <+: p then none else fs.node p) = fs.node p
  rw [if_neg hb, if_neg ha]

theorem moveTree_source (fs : Fs) {a b p : Path} (hparent : fs.parentDirectory b ≠ none)
    (hapart : ¬ a <+: b) (ha : a <+: p) (hb : ¬ b <+: p) :
    (fs.moveTree a b hparent hapart).node p = none := by
  show (if b <+: p then _ else if a <+: p then none else fs.node p) = none
  rw [if_neg hb, if_pos ha]

/-- Nothing lies below a regular file. -/
theorem absent_below_file (fs : Fs) {p : Path} {n : Node} (h : fs.node p = some n)
    (hkind : n.kind ≠ .directory) (name : String) (rest : Path) :
    fs.node (p ++ name :: rest) = none := by
  have hname : fs.node (p ++ [name]) = none := by
    by_contra hsome
    obtain ⟨n', hn', hdirectory⟩ := fs.closed p name hsome
    rw [h] at hn'
    cases hn'
    exact hkind hdirectory
  have hrest := fs.absent_below hname rest
  rwa [List.append_assoc] at hrest

end Fs

/-! ## Trees that are being filled -/

/-- A tree of directories and files: every file in `written` is complete, `opened` is a new
empty file, and nothing else is there but directories. -/
structure Filled (directory : Path → Prop) (tree : Path → Option Node) (opened : Option Path)
    (written : List (Path × List UInt8)) : Prop where
  root : ∃ n, tree [] = some n ∧ n.kind = .directory
  only : ∀ p n, tree p = some n → (n.kind = .directory ∧ directory p) ∨
    (n.kind = .file ∧ (opened = some p ∨ ∃ bytes, (p, bytes) ∈ written))
  files : ∀ p bytes, (p, bytes) ∈ written →
    ∃ n, tree p = some n ∧ n.kind = .file ∧ n.bytes = bytes
  empty : ∀ p, opened = some p → ∃ n, tree p = some n ∧ n.kind = .file ∧ n.bytes = []
  fresh : ∀ p, opened = some p → ∀ bytes, (p, bytes) ∉ written

namespace Filled

variable {directory : Path → Prop} {tree : Path → Option Node} {opened : Option Path}
  {written : List (Path × List UInt8)} {p : Path} {n : Node}

theorem start (hroot : tree [] = some n) (hkind : n.kind = .directory) (hdirectory : directory [])
    (hnone : ∀ p, p ≠ [] → tree p = none) : Filled directory tree none [] where
  root := ⟨n, hroot, hkind⟩
  only := by
    intro p n' hp
    by_cases hempty : p = []
    · subst hempty
      rw [hroot] at hp
      cases hp
      exact .inl ⟨hkind, hdirectory⟩
    · rw [hnone p hempty] at hp
      cases hp
  files := by simp
  empty := by simp
  fresh := by simp

/-- A new entry moves no other. -/
theorem update_other (h : tree p = none) {q : Path} {m : Node} (hq : tree q = some m) :
    Function.update tree p (some n) q = some m := by
  have hne : q ≠ p := by
    intro heq
    rw [heq, h] at hq
    cases hq
  rw [Function.update_of_ne hne, hq]

theorem mkdir (h : Filled directory tree opened written) (hp : tree p = none)
    (hkind : n.kind = .directory) (hdirectory : directory p) :
    Filled directory (Function.update tree p (some n)) opened written where
  root := by
    obtain ⟨m, hm, hmkind⟩ := h.root
    exact ⟨m, update_other hp hm, hmkind⟩
  only := by
    intro q m hq
    by_cases heq : q = p
    · subst heq
      rw [Function.update_self] at hq
      cases hq
      exact .inl ⟨hkind, hdirectory⟩
    · rw [Function.update_of_ne heq] at hq
      exact h.only q m hq
  files := by
    intro q bytes hq
    obtain ⟨m, hm, hfile⟩ := h.files q bytes hq
    exact ⟨m, update_other hp hm, hfile⟩
  empty := by
    intro q hq
    obtain ⟨m, hm, hfile⟩ := h.empty q hq
    exact ⟨m, update_other hp hm, hfile⟩
  fresh := h.fresh

/-- Kind and content are all that counts. -/
theorem chmod (h : Filled directory tree opened written) (hp : tree p = some n) {n' : Node}
    (hkind : n'.kind = n.kind) (hbytes : n'.bytes = n.bytes) :
    Filled directory (Function.update tree p (some n')) opened written := by
  have hsame : ∀ q m, tree q = some m → ∃ m', Function.update tree p (some n') q = some m' ∧
      m'.kind = m.kind ∧ m'.bytes = m.bytes := by
    intro q m hq
    by_cases heq : q = p
    · subst heq
      rw [hp] at hq
      cases hq
      exact ⟨n', Function.update_self .., hkind, hbytes⟩
    · exact ⟨m, by rw [Function.update_of_ne heq, hq], rfl, rfl⟩
  constructor
  · obtain ⟨m, hm, hmkind⟩ := h.root
    obtain ⟨m', hm', hkind', _⟩ := hsame _ m hm
    exact ⟨m', hm', hkind'.trans hmkind⟩
  · intro q m hq
    by_cases heq : q = p
    · subst heq
      rw [Function.update_self] at hq
      cases hq
      rw [hkind]
      exact h.only q n hp
    · rw [Function.update_of_ne heq] at hq
      exact h.only q m hq
  · intro q bytes hq
    obtain ⟨m, hm, hfile, hcontent⟩ := h.files q bytes hq
    obtain ⟨m', hm', hkind', hbytes'⟩ := hsame _ m hm
    exact ⟨m', hm', hkind'.trans hfile, hbytes'.trans hcontent⟩
  · intro q hq
    obtain ⟨m, hm, hfile, hcontent⟩ := h.empty q hq
    obtain ⟨m', hm', hkind', hbytes'⟩ := hsame _ m hm
    exact ⟨m', hm', hkind'.trans hfile, hbytes'.trans hcontent⟩
  · exact h.fresh

theorem openFile (h : Filled directory tree none written) (hp : tree p = none)
    (hkind : n.kind = .file) (hbytes : n.bytes = []) :
    Filled directory (Function.update tree p (some n)) (some p) written where
  root := by
    obtain ⟨m, hm, hmkind⟩ := h.root
    exact ⟨m, update_other hp hm, hmkind⟩
  only := by
    intro q m hq
    by_cases heq : q = p
    · subst heq
      rw [Function.update_self] at hq
      cases hq
      exact .inr ⟨hkind, .inl rfl⟩
    · rw [Function.update_of_ne heq] at hq
      rcases h.only q m hq with hdirectory | hfile
      · exact .inl hdirectory
      · exact .inr ⟨hfile.1, .inr (by simpa using hfile.2)⟩
  files := by
    intro q bytes hq
    obtain ⟨m, hm, hfile⟩ := h.files q bytes hq
    exact ⟨m, update_other hp hm, hfile⟩
  empty := by
    intro q hq
    cases hq
    exact ⟨n, Function.update_self .., hkind, hbytes⟩
  fresh := by
    intro q hq bytes hmem
    cases hq
    obtain ⟨m, hm, _⟩ := h.files _ _ hmem
    rw [hp] at hm
    cases hm

theorem write (h : Filled directory tree (some p) written) (hkind : n.kind = .file) :
    Filled directory (Function.update tree p (some n)) none (written ++ [(p, n.bytes)]) where
  root := by
    obtain ⟨m, hm, hmkind⟩ := h.root
    have hne : [] ≠ p := by
      intro heq
      obtain ⟨m', hm', hfile, _⟩ := h.empty p rfl
      rw [← heq, hm] at hm'
      cases hm'
      rw [hmkind] at hfile
      cases hfile
    exact ⟨m, by rw [Function.update_of_ne hne, hm], hmkind⟩
  only := by
    intro q m hq
    by_cases heq : q = p
    · subst heq
      rw [Function.update_self] at hq
      cases hq
      exact .inr ⟨hkind, .inr ⟨_, List.mem_append_right _ List.mem_cons_self⟩⟩
    · rw [Function.update_of_ne heq] at hq
      rcases h.only q m hq with hdirectory | ⟨hfile, hopened | ⟨bytes, hmem⟩⟩
      · exact .inl hdirectory
      · cases hopened
        exact absurd rfl heq
      · exact .inr ⟨hfile, .inr ⟨bytes, List.mem_append_left _ hmem⟩⟩
  files := by
    intro q bytes hmem
    rcases List.mem_append.mp hmem with hold | hnew
    · have hne : q ≠ p := by
        intro heq
        subst heq
        exact h.fresh q rfl bytes hold
      rw [Function.update_of_ne hne]
      exact h.files q bytes hold
    · simp only [List.mem_singleton, Prod.mk.injEq] at hnew
      obtain ⟨rfl, rfl⟩ := hnew
      exact ⟨n, Function.update_self .., hkind, rfl⟩
  empty := by simp
  fresh := by simp

end Filled

end Invokrum.FileSystem
