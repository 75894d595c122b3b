import Invokrum.Base.Text

/-!
# A file system of inodes and links

Entries name inodes, and an inode may have several entries or none. A place is
a list of names below the root directory, without symbolic links; a path is
what a program passes to a call, and is resolved link by link. The times of an
inode count its changes: only their equality is ever used.
-/

namespace Invokrum.Inodes

open Text (Bytes)

abbrev Name := Bytes

abbrev Place := List Name

inductive Component where
  | rootDir
  | curDir
  | parentDir
  | normal (name : Name)
deriving DecidableEq

abbrev PathBuf := List Component

/-- The absolute path that spells out a place. -/
def absolute (p : Place) : PathBuf := .rootDir :: p.map .normal

/-- `path.parent()`: a single name has the empty path for its parent. -/
def pathParent (path : PathBuf) : Option PathBuf :=
  match path.getLast? with
  | none | some .rootDir => none
  | some _ => some path.dropLast

/-- `path.file_name()` -/
def pathFileName (path : PathBuf) : Option Name :=
  match path.getLast? with
  | some (.normal name) => some name
  | _ => none

inductive Kind where
  | file
  | directory
  | symlink
  | other
deriving DecidableEq

inductive Content where
  | file (bytes : Bytes)
  | directory
  | symlink (target : PathBuf)
  | other
deriving DecidableEq

def Content.kind : Content → Kind
  | .file _ => .file
  | .directory => .directory
  | .symlink _ => .symlink
  | .other => .other

/-- The bytes of a regular file. -/
def Content.bytes : Content → Bytes
  | .file bytes => bytes
  | _ => []

structure Inode where
  content : Content
  device : Nat
  mode : Nat
  links : Nat
  mtime : Nat
  ctime : Nat
deriving DecidableEq

theorem Content.eq_file {c : Content} (h : c.kind = .file) : c = .file c.bytes := by
  cases c <;> first | rfl | cases h

/-- A new content of a regular file; anything else stays. -/
def Inode.rewrite (f : Bytes → Bytes) (n : Inode) : Inode :=
  match n.content with
  | .file bytes =>
      { n with content := .file (f bytes), mtime := n.mtime + 1, ctime := n.ctime + 1 }
  | _ => n

theorem Inode.rewrite_kind (f : Bytes → Bytes) (n : Inode) :
    (Inode.rewrite f n).content.kind = n.content.kind := by
  cases hcontent : n.content <;> simp [Inode.rewrite, hcontent, Content.kind]

/-- What a `stat` call returns. -/
structure Metadata where
  kind : Kind
  length : Nat
  device : Nat
  inode : Nat
  mode : Nat
  links : Nat
  mtime : Nat
  ctime : Nat
deriving DecidableEq

inductive IoError where
  | notFound
  | permissionDenied
  | alreadyExists
  | other
deriving DecidableEq

/-- Entries stand in directories, and inode numbers from `next` on are unused. -/
structure Disk where
  entry : Place → Option Nat
  inode : Nat → Inode
  next : Nat
  closed : ∀ p name, entry (p ++ [name]) ≠ none →
    ∃ i, entry p = some i ∧ (inode i).content = .directory
  fresh : ∀ p i, entry p = some i → i < next

namespace Disk

variable {d : Disk} {p q : Place} {i : Nat}

def stat (d : Disk) (i : Nat) : Metadata where
  kind := (d.inode i).content.kind
  length := (d.inode i).content.bytes.length
  device := (d.inode i).device
  inode := i
  mode := (d.inode i).mode
  links := (d.inode i).links
  mtime := (d.inode i).mtime
  ctime := (d.inode i).ctime

def IsDirectory (d : Disk) (p : Place) : Prop :=
  ∃ i, d.entry p = some i ∧ (d.inode i).content = .directory

instance (d : Disk) (p : Place) : Decidable (d.IsDirectory p) :=
  match h : d.entry p with
  | none => .isFalse (by simp [IsDirectory, h])
  | some i => decidable_of_iff ((d.inode i).content = .directory) (by simp [IsDirectory, h])

theorem IsDirectory.entry_ne_none (h : d.IsDirectory p) : d.entry p ≠ none := by
  obtain ⟨i, hi, _⟩ := h
  rw [hi]
  exact Option.some_ne_none i

/-- Below what is no directory there is nothing. -/
theorem absent_below (h : ¬ d.IsDirectory p) {rest : Place} (hne : rest ≠ []) :
    d.entry (p ++ rest) = none := by
  induction rest using List.reverseRecOn with
  | nil => exact absurd rfl hne
  | append_singleton rest name ih =>
      by_contra hsome
      rw [← List.append_assoc] at hsome
      have hdir : d.IsDirectory (p ++ rest) := d.closed _ _ hsome
      by_cases hrest : rest = []
      · rw [hrest, List.append_nil] at hdir
        exact h hdir
      · exact hdir.entry_ne_none (ih hrest)

/-! ## Resolving paths -/

/-- One pass over a path; `link` goes on behind a symbolic link. -/
def walk (d : Disk) (follow : Bool) (link : Place → PathBuf → Except IoError Place) :
    Place → PathBuf → Except IoError Place
  | cur, [] => if d.entry cur = none then .error .notFound else .ok cur
  | _, .rootDir :: rest => d.walk follow link [] rest
  | cur, .curDir :: rest => d.walk follow link cur rest
  | cur, .parentDir :: rest => d.walk follow link cur.dropLast rest
  | cur, .normal name :: rest =>
      if d.IsDirectory cur then
        match d.entry (cur ++ [name]) with
        | none => .error .notFound
        | some i =>
            match (d.inode i).content with
            | .symlink target =>
                if rest = [] ∧ follow = false then .ok (cur ++ [name])
                else link cur (target ++ rest)
            | _ => d.walk follow link (cur ++ [name]) rest
      else if d.entry cur = none then .error .notFound
      else .error .other

section

-- Makes the equations of `walk` here, once, before the proofs that ask for them.
attribute [local simp] walk

end

/-- Resolution through at most as many symbolic links as the fuel says. -/
def resolve (d : Disk) (follow : Bool) : Nat → Place → PathBuf → Except IoError Place
  | 0 => d.walk follow fun _ _ => .error .other
  | fuel + 1 => d.walk follow fun cur rest => d.resolve follow fuel cur rest

/-- Something other than a symbolic link stands there, or nothing does. -/
def NoLink (d : Disk) (p : Place) : Prop :=
  ∀ i, d.entry p = some i → (d.inode i).content.kind ≠ .symlink

def maxLinks : Nat := 40

/-- The place of a path that a process in the directory `cwd` passes. -/
def lookup (d : Disk) (cwd : Place) (follow : Bool) (path : PathBuf) : Except IoError Place :=
  if path = [] then .error .notFound
  else if path.head? = some .rootDir ∨ d.IsDirectory cwd then
    d.resolve follow maxLinks cwd path
  else .error .notFound

/-- The place a new entry would get: everything but the last name is resolved. -/
def locate (d : Disk) (cwd : Place) (path : PathBuf) : Except IoError Place :=
  match path.getLast? with
  | some (.normal name) =>
      match d.lookup cwd true (if path.dropLast = [] then [.curDir] else path.dropLast) with
      | .ok directory =>
          if d.IsDirectory directory then .ok (directory ++ [name]) else .error .other
      | .error e => .error e
  | _ => .error .other

/-! ## Real places -/

/-- Whatever lies below a place makes it a directory. -/
theorem isDirectory_of_below {rest : Place} (h : d.entry (p ++ rest) ≠ none) (hne : rest ≠ []) :
    d.IsDirectory p := by
  by_contra hdir
  exact h (absent_below hdir hne)

variable {cwd cur : Place} {names : List Name} {follow : Bool}
  {link : Place → PathBuf → Except IoError Place}

theorem walk_nil (h : d.entry cur ≠ none) : d.walk follow link cur [] = .ok cur := by
  rw [walk, if_neg h]

theorem walk_cons_normal {name : Name} {rest : PathBuf} (hdir : d.IsDirectory cur)
    (hentry : d.entry (cur ++ [name]) = some i) (hlink : (d.inode i).content.kind ≠ .symlink) :
    d.walk follow link cur (.normal name :: rest) = d.walk follow link (cur ++ [name]) rest := by
  rw [walk, if_pos hdir, hentry]
  cases hcontent : (d.inode i).content with
  | symlink target => simp [hcontent, Content.kind] at hlink
  | file bytes => simp [hcontent]
  | directory => simp [hcontent]
  | other => simp [hcontent]

/-- The walk through directories. -/
theorem walk_append {rest : PathBuf} (hdir : d.IsDirectory (cur ++ names)) :
    d.walk follow link cur (names.map .normal ++ rest) =
      d.walk follow link (cur ++ names) rest := by
  induction names generalizing cur with
  | nil => rw [List.map_nil, List.nil_append, List.append_nil]
  | cons name names ih =>
      have hcur : d.IsDirectory cur :=
        isDirectory_of_below hdir.entry_ne_none (List.cons_ne_nil name names)
      rw [← List.singleton_append, ← List.append_assoc] at hdir ⊢
      obtain ⟨j, hj, hcontent⟩ : d.IsDirectory (cur ++ [name]) := by
        by_cases hnames : names = []
        · rwa [hnames, List.append_nil] at hdir
        · exact isDirectory_of_below hdir.entry_ne_none hnames
      rw [List.map_append, List.map_singleton, List.singleton_append, List.cons_append,
        walk_cons_normal hcur hj (by simp [hcontent, Content.kind])]
      exact ih hdir

/-- The path that spells out a place leads there. -/
theorem walk_place (hentry : d.entry (cur ++ names) = some i)
    (hlink : follow = false ∨ (d.inode i).content.kind ≠ .symlink) :
    d.walk follow link cur (names.map .normal) = .ok (cur ++ names) := by
  have hsome : d.entry (cur ++ names) ≠ none := by
    rw [hentry]
    exact Option.some_ne_none i
  rcases List.eq_nil_or_concat names with rfl | ⟨front, name, rfl⟩
  · rw [List.append_nil] at hsome ⊢
    exact walk_nil hsome
  · rw [List.concat_eq_append, ← List.append_assoc] at hentry hsome ⊢
    have hdir : d.IsDirectory (cur ++ front) :=
      isDirectory_of_below hsome (List.cons_ne_nil name [])
    rw [List.map_append, walk_append hdir, List.map_singleton, walk, if_pos hdir, hentry]
    cases hcontent : (d.inode i).content with
    | symlink target =>
        rcases hlink with hfollow | hkind
        · simp [hcontent, hfollow]
        · simp [hcontent, Content.kind] at hkind
    | file bytes => simp only [hcontent, walk_nil hsome]
    | directory => simp only [hcontent, walk_nil hsome]
    | other => simp only [hcontent, walk_nil hsome]

/-- A missing name in a directory. -/
theorem walk_missing {name : Name} (hdir : d.IsDirectory (cur ++ names))
    (hentry : d.entry (cur ++ names ++ [name]) = none) :
    d.walk follow link cur ((names ++ [name]).map .normal) = .error .notFound := by
  rw [List.map_append, walk_append hdir, List.map_singleton, walk, if_pos hdir, hentry]

/-- A walk ends at an entry. -/
theorem walk_entry {path : PathBuf}
    (hlink : ∀ cur path, link cur path = .ok p → d.entry p ≠ none)
    (h : d.walk follow link cur path = .ok p) : d.entry p ≠ none := by
  induction path generalizing cur with
  | nil =>
      rw [walk] at h
      split at h
      · cases h
      · next hne =>
          cases h
          exact hne
  | cons component path ih =>
      cases component with
      | rootDir => exact ih h
      | curDir => exact ih h
      | parentDir => exact ih h
      | normal name =>
          rw [walk] at h
          split at h
          · split at h
            · cases h
            · next i hi =>
                split at h
                · split at h
                  · cases h
                    rw [hi]
                    exact Option.some_ne_none i
                  · exact hlink _ _ h
                · exact ih h
          · split at h <;> cases h

theorem resolve_entry {fuel : Nat} {path : PathBuf}
    (h : d.resolve follow fuel cur path = .ok p) : d.entry p ≠ none := by
  induction fuel generalizing cur path with
  | zero =>
      apply walk_entry _ h
      intro cur path hlink
      cases hlink
  | succ fuel ih => exact walk_entry (fun cur path hlink => ih hlink) h

theorem lookup_entry {path : PathBuf} (h : d.lookup cwd follow path = .ok p) :
    d.entry p ≠ none := by
  unfold lookup at h
  split_ifs at h
  exact resolve_entry h

/-- A path that spells out a place without links leads there or nowhere. -/
theorem walk_noLink (hlink : ∀ front, front ≠ [] → front <+: names → d.NoLink (cur ++ front))
    (h : d.walk follow link cur (names.map .normal) = .ok p) : p = cur ++ names := by
  induction names generalizing cur with
  | nil =>
      rw [List.map_nil, walk] at h
      split at h
      · cases h
      · cases h
        rw [List.append_nil]
  | cons name names ih =>
      rw [List.map_cons] at h
      by_cases hdir : d.IsDirectory cur
      · cases hentry : d.entry (cur ++ [name]) with
        | none =>
            rw [walk, if_pos hdir, hentry] at h
            cases h
        | some i =>
            have hkind := hlink [name] (by simp) (by simp) i hentry
            rw [walk_cons_normal hdir hentry hkind] at h
            have hrest := ih (fun front hne hfront => by
              rw [List.append_assoc]
              exact hlink ([name] ++ front) (by simp)
                ((List.prefix_append_right_inj [name]).mpr hfront)) h
            rw [hrest, List.append_assoc, List.singleton_append]
      · rw [walk, if_neg hdir] at h
        split at h <;> cases h

theorem resolve_eq_walk (d : Disk) (follow : Bool) (fuel : Nat) : ∃ link, ∀ cur path,
    d.resolve follow fuel cur path = d.walk follow link cur path := by
  cases fuel with
  | zero => exact ⟨_, fun _ _ => rfl⟩
  | succ fuel => exact ⟨_, fun _ _ => rfl⟩

theorem lookup_absolute (d : Disk) (cwd p : Place) (follow : Bool) : ∃ link,
    d.lookup cwd follow (absolute p) = d.walk follow link [] (p.map .normal) := by
  obtain ⟨link, hlink⟩ := resolve_eq_walk d follow maxLinks
  refine ⟨link, ?_⟩
  rw [lookup, absolute, if_neg (by simp), if_pos (by simp), hlink, walk]

theorem lookup_place (hentry : d.entry p = some i)
    (hlink : follow = false ∨ (d.inode i).content.kind ≠ .symlink) :
    d.lookup cwd follow (absolute p) = .ok p := by
  obtain ⟨link, hlookup⟩ := lookup_absolute d cwd p follow
  rw [hlookup, walk_place (by rwa [List.nil_append]) hlink, List.nil_append]

theorem lookup_missing {name : Name} (hdir : d.IsDirectory p)
    (hentry : d.entry (p ++ [name]) = none) :
    d.lookup cwd follow (absolute (p ++ [name])) = .error .notFound := by
  obtain ⟨link, hlookup⟩ := lookup_absolute d cwd (p ++ [name]) follow
  rw [hlookup]
  exact walk_missing (by rwa [List.nil_append]) (by rwa [List.nil_append])

/-- A relative path needs the current directory. -/
theorem cwd_of_lookup {path : PathBuf} (h : d.lookup cwd follow path = .ok p) :
    path.head? = some .rootDir ∨ d.IsDirectory cwd := by
  unfold lookup at h
  split_ifs at h with _ hcwd
  exact hcwd

/-- A lookup below the root needs a root directory. -/
theorem root_of_lookup (hne : p ≠ []) (h : d.lookup cwd follow (absolute p) = .ok q) :
    d.IsDirectory [] := by
  obtain ⟨link, hlookup⟩ := lookup_absolute d cwd p follow
  rw [hlookup] at h
  cases p with
  | nil => exact absurd rfl hne
  | cons name p =>
      by_contra hroot
      rw [List.map_cons, walk, if_neg hroot] at h
      split at h <;> cases h

/-- Without links on its way, an absolute path is looked up at its place. -/
theorem lookup_noLink (hlink : ∀ front, front ≠ [] → front <+: p → d.NoLink front)
    (h : d.lookup cwd follow (absolute p) = .ok q) : q = p := by
  obtain ⟨link, hlookup⟩ := lookup_absolute d cwd p follow
  rw [hlookup] at h
  rw [walk_noLink (fun front hne hfront => by
    rw [List.nil_append]
    exact hlink front hne hfront) h, List.nil_append]

theorem locate_place {name : Name} (hdir : d.IsDirectory p) :
    d.locate cwd (absolute (p ++ [name])) = .ok (p ++ [name]) := by
  obtain ⟨i, hi, hcontent⟩ := hdir
  have hpath : absolute (p ++ [name]) = absolute p ++ [.normal name] := by
    simp [absolute]
  have hne : absolute p ≠ [] := by simp [absolute]
  have hlookup : d.lookup cwd true (absolute p) = .ok p :=
    lookup_place hi (.inr (by simp [hcontent, Content.kind]))
  simp [locate, hpath, hne, hlookup, show d.IsDirectory p from ⟨i, hi, hcontent⟩]

/-! ## Updates -/

theorem eq_dropLast_of_concat {name : Name} (h : q ++ [name] = p) : q = p.dropLast := by
  rw [← h, List.dropLast_concat]

theorem concat_ne_self {name : Name} : q ≠ q ++ [name] := by
  intro heq
  have hlength := congrArg List.length heq
  simp at hlength

/-- A new inode with one entry. -/
def create (d : Disk) (p : Place) (inode : Inode) (hparent : d.IsDirectory p.dropLast)
    (habsent : d.entry p = none) : Disk where
  entry := Function.update d.entry p (some d.next)
  inode := Function.update d.inode d.next inode
  next := d.next + 1
  closed := by
    intro q name hq
    have hold : d.IsDirectory q → ∃ i, Function.update d.entry p (some d.next) q = some i ∧
        (Function.update d.inode d.next inode i).content = .directory := by
      rintro ⟨i, hi, hcontent⟩
      have hne : q ≠ p := by
        rintro rfl
        rw [habsent] at hi
        cases hi
      refine ⟨i, by rw [Function.update_of_ne hne, hi], ?_⟩
      rwa [Function.update_of_ne (Nat.ne_of_lt (d.fresh q i hi))]
    by_cases hp : q ++ [name] = p
    · rw [← eq_dropLast_of_concat hp] at hparent
      exact hold hparent
    · rw [Function.update_of_ne hp] at hq
      exact hold (d.closed q name hq)
  fresh := by
    intro q i hq
    by_cases hp : q = p
    · subst hp
      rw [Function.update_self, Option.some.injEq] at hq
      omega
    · rw [Function.update_of_ne hp] at hq
      exact Nat.lt_succ_of_lt (d.fresh q i hq)

/-- Another entry of an inode. -/
def point (d : Disk) (p : Place) (j : Nat) (hparent : d.IsDirectory p.dropLast)
    (habsent : d.entry p = none) (hj : j < d.next) : Disk where
  entry := Function.update d.entry p (some j)
  inode := d.inode
  next := d.next
  closed := by
    intro q name hq
    have hold : d.IsDirectory q → ∃ i, Function.update d.entry p (some j) q = some i ∧
        (d.inode i).content = .directory := by
      rintro ⟨i, hi, hcontent⟩
      have hne : q ≠ p := by
        rintro rfl
        rw [habsent] at hi
        cases hi
      exact ⟨i, by rw [Function.update_of_ne hne, hi], hcontent⟩
    by_cases hp : q ++ [name] = p
    · rw [← eq_dropLast_of_concat hp] at hparent
      exact hold hparent
    · rw [Function.update_of_ne hp] at hq
      exact hold (d.closed q name hq)
  fresh := by
    intro q i hq
    by_cases hp : q = p
    · subst hp
      rw [Function.update_self, Option.some.injEq] at hq
      omega
    · rw [Function.update_of_ne hp] at hq
      exact d.fresh q i hq

/-- An entry disappears; its inode stays. -/
def clear (d : Disk) (p : Place) (hempty : ∀ name, d.entry (p ++ [name]) = none) : Disk where
  entry := Function.update d.entry p none
  inode := d.inode
  next := d.next
  closed := by
    intro q name hq
    by_cases hp : q ++ [name] = p
    · rw [hp, Function.update_self] at hq
      exact absurd rfl hq
    · rw [Function.update_of_ne hp] at hq
      obtain ⟨i, hi, hcontent⟩ := d.closed q name hq
      have hne : q ≠ p := by
        rintro rfl
        exact hq (hempty name)
      exact ⟨i, by rw [Function.update_of_ne hne, hi], hcontent⟩
  fresh := by
    intro q i hq
    by_cases hp : q = p
    · rw [hp, Function.update_self] at hq
      cases hq
    · rw [Function.update_of_ne hp] at hq
      exact d.fresh q i hq

/-- What stood at `src`, and everything below it, stands at `dst`. -/
def moved (d : Disk) (src dst q : Place) : Option Nat :=
  if dst <+: q then d.entry (src ++ q.drop dst.length)
  else if src <+: q then none
  else d.entry q

def move (d : Disk) (src dst : Place) (hparent : d.IsDirectory dst.dropLast)
    (hinside : ¬ src <+: dst) : Disk where
  entry := d.moved src dst
  inode := d.inode
  next := d.next
  closed := by
    intro q name hq
    unfold moved at hq ⊢
    by_cases hdst : dst <+: q
    · have hlong : dst <+: q ++ [name] := hdst.trans (List.prefix_append q [name])
      rw [if_pos hlong, List.drop_append_of_le_length hdst.length_le, ← List.append_assoc] at hq
      rw [if_pos hdst]
      exact d.closed _ name hq
    · rw [if_neg hdst]
      by_cases hlong : dst <+: q ++ [name]
      · have hsame : q ++ [name] = dst := by
          rw [List.prefix_concat_iff] at hlong
          exact (hlong.resolve_right hdst).symm
        have hsrc : ¬ src <+: q := by
          intro hstarts
          exact hinside (hsame ▸ hstarts.trans (List.prefix_append q [name]))
        rw [if_neg hsrc]
        rw [← eq_dropLast_of_concat hsame] at hparent
        exact hparent
      · rw [if_neg hlong] at hq
        by_cases hsrc : src <+: q ++ [name]
        · rw [if_pos hsrc] at hq
          exact absurd rfl hq
        · rw [if_neg hsrc] at hq
          have hsrc' : ¬ src <+: q := by
            intro hstarts
            exact hsrc (hstarts.trans (List.prefix_append q [name]))
          rw [if_neg hsrc']
          exact d.closed q name hq
  fresh := by
    intro q i hq
    unfold moved at hq
    split at hq
    · exact d.fresh _ i hq
    · split at hq
      · cases hq
      · exact d.fresh q i hq

/-- A change of an inode that keeps its kind. -/
def change (d : Disk) (j : Nat) (f : Inode → Inode)
    (hf : ∀ n, (f n).content.kind = n.content.kind) : Disk where
  entry := d.entry
  inode := Function.update d.inode j (f (d.inode j))
  next := d.next
  closed := by
    intro q name hq
    obtain ⟨i, hi, hcontent⟩ := d.closed q name hq
    refine ⟨i, hi, ?_⟩
    by_cases hj : i = j
    · subst hj
      have hkind := hf (d.inode i)
      rw [hcontent] at hkind
      rw [Function.update_self]
      cases hnew : (f (d.inode i)).content <;> simp [hnew, Content.kind] at hkind ⊢
    · rwa [Function.update_of_ne hj]
  fresh := d.fresh

/-! ## Operations -/

/-- The change time moves on, and the link count as `f` says. -/
def relink (d : Disk) (j : Nat) (f : Nat → Nat) : Disk :=
  d.change j (fun n => { n with links := f n.links, ctime := n.ctime + 1 }) fun _ => rfl

def rewrite (d : Disk) (j : Nat) (f : Bytes → Bytes) : Disk :=
  d.change j (Inode.rewrite f) (Inode.rewrite_kind f)

/-- `open` with `O_CREAT | O_EXCL`. -/
def createNew (d : Disk) (p : Place) (inode : Inode) : Except IoError (Nat × Disk) :=
  if habsent : d.entry p = none then
    if hparent : d.IsDirectory p.dropLast then .ok (d.next, d.create p inode hparent habsent)
    else .error .notFound
  else .error .alreadyExists

/-- `link` -/
def hardLink (d : Disk) (src dst : Place) : Except IoError Disk :=
  match hsrc : d.entry src with
  | none => .error .notFound
  | some j =>
      if d.IsDirectory src then .error .other
      else if habsent : d.entry dst = none then
        if hparent : d.IsDirectory dst.dropLast then
          .ok ((d.point dst j hparent habsent (d.fresh src j hsrc)).relink j (· + 1))
        else .error .notFound
      else .error .alreadyExists

/-- `unlink` -/
def removeFile (d : Disk) (p : Place) : Except IoError Disk :=
  match d.entry p with
  | none => .error .notFound
  | some j =>
      if hdir : d.IsDirectory p then .error .other
      else .ok ((d.clear p fun name => absent_below hdir (List.cons_ne_nil name [])).relink j
        (· - 1))

/-- What a rename does to the inode that stood at its destination. -/
def replaced (d : Disk) (p : Place) : Disk :=
  match d.entry p with
  | none => d
  | some k => d.relink k (· - 1)

theorem replaced_entry (d : Disk) (p : Place) : (d.replaced p).entry = d.entry := by
  unfold replaced
  cases d.entry p <;> rfl

theorem relink_isDirectory {j : Nat} {f : Nat → Nat} :
    (d.relink j f).IsDirectory p ↔ d.IsDirectory p := by
  unfold IsDirectory relink change
  apply exists_congr
  intro i
  apply and_congr_right
  intro _
  by_cases hi : i = j
  · subst hi
    simp
  · simp [hi]

theorem replaced_isDirectory : (d.replaced p).IsDirectory q ↔ d.IsDirectory q := by
  unfold replaced
  cases d.entry p with
  | none => rfl
  | some k => exact relink_isDirectory

/-- `rename` of anything to a place where no directory stands. -/
def rename (d : Disk) (src dst : Place) : Except IoError Disk :=
  if d.entry src = none then .error .notFound
  else if d.entry src = d.entry dst then .ok d
  else if d.IsDirectory dst ∨ d.IsDirectory src ∧ d.entry dst ≠ none then .error .other
  else if hparent : d.IsDirectory dst.dropLast then
    if hinside : src <+: dst then .error .other
    else .ok ((d.replaced dst).move src dst (replaced_isDirectory.mpr hparent) hinside)
  else .error .notFound

/-! ## What the operations do -/

variable {d' : Disk} {src dst : Place} {inode : Inode} {j : Nat}

theorem createNew_eq_ok (h : d.createNew p inode = .ok (j, d')) :
    j = d.next ∧ d.entry p = none ∧ d.IsDirectory p.dropLast ∧ d'.next = d.next + 1 ∧
      d'.entry = Function.update d.entry p (some d.next) ∧
      d'.inode = Function.update d.inode d.next inode := by
  unfold createNew at h
  split_ifs at h with habsent hparent
  cases h
  exact ⟨rfl, habsent, hparent, rfl, rfl, rfl⟩

/-- An inode whose link count becomes `f links`. -/
def relinked (inode : Inode) (f : Nat → Nat) : Inode :=
  { inode with links := f inode.links, ctime := inode.ctime + 1 }

theorem hardLink_eq_ok (h : d.hardLink src dst = .ok d') :
    ∃ j, d.entry src = some j ∧ ¬ d.IsDirectory src ∧ d.entry dst = none ∧ d'.next = d.next ∧
      d'.entry = Function.update d.entry dst (some j) ∧
      d'.inode = Function.update d.inode j (relinked (d.inode j) (· + 1)) := by
  unfold hardLink at h
  split at h
  · cases h
  · next j hsrc =>
      split_ifs at h with hdir habsent hparent
      cases h
      exact ⟨j, hsrc, hdir, habsent, rfl, rfl, rfl⟩

theorem removeFile_eq_ok (h : d.removeFile p = .ok d') :
    ∃ j, d.entry p = some j ∧ ¬ d.IsDirectory p ∧ d'.next = d.next ∧
      d'.entry = Function.update d.entry p none ∧
      d'.inode = Function.update d.inode j (relinked (d.inode j) (· - 1)) := by
  unfold removeFile at h
  split at h
  · cases h
  · next j hp =>
      split_ifs at h with hdir
      cases h
      exact ⟨j, hp, hdir, rfl, rfl, rfl⟩

theorem removeFile_ok (hp : d.entry p = some j) (hdir : ¬ d.IsDirectory p) :
    ∃ d', d.removeFile p = .ok d' := by
  unfold removeFile
  simp only [hp]
  rw [dif_neg hdir]
  exact ⟨_, rfl⟩

theorem createNew_ok (habsent : d.entry p = none) (hparent : d.IsDirectory p.dropLast)
    (inode : Inode) : ∃ d', d.createNew p inode = .ok (d.next, d') := by
  unfold createNew
  rw [dif_pos habsent, dif_pos hparent]
  exact ⟨_, rfl⟩

theorem hardLink_ok (hsrc : d.entry src = some j) (hfile : ¬ d.IsDirectory src)
    (habsent : d.entry dst = none) (hparent : d.IsDirectory dst.dropLast) :
    ∃ d', d.hardLink src dst = .ok d' := by
  unfold hardLink
  split
  · next hnone =>
      rw [hsrc] at hnone
      cases hnone
  · rw [if_neg hfile, dif_pos habsent, dif_pos hparent]
    exact ⟨_, rfl⟩

/-- A rename to a free place. -/
theorem rename_ok (hsrc : d.entry src = some j) (habsent : d.entry dst = none)
    (hparent : d.IsDirectory dst.dropLast) (hinside : ¬ src <+: dst) :
    ∃ d', d.rename src dst = .ok d' := by
  have hfree : ¬ (d.IsDirectory dst ∨ d.IsDirectory src ∧ d.entry dst ≠ none) := by
    rw [not_or]
    exact ⟨fun hdir => hdir.entry_ne_none habsent, fun h => h.2 habsent⟩
  unfold rename
  rw [if_neg (by simp [hsrc]), if_neg (by simp [hsrc, habsent]), if_neg hfree, dif_pos hparent,
    dif_neg hinside]
  exact ⟨_, rfl⟩

/-- A move between places that hold no directory touches these two entries only. -/
theorem moved_eq (hsrc : ¬ d.IsDirectory src) (hdst : ¬ d.IsDirectory dst)
    (hinside : ¬ src <+: dst) :
    d.moved src dst = Function.update (Function.update d.entry src none) dst (d.entry src) := by
  have hne : src ≠ dst := by
    rintro rfl
    exact hinside (List.prefix_refl src)
  funext q
  unfold moved
  by_cases hq : dst <+: q
  · obtain ⟨rest, rfl⟩ := hq
    rw [if_pos (List.prefix_append dst rest), List.drop_left]
    by_cases hrest : rest = []
    · subst hrest
      rw [List.append_nil, List.append_nil, Function.update_self]
    · have hbelow : dst ++ rest ≠ dst := by simpa using hrest
      rw [absent_below hsrc hrest, Function.update_of_ne hbelow]
      by_cases hsame : dst ++ rest = src
      · rw [hsame, Function.update_self]
      · rw [Function.update_of_ne hsame, absent_below hdst hrest]
  · have hqd : q ≠ dst := by
      rintro rfl
      exact hq (List.prefix_refl _)
    rw [if_neg hq, Function.update_of_ne hqd]
    by_cases hqs : src <+: q
    · obtain ⟨rest, rfl⟩ := hqs
      rw [if_pos (List.prefix_append src rest)]
      by_cases hrest : rest = []
      · subst hrest
        rw [List.append_nil, Function.update_self]
      · have hbelow : src ++ rest ≠ src := by simpa using hrest
        rw [Function.update_of_ne hbelow, absent_below hsrc hrest]
    · have hqne : q ≠ src := by
        rintro rfl
        exact hqs (List.prefix_refl _)
      rw [if_neg hqs, Function.update_of_ne hqne]

/-- A rename of a file over nothing or over a file. -/
theorem rename_eq_ok (hsrc : ¬ d.IsDirectory src) (hother : d.entry src ≠ d.entry dst)
    (h : d.rename src dst = .ok d') :
    d.entry src ≠ none ∧ ¬ d.IsDirectory dst ∧ d'.next = d.next ∧
      d'.entry = Function.update (Function.update d.entry src none) dst (d.entry src) ∧
      d'.inode = (d.replaced dst).inode := by
  unfold rename at h
  split_ifs at h with hnone hdir hparent hinside
  cases h
  rw [not_or] at hdir
  refine ⟨hnone, hdir.1, ?_, ?_, rfl⟩
  · show (d.replaced dst).next = d.next
    unfold replaced
    cases d.entry dst <;> rfl
  · show (d.replaced dst).moved src dst = _
    rw [moved_eq (replaced_isDirectory.not.mpr hsrc) (replaced_isDirectory.not.mpr hdir.1)
      hinside, replaced_entry]

end Disk

/-! ## Finite disks -/

/-- The entry of a place in a list of places with their inodes. -/
def entryOf (l : List (Place × Inode)) (p : Place) : Option Nat := l.findIdx? fun e => e.1 == p

def absentInode : Inode := ⟨.other, 0, 0, 0, 0, 0⟩

def inodeOf (l : List (Place × Inode)) (i : Nat) : Inode := (l[i]?.map (·.2)).getD absentInode

/-- All entries stand in directories of the list. -/
def Rooted (l : List (Place × Inode)) : Prop :=
  ∀ e ∈ l, e.1 = [] ∨
    (entryOf l e.1.dropLast).map (fun i => (inodeOf l i).content) = some .directory

instance (l : List (Place × Inode)) : Decidable (Rooted l) :=
  inferInstanceAs (Decidable (∀ e ∈ l, e.1 = [] ∨
    (entryOf l e.1.dropLast).map (fun i => (inodeOf l i).content) = some .directory))

theorem entryOf_mem {l : List (Place × Inode)} {p : Place} {i : Nat} (h : entryOf l p = some i) :
    i < l.length ∧ ∃ n, (p, n) ∈ l := by
  rw [entryOf, List.findIdx?_eq_some_iff_getElem] at h
  obtain ⟨hi, hp, _⟩ := h
  refine ⟨hi, l[i].2, ?_⟩
  rw [← beq_iff_eq.mp hp]
  exact List.getElem_mem hi

theorem entryOf_closed {l : List (Place × Inode)} (hl : Rooted l) (p : Place) (name : Name)
    (h : entryOf l (p ++ [name]) ≠ none) :
    ∃ i, entryOf l p = some i ∧ (inodeOf l i).content = .directory := by
  obtain ⟨j, hj⟩ := Option.ne_none_iff_exists'.mp h
  obtain ⟨_, n, hmem⟩ := entryOf_mem hj
  have hparent := (hl _ hmem).resolve_left (by simp)
  rw [List.dropLast_concat] at hparent
  exact Option.map_eq_some_iff.mp hparent

/-- A disk with finitely many entries, each with an inode of its own. -/
def Disk.ofList (l : List (Place × Inode)) (hl : Rooted l) : Disk where
  entry := entryOf l
  inode := inodeOf l
  next := l.length
  closed := entryOf_closed hl
  fresh _ _ h := (entryOf_mem h).1

end Invokrum.Inodes
