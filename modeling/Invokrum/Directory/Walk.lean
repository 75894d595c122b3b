import Invokrum.Directory.Loader

/-!
# What the walk does on a fitting tree

When every visible entry fits the expected tree and no two logical paths share
a key, only the entry limit can end the walk. It then sees every entry below
the root once, and records every file.
-/

namespace Invokrum.Directory

open Outcome Ordered Invokrum.Distribution Invokrum.FileSystem
open Install (LocalCandidateError components)

variable {tree : Tree} {root : PinnedRoot} {expected : ExpectedTree} {α β : Type}

/-! ## Results under the entry limit -/

/-- `total` entries give a result within the limit, and the limit error above it. -/
structure WithinLimit (total : Nat) (result : Load α) (Post : α → Prop) : Prop where
  within : total ≤ maxVisibleEntries → ∃ a, result = .ok a ∧ Post a
  above : maxVisibleEntries < total → result = .error .traversalLimitExceeded

theorem WithinLimit.ok {total : Nat} {a : α} {Post : α → Prop} (h : Post a)
    (htotal : total ≤ maxVisibleEntries) : WithinLimit total (.ok a) Post where
  within _ := ⟨a, rfl, h⟩
  above habove := absurd habove (Nat.not_lt.mpr htotal)

theorem WithinLimit.mono {total : Nat} {result : Load α} {Post Post' : α → Prop}
    (h : WithinLimit total result Post) (hpost : ∀ a, Post a → Post' a) :
    WithinLimit total result Post' where
  within htotal := by
    obtain ⟨a, hresult, ha⟩ := h.within htotal
    exact ⟨a, hresult, hpost a ha⟩
  above := h.above

/-- The first part of a walk counts a part of the entries. -/
theorem WithinLimit.bind {part total : Nat} {x : Load α} {f : α → Load β} {Mid : α → Prop}
    {Post : β → Prop} (hx : WithinLimit part x Mid) (hpart : part ≤ total)
    (hf : part ≤ maxVisibleEntries → ∀ a, Mid a → WithinLimit total (f a) Post) :
    WithinLimit total (x >>= f) Post := by
  constructor
  · intro htotal
    have hfits := Nat.le_trans hpart htotal
    obtain ⟨a, rfl, ha⟩ := hx.within hfits
    exact (hf hfits a ha).within htotal
  · intro habove
    by_cases hfits : part ≤ maxVisibleEntries
    · obtain ⟨a, rfl, ha⟩ := hx.within hfits
      exact (hf hfits a ha).above habove
    · rw [hx.above (Nat.lt_of_not_le hfits)]
      rfl

theorem WithinLimit.of_ok {total : Nat} {result : Load α} {Post : α → Prop} {a : α}
    (h : WithinLimit total result Post) (hresult : result = .ok a) :
    total ≤ maxVisibleEntries ∧ Post a := by
  by_cases htotal : total ≤ maxVisibleEntries
  · obtain ⟨a', hresult', ha'⟩ := h.within htotal
    rw [hresult] at hresult'
    cases hresult'
    exact ⟨htotal, ha'⟩
  · rw [h.above (Nat.lt_of_not_le htotal)] at hresult
    cases hresult

theorem countEntries (names : List String) {entries : Nat} (h : entries ≤ maxVisibleEntries) :
    WithinLimit (entries + names.length) (names.foldlM countEntry entries)
      fun counted => counted = entries + names.length := by
  induction names generalizing entries with
  | nil => exact .ok rfl h
  | cons name names ih =>
      rw [List.foldlM_cons, List.length_cons]
      by_cases hfits : entries + 1 ≤ maxVisibleEntries
      · have hone : countEntry entries name = .ok (entries + 1) := by
          rw [countEntry, rejectIf_of_not _ (Nat.not_lt.mpr hfits)]
          rfl
        rw [hone, ok_bind]
        have hrest := ih hfits
        rw [Nat.add_assoc, Nat.add_comm 1] at hrest
        exact hrest
      · have hone : countEntry entries name = .error .traversalLimitExceeded := by
          rw [countEntry, rejectIf_of _ (Nat.lt_of_not_le hfits)]
          rfl
        rw [hone, error_bind]
        constructor
        · intro htotal
          omega
        · intro _
          rfl

/-! ## Visible paths -/

def Tree.isDirectory (tree : Tree) (path : Path) : Bool :=
  (tree.node path).any fun n => n.kind = .directory

/-- The paths below a directory, in the order of the walk. -/
def visible (tree : Tree) : Nat → Path → List Path
  | 0, _ => []
  | levels + 1, directory =>
      (sortByKey id (tree.readDir directory)).flatMap fun name =>
        (directory ++ [name]) ::
          if tree.isDirectory (directory ++ [name]) then visible tree levels (directory ++ [name])
          else []

/-- What the walk sees below one entry. -/
def visibleBelow (tree : Tree) (levels : Nat) (path : Path) : List Path :=
  if tree.isDirectory path then visible tree levels path else []

theorem visible_succ (tree : Tree) (levels : Nat) (directory : Path) :
    visible tree (levels + 1) directory = (sortByKey id (tree.readDir directory)).flatMap
      fun name => (directory ++ [name]) :: visibleBelow tree levels (directory ++ [name]) := rfl

theorem mem_visible {levels : Nat} {directory path : Path} :
    path ∈ visible tree levels directory ↔ ∃ rest, rest ≠ [] ∧ rest.length ≤ levels ∧
      path = directory ++ rest ∧ tree.node path ≠ none ∧
        ∀ front, front ≠ [] → front <+: rest → front ≠ rest →
          tree.isDirectory (directory ++ front) = true := by
  induction levels generalizing directory with
  | zero =>
      simp only [visible, List.not_mem_nil, false_iff, not_exists, not_and]
      intro rest hne hlength
      exact absurd (List.length_eq_zero_iff.mp (Nat.le_zero.mp hlength)) hne
  | succ levels ih =>
      simp only [visible_succ, List.mem_flatMap, mem_sortByKey, tree.mem_readDir, List.mem_cons]
      constructor
      · intro h
        obtain ⟨name, hname, rfl | hbelow⟩ := h
        · refine ⟨[name], by simp, by simp, rfl, hname, ?_⟩
          intro front hne hprefix hproper
          rcases List.prefix_concat_iff.mp (show front <+: [] ++ [name] from hprefix) with h | h
          · exact absurd h hproper
          · exact absurd (List.prefix_nil.mp h) hne
        · unfold visibleBelow at hbelow
          by_cases hdirectory : tree.isDirectory (directory ++ [name]) = true
          · rw [if_pos hdirectory, ih] at hbelow
            obtain ⟨rest, hne, hlength, hpath, hnode, hfronts⟩ := hbelow
            refine ⟨name :: rest, by simp, by simpa using hlength, by simpa using hpath, hnode, ?_⟩
            intro front hfront hprefix hproper
            cases front with
            | nil => exact absurd rfl hfront
            | cons first front =>
                obtain ⟨rfl, hshorter⟩ := List.cons_prefix_cons.mp hprefix
                by_cases hempty : front = []
                · rw [hempty]
                  exact hdirectory
                · have hproper' : front ≠ rest := fun heq => hproper (by rw [heq])
                  have hfront := hfronts front hempty hshorter hproper'
                  rwa [List.append_assoc] at hfront
          · rw [if_neg hdirectory] at hbelow
            cases hbelow
      · intro h
        obtain ⟨rest, hne, hlength, hpath, hnode, hfronts⟩ := h
        cases rest with
        | nil => exact absurd rfl hne
        | cons name rest =>
            by_cases hempty : rest = []
            · subst hempty
              exact ⟨name, hpath ▸ hnode, .inl hpath⟩
            · have hdirectory : tree.isDirectory (directory ++ [name]) = true :=
                hfronts [name] (by simp) (by simp) (by simp [Ne.symm hempty])
              have hname : tree.node (directory ++ [name]) ≠ none := by
                intro hnone
                simp [Tree.isDirectory, hnone] at hdirectory
              refine ⟨name, hname, .inr ?_⟩
              rw [visibleBelow, if_pos hdirectory, ih]
              refine ⟨rest, hempty, by simpa using hlength, by simpa using hpath, hnode, ?_⟩
              intro front hfront hprefix hproper
              have h := hfronts (name :: front) (by simp)
                (List.cons_prefix_cons.mpr ⟨rfl, hprefix⟩) (by simpa using hproper)
              simpa using h

/-- The walk sees no path twice. -/
theorem visible_nodup (tree : Tree) (levels : Nat) (directory : Path) :
    (visible tree levels directory).Nodup := by
  induction levels generalizing directory with
  | zero => exact List.nodup_nil
  | succ levels ih =>
      have hbelow : ∀ name path, path ∈ visibleBelow tree levels (directory ++ [name]) →
          ∃ rest, rest ≠ [] ∧ path = directory ++ name :: rest := by
        intro name path hpath
        unfold visibleBelow at hpath
        split at hpath
        · obtain ⟨rest, hne, _, rfl, _⟩ := mem_visible.mp hpath
          exact ⟨rest, hne, by simp⟩
        · cases hpath
      have hnames : (sortByKey id (tree.readDir directory)).Nodup :=
        (sortByKey_perm id _).nodup_iff.mpr (tree.readDir_nodup directory)
      rw [visible_succ, List.nodup_flatMap]
      constructor
      · intro name _
        rw [List.nodup_cons]
        constructor
        · intro hmem
          obtain ⟨rest, hne, heq⟩ := hbelow name _ hmem
          simp at heq
          exact hne heq
        · unfold visibleBelow
          split
          · exact ih _
          · exact List.nodup_nil
      · refine hnames.imp ?_
        intro name name' hne path hpath hpath'
        have hfirst : ∀ {name : String}, path ∈ (directory ++ [name]) ::
            visibleBelow tree levels (directory ++ [name]) →
            ∃ rest, path = directory ++ name :: rest := by
          intro name hmem
          rcases List.mem_cons.mp hmem with rfl | hmem
          · exact ⟨[], rfl⟩
          · obtain ⟨rest, _, hrest⟩ := hbelow name path hmem
            exact ⟨rest, hrest⟩
        obtain ⟨rest, rfl⟩ := hfirst hpath
        obtain ⟨rest', heq⟩ := hfirst hpath'
        simp at heq
        exact hne heq.1

/-! ## The walk on fitting entries -/

/-- What the loader requires of a visible entry; `known` holds all logical paths of the tree. -/
def Fits (tree : Tree) (root : PinnedRoot) (expected : ExpectedTree)
    (known : BundlePath → Prop) (path : Path) : Prop :=
  ∃ logical n, pathToBundleString path = .ok logical ∧ known logical ∧ tree.node path = some n ∧
    n.metadata.device = root.device ∧ ((n.kind = .directory ∧ path ∈ expected.directories) ∨
      (n.kind = .file ∧ n.metadata.links = 1 ∧ logical ∈ expected.files ∧
        n.bytes.length ≤ expected.maximumBytesFor logical))

/-- The recorded keys are those of known logical paths. -/
def Recorded (known : BundlePath → Prop) (observed : ObservedTree) : Prop :=
  ∀ key path, observed.logicalPaths.lookup key = some path → logicalKey path = key ∧ known path

/-- What the walk adds to an observation when it counts some entries and sees these paths. -/
structure Observes (tree : Tree) (known : BundlePath → Prop) (count : Nat) (before : ObservedTree)
    (seen : List Path) (after : ObservedTree) : Prop where
  entries : after.entries = before.entries + count
  recorded : Recorded known after
  kept : ∀ path ∈ before.files, path ∈ after.files
  files : ∀ path ∈ seen, tree.isDirectory path = false →
    ∀ logical, pathToBundleString path = .ok logical → logical ∈ after.files

variable {known : BundlePath → Prop}

theorem Observes.trans {before middle after : ObservedTree} {seen seen' : List Path}
    {count count' : Nat} (h : Observes tree known count before seen middle)
    (h' : Observes tree known count' middle seen' after) :
    Observes tree known (count + count') before (seen ++ seen') after where
  entries := by rw [h'.entries, h.entries, Nat.add_assoc]
  recorded := h'.recorded
  kept path hpath := h'.kept path (h.kept path hpath)
  files path hpath hfile logical hlogical := by
    rcases List.mem_append.mp hpath with hseen | hseen
    · exact h'.kept _ (h.files path hseen hfile logical hlogical)
    · exact h'.files path hseen hfile logical hlogical

theorem recordLogicalPath_ok
    (hkeys : ∀ p q, known p → known q → logicalKey p = logicalKey q → p = q)
    {observed : ObservedTree} (hrecorded : Recorded known observed) {path : BundlePath}
    (hpath : known path) : ∃ paths, recordLogicalPath observed path =
      .ok { observed with logicalPaths := paths } ∧
        Recorded known { observed with logicalPaths := paths } := by
  unfold recordLogicalPath
  cases hlookup : observed.logicalPaths.lookup (logicalKey path) with
  | some existing =>
      obtain ⟨hkey, hknown⟩ := hrecorded _ _ hlookup
      have hsame : existing = path := hkeys _ _ hknown hpath hkey
      refine ⟨observed.logicalPaths, ?_, hrecorded⟩
      simp [hsame, pure, Except.pure, rejectIf]
  | none =>
      refine ⟨_, rfl, ?_⟩
      intro key logical h
      simp only [List.lookup_cons] at h
      split at h
      · next hkey =>
          rw [← Option.some.inj h]
          exact ⟨(beq_iff_eq.mp hkey).symm, hpath⟩
      · exact hrecorded key logical h

/-- The walk below one directory, from any observation. -/
def WalksBelow (tree : Tree) (known : BundlePath → Prop) (levels : Nat) (directory : Path)
    (walk : ObservedTree → Load ObservedTree) : Prop :=
  ∀ observed, Recorded known observed → observed.entries ≤ maxVisibleEntries →
    WithinLimit (observed.entries + (visible tree levels directory).length) (walk observed)
      (Observes tree known (visible tree levels directory).length observed
        (visible tree levels directory))

theorem inspectEntry_within
    (hkeys : ∀ p q, known p → known q → logicalKey p = logicalKey q → p = q) {levels : Nat}
    {descend : Path → ObservedTree → Load ObservedTree} {directory : Path} {name : String}
    {observed : ObservedTree} (hrecorded : Recorded known observed)
    (hentries : observed.entries ≤ maxVisibleEntries)
    (hfits : Fits tree root expected known (directory ++ [name]))
    (hdescend : tree.isDirectory (directory ++ [name]) = true →
      WalksBelow tree known levels (directory ++ [name]) (descend (directory ++ [name]))) :
    WithinLimit (observed.entries + (visibleBelow tree levels (directory ++ [name])).length)
      (inspectEntry tree root expected descend directory observed name)
      (Observes tree known (visibleBelow tree levels (directory ++ [name])).length observed
        ((directory ++ [name]) :: visibleBelow tree levels (directory ++ [name]))) := by
  obtain ⟨logical, n, hlogical, hknown, hnode, hdevice, hkind⟩ := hfits
  obtain ⟨paths, hrecord, hrecorded'⟩ := recordLogicalPath_ok hkeys hrecorded hknown
  unfold inspectEntry
  simp only [hlogical, hrecord, hnode, okOr, ok_bind]
  rcases hkind with ⟨hkind, hdeclared⟩ | ⟨hkind, hlinks, hdeclared, hlength⟩
  · have hdirectory : tree.isDirectory (directory ++ [name]) = true := by
      simp [Tree.isDirectory, hnode, hkind]
    have hwalk := hdescend hdirectory { observed with logicalPaths := paths } hrecorded' hentries
    simp only [hkind, hdevice, hdeclared, rejectIf_of_not, ok_bind, reduceCtorEq, not_false_eq_true,
      ne_eq, not_true_eq_false, if_true]
    simp only [visibleBelow, hdirectory, if_true]
    apply hwalk.mono
    intro after hafter
    refine ⟨hafter.entries, hafter.recorded, hafter.kept, ?_⟩
    intro path hpath hfile
    rcases List.mem_cons.mp hpath with rfl | hpath
    · rw [hdirectory] at hfile
      cases hfile
    · exact hafter.files path hpath hfile
  · have hfile : tree.isDirectory (directory ++ [name]) = false := by
      simp [Tree.isDirectory, hnode, hkind]
    simp only [hkind, hdevice, hlinks, hdeclared, rejectIf_of_not, ok_bind, reduceCtorEq,
      not_false_eq_true, ne_eq, not_true_eq_false, if_false, Nat.not_lt.mpr hlength]
    simp only [visibleBelow, hfile, Bool.false_eq_true, if_false, List.length_nil, Nat.add_zero]
    apply WithinLimit.ok _ hentries
    refine ⟨rfl, hrecorded', fun path hpath => List.mem_cons_of_mem _ hpath, ?_⟩
    intro path hpath _ logical' hlogical'
    rw [List.mem_singleton] at hpath
    rw [hpath, hlogical] at hlogical'
    cases hlogical'
    exact List.mem_cons_self

theorem inspectEntries_within
    (hkeys : ∀ p q, known p → known q → logicalKey p = logicalKey q → p = q) {levels : Nat}
    {descend : Path → ObservedTree → Load ObservedTree} {directory : Path} {names : List String}
    {observed : ObservedTree} (hrecorded : Recorded known observed)
    (hentries : observed.entries ≤ maxVisibleEntries)
    (hfits : ∀ name ∈ names, Fits tree root expected known (directory ++ [name]))
    (hdescend : ∀ name ∈ names, tree.isDirectory (directory ++ [name]) = true →
      WalksBelow tree known levels (directory ++ [name]) (descend (directory ++ [name]))) :
    WithinLimit (observed.entries +
        (names.map fun name => (visibleBelow tree levels (directory ++ [name])).length).sum)
      (names.foldlM (inspectEntry tree root expected descend directory) observed)
      (Observes tree known
        (names.map fun name => (visibleBelow tree levels (directory ++ [name])).length).sum observed
        (names.flatMap fun name =>
          (directory ++ [name]) :: visibleBelow tree levels (directory ++ [name]))) := by
  induction names generalizing observed with
  | nil => exact .ok ⟨rfl, hrecorded, fun _ h => h, by simp⟩ hentries
  | cons name names ih =>
      have hhead := inspectEntry_within hkeys hrecorded hentries
        (hfits name List.mem_cons_self) (hdescend name List.mem_cons_self)
      rw [List.foldlM_cons, List.map_cons, List.sum_cons, List.flatMap_cons]
      apply hhead.bind (by omega)
      intro hlimit middle hmiddle
      rw [← hmiddle.entries] at hlimit
      have hrest := ih hmiddle.recorded hlimit (fun n hn => hfits n (List.mem_cons_of_mem _ hn))
        (fun n hn => hdescend n (List.mem_cons_of_mem _ hn))
      rw [hmiddle.entries, Nat.add_assoc] at hrest
      exact hrest.mono fun after hafter => hmiddle.trans hafter

theorem visible_succ_length (tree : Tree) (levels : Nat) (directory : Path) :
    (visible tree (levels + 1) directory).length = (tree.readDir directory).length +
      ((sortByKey id (tree.readDir directory)).map fun name =>
        (visibleBelow tree levels (directory ++ [name])).length).sum := by
  rw [visible_succ, List.length_flatMap, ← length_sortByKey id (tree.readDir directory)]
  simp only [List.length_cons]
  induction sortByKey id (tree.readDir directory) with
  | nil => rfl
  | cons name names ih =>
      simp only [List.map_cons, List.sum_cons, List.length_cons, ih]
      omega

/-- On a directory whose visible entries fit, only the entry limit can end the walk. -/
theorem inspectDirectory_within
    (hkeys : ∀ p q, known p → known q → logicalKey p = logicalKey q → p = q)
    (hdepth : ∀ directory ∈ expected.directories, directory.length ≤ maxDirectoryDepth)
    {levels : Nat} {directory : Path} {n : Node}
    (hlevels : levels + directory.length = maxDirectoryDepth + 1)
    (hlength : directory.length ≤ maxDirectoryDepth) (hnode : tree.node directory = some n)
    (hkind : n.kind = .directory) (hdevice : n.metadata.device = root.device)
    (hfits : ∀ path ∈ visible tree levels directory, Fits tree root expected known path) :
    WalksBelow tree known levels directory (inspectDirectory tree root expected levels directory)
    := by
  induction levels generalizing directory n with
  | zero => omega
  | succ levels ih =>
      intro observed hrecorded hentries
      have hmem : ∀ name ∈ sortByKey id (tree.readDir directory), ∀ path,
          path ∈ (directory ++ [name]) :: visibleBelow tree levels (directory ++ [name]) →
          path ∈ visible tree (levels + 1) directory := by
        intro name hname path hpath
        rw [visible_succ]
        exact List.mem_flatMap.mpr ⟨name, hname, hpath⟩
      unfold inspectDirectory
      simp only [hnode, hkind, hdevice, okOr, ok_bind, rejectIf_of_not, reduceCtorEq,
        ne_eq, not_true_eq_false, or_self, not_false_eq_true]
      rw [visible_succ_length]
      apply (countEntries (tree.readDir directory) hentries).bind (by omega)
      intro hcount counted hcounted
      subst hcounted
      have hrecorded' : Recorded known { observed with
          entries := observed.entries + (tree.readDir directory).length } := hrecorded
      rw [← Nat.add_assoc, visible_succ]
      refine WithinLimit.mono (inspectEntries_within hkeys hrecorded' hcount ?_ ?_) ?_
      · intro name hname
        exact hfits _ (hmem name hname _ List.mem_cons_self)
      · intro name hname hdirectory
        obtain ⟨logical, n', _, _, hnode', hdevice', hkind'⟩ :=
          hfits _ (hmem name hname _ List.mem_cons_self)
        have hdirectory' : n'.kind = .directory := by
          simpa [Tree.isDirectory, hnode'] using hdirectory
        have hdeclared : directory ++ [name] ∈ expected.directories := by
          rcases hkind' with hkind' | hkind'
          · exact hkind'.2
          · rw [hkind'.1] at hdirectory'
            cases hdirectory'
        have hlong : (directory ++ [name]).length = directory.length + 1 := by simp
        apply ih (by omega) (hdepth _ hdeclared) hnode' hdirectory' hdevice'
        intro path hpath
        apply hfits _ (hmem name hname path _)
        rw [visibleBelow, if_pos hdirectory]
        exact List.mem_cons_of_mem _ hpath
      · intro after hafter
        exact ⟨by rw [hafter.entries, Nat.add_assoc], hafter.recorded, hafter.kept, hafter.files⟩

/-! ## What a successful walk has seen -/

theorem Fits.mono {known known' : BundlePath → Prop} {path : Path}
    (h : Fits tree root expected known path) (hknown : ∀ logical, known logical → known' logical) :
    Fits tree root expected known' path := by
  obtain ⟨logical, n, hlogical, hrecorded, hnode, hdevice, hkind⟩ := h
  exact ⟨logical, n, hlogical, hknown _ hrecorded, hnode, hdevice, hkind⟩

/-- The path is recorded under its own key. -/
def ObservedTree.Records (observed : ObservedTree) (path : BundlePath) : Prop :=
  observed.logicalPaths.lookup (logicalKey path) = some path

/-- The walk counted these entries and saw these paths, which all fit and have keys of their
own; the files it reports are among them. -/
structure Sees (tree : Tree) (root : PinnedRoot) (expected : ExpectedTree) (count : Nat)
    (before : ObservedTree) (seen : List Path) (after : ObservedTree) : Prop where
  entries : after.entries = before.entries + count
  limit : after.entries ≤ maxVisibleEntries
  kept : ∀ path, before.Records path → after.Records path
  fits : ∀ path ∈ seen, Fits tree root expected after.Records path
  files : ∀ logical ∈ after.files, logical ∈ before.files ∨ ∃ path ∈ seen,
    pathToBundleString path = .ok logical ∧ tree.isDirectory path = false

theorem Sees.trans {before middle after : ObservedTree} {seen seen' : List Path}
    {count count' : Nat} (h : Sees tree root expected count before seen middle)
    (h' : Sees tree root expected count' middle seen' after) :
    Sees tree root expected (count + count') before (seen ++ seen') after where
  entries := by rw [h'.entries, h.entries, Nat.add_assoc]
  limit := h'.limit
  kept path hpath := h'.kept path (h.kept path hpath)
  fits path hpath := by
    rcases List.mem_append.mp hpath with hseen | hseen
    · exact (h.fits path hseen).mono h'.kept
    · exact h'.fits path hseen
  files logical hlogical := by
    rcases h'.files logical hlogical with hmiddle | ⟨path, hpath, hfile⟩
    · rcases h.files logical hmiddle with hbefore | ⟨path, hpath, hfile⟩
      · exact .inl hbefore
      · exact .inr ⟨path, List.mem_append_left _ hpath, hfile⟩
    · exact .inr ⟨path, List.mem_append_right _ hpath, hfile⟩

theorem recordLogicalPath_records {observed observed' : ObservedTree} {path : BundlePath}
    (h : recordLogicalPath observed path = .ok observed') :
    observed'.entries = observed.entries ∧ observed'.files = observed.files ∧
      (∀ known, observed.Records known → observed'.Records known) ∧ observed'.Records path := by
  unfold recordLogicalPath at h
  cases hlookup : observed.logicalPaths.lookup (logicalKey path) with
  | some existing =>
      simp only [hlookup, bind_eq_ok, rejectIf_eq_ok, exists_const, not_not, pure, Except.pure,
        Except.ok.injEq] at h
      obtain ⟨rfl, rfl⟩ := h
      exact ⟨rfl, rfl, fun _ hknown => hknown, hlookup⟩
  | none =>
      simp only [hlookup, pure, Except.pure, Except.ok.injEq] at h
      subst h
      refine ⟨rfl, rfl, ?_, ?_⟩
      · intro known hknown
        have hne : logicalKey known ≠ logicalKey path := by
          intro hkey
          rw [ObservedTree.Records, hkey, hlookup] at hknown
          cases hknown
        simp only [ObservedTree.Records, List.lookup_cons, beq_eq_false_iff_ne.mpr hne]
        exact hknown
      · simp [ObservedTree.Records]

/-- What the walk below one directory sees. -/
def SeesBelow (tree : Tree) (root : PinnedRoot) (expected : ExpectedTree) (levels : Nat)
    (directory : Path) (walk : ObservedTree → Load ObservedTree) : Prop :=
  ∀ before after, before.entries ≤ maxVisibleEntries → walk before = .ok after →
    Sees tree root expected (visible tree levels directory).length before
      (visible tree levels directory) after

theorem inspectEntry_sees {levels : Nat} {descend : Path → ObservedTree → Load ObservedTree}
    {directory : Path} {name : String} {before after : ObservedTree}
    (hentries : before.entries ≤ maxVisibleEntries)
    (h : inspectEntry tree root expected descend directory before name = .ok after)
    (hdescend : SeesBelow tree root expected levels (directory ++ [name])
      (descend (directory ++ [name]))) :
    Sees tree root expected (visibleBelow tree levels (directory ++ [name])).length before
      ((directory ++ [name]) :: visibleBelow tree levels (directory ++ [name])) after := by
  simp only [inspectEntry, bind_eq_ok, rejectIf_eq_ok, okOr_eq_ok, exists_const] at h
  obtain ⟨logical, hlogical, observed, hrecord, n, hnode, hlink, hdevice, h⟩ := h
  obtain ⟨hcount, hfiles, hkept, hrecorded⟩ := recordLogicalPath_records hrecord
  have hdevice := not_not.mp hdevice
  have hone : ∀ {after' : ObservedTree}, (∀ path, observed.Records path → after'.Records path) →
      ((n.kind = .directory ∧ directory ++ [name] ∈ expected.directories) ∨
        (n.kind = .file ∧ n.metadata.links = 1 ∧ logical ∈ expected.files ∧
          n.bytes.length ≤ expected.maximumBytesFor logical)) →
      Fits tree root expected after'.Records (directory ++ [name]) := by
    intro after' hafter hkind
    exact ⟨logical, n, hlogical, hafter _ hrecorded, hnode, hdevice, hkind⟩
  by_cases hkind : n.kind = .directory
  · have hdirectory : tree.isDirectory (directory ++ [name]) = true := by
      simp [Tree.isDirectory, hnode, hkind]
    simp only [hkind, if_true, bind_eq_ok, rejectIf_eq_ok, exists_const, not_not] at h
    obtain ⟨hdeclared, hwalk⟩ := h
    have hbelow := hdescend observed after (hcount ▸ hentries) hwalk
    simp only [visibleBelow, hdirectory, if_true]
    refine ⟨by rw [hbelow.entries, hcount], hbelow.limit,
      fun path hpath => hbelow.kept path (hkept path hpath), ?_, ?_⟩
    · intro path hpath
      rcases List.mem_cons.mp hpath with rfl | hpath
      · exact hone hbelow.kept (.inl ⟨hkind, hdeclared⟩)
      · exact hbelow.fits path hpath
    · intro file hfile
      rw [← hfiles]
      rcases hbelow.files file hfile with hbefore | ⟨path, hpath, hseen⟩
      · exact .inl hbefore
      · exact .inr ⟨path, List.mem_cons_of_mem _ hpath, hseen⟩
  · have hdirectory : tree.isDirectory (directory ++ [name]) = false := by
      simp [Tree.isDirectory, hnode, hkind]
    simp only [hkind, if_false, bind_eq_ok, rejectIf_eq_ok, exists_const, not_not, not_lt, ne_eq,
      pure, Except.pure, Except.ok.injEq] at h
    obtain ⟨hfile, hlinks, hdeclared, hlength, rfl⟩ := h
    simp only [visibleBelow, hdirectory, Bool.false_eq_true, if_false, List.length_nil]
    refine ⟨hcount, by rw [hcount]; exact hentries, hkept, ?_, ?_⟩
    · intro path hpath
      rw [List.mem_singleton] at hpath
      rw [hpath]
      exact hone (fun _ hknown => hknown) (.inr ⟨hfile, hlinks, hdeclared, hlength⟩)
    · intro file hmem
      rcases List.mem_cons.mp hmem with rfl | hmem
      · exact .inr ⟨_, List.mem_singleton_self _, hlogical, hdirectory⟩
      · exact .inl (hfiles ▸ hmem)

theorem inspectEntries_sees {levels : Nat} {descend : Path → ObservedTree → Load ObservedTree}
    {directory : Path} {names : List String} {before after : ObservedTree}
    (hentries : before.entries ≤ maxVisibleEntries)
    (h : names.foldlM (inspectEntry tree root expected descend directory) before = .ok after)
    (hdescend : ∀ path, SeesBelow tree root expected levels path (descend path)) :
    Sees tree root expected
      (names.map fun name => (visibleBelow tree levels (directory ++ [name])).length).sum before
      (names.flatMap fun name =>
        (directory ++ [name]) :: visibleBelow tree levels (directory ++ [name])) after := by
  induction names generalizing before with
  | nil =>
      cases h
      exact ⟨rfl, hentries, fun _ hpath => hpath, by simp, fun _ hfile => .inl hfile⟩
  | cons name names ih =>
      rw [List.foldlM_cons, bind_eq_ok] at h
      obtain ⟨middle, hhead, hrest⟩ := h
      have hfirst := inspectEntry_sees hentries hhead (hdescend _)
      rw [List.map_cons, List.sum_cons, List.flatMap_cons]
      exact hfirst.trans (ih hfirst.limit hrest)

/-- A walk that succeeds has counted everything below its directory, and all of it fits. -/
theorem inspectDirectory_sees {levels : Nat} {directory : Path} :
    SeesBelow tree root expected levels directory
      (inspectDirectory tree root expected levels directory) := by
  induction levels generalizing directory with
  | zero =>
      intro before after _ h
      cases h
  | succ levels ih =>
      intro before after hentries h
      simp only [inspectDirectory, bind_eq_ok, rejectIf_eq_ok, okOr_eq_ok, exists_const] at h
      obtain ⟨n, _, _, counted, hcount, hwalk⟩ := h
      obtain ⟨hlimit, hcounted⟩ := (countEntries (tree.readDir directory) hentries).of_ok hcount
      subst hcounted
      have hbelow := inspectEntries_sees hlimit hwalk fun path => ih
      rw [visible_succ_length, visible_succ]
      refine ⟨?_, hbelow.limit, hbelow.kept, hbelow.fits, hbelow.files⟩
      rw [hbelow.entries, Nat.add_assoc]

end Invokrum.Directory
