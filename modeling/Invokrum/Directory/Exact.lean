import Invokrum.Directory.Materialized

/-!
# What a load says about the tree

A load succeeds on exactly the trees that hold the declared files and nothing
else, within the limits of the loader. A tree of a file system has directories
above its nodes and names without separators; the walk then misses nothing.
-/

namespace Invokrum.Directory

open Outcome Ordered Invokrum.Distribution Invokrum.FileSystem
open Acquisition (CandidateFile)
open Install (LocalCandidateError components)

/-- Every node lies in a directory, under a name without a separator. -/
structure Tree.Plain (tree : Tree) : Prop where
  closed : ∀ path name, tree.node (path ++ [name]) ≠ none → tree.isDirectory path = true
  names : ∀ path name, tree.node (path ++ [name]) ≠ none → '/' ∉ name.toList

variable {tree : Tree} {root : PinnedRoot} {expected : ExpectedTree} {manifest : BundleManifest}
  {allowedFile : Option (BundlePath × Nat)} {files : List CandidateFile} {paths : List BundlePath}

theorem Tree.Plain.above (hplain : tree.Plain) {front rest : Path}
    (hnode : tree.node (front ++ rest) ≠ none) (hne : rest ≠ []) :
    tree.isDirectory front = true := by
  induction rest using List.reverseRecOn with
  | nil => exact absurd rfl hne
  | append_singleton rest name ih =>
      rw [← List.append_assoc] at hnode
      have hdirectory := hplain.closed _ _ hnode
      by_cases hempty : rest = []
      · rwa [hempty, List.append_nil] at hdirectory
      · apply ih _ hempty
        intro hnone
        simp [Tree.isDirectory, hnone] at hdirectory

theorem Tree.Plain.plain (hplain : tree.Plain) {path : Path} (hnode : tree.node path ≠ none) :
    ∀ name ∈ path, '/' ∉ name.toList := by
  intro name hname
  obtain ⟨front, rest, rfl⟩ := List.append_of_mem hname
  rw [List.append_cons] at hnode
  apply hplain.names front name
  by_cases hempty : rest = []
  · rwa [hempty, List.append_nil] at hnode
  · have hdirectory := hplain.above hnode hempty
    intro hnone
    simp [Tree.isDirectory, hnone] at hdirectory

/-- What fits and is a directory has its place in the expected tree. -/
theorem Fits.shallow {known : BundlePath → Prop} {path : Path}
    (hshallow : ∀ directory ∈ expected.directories, directory.length ≤ maxDirectoryDepth)
    (h : Fits tree root expected known path) (hdirectory : tree.isDirectory path = true) :
    path.length ≤ maxDirectoryDepth := by
  obtain ⟨_, n, _, _, hnode, _, hkind⟩ := h
  rcases hkind with ⟨_, hdeclared⟩ | ⟨hkind, _⟩
  · exact hshallow path hdeclared
  · simp [Tree.isDirectory, hnode, hkind] at hdirectory

/-- Where everything visible fits, nothing is too deep to be visible. -/
theorem Tree.Plain.visible (hplain : tree.Plain) {known : BundlePath → Prop}
    (hshallow : ∀ directory ∈ expected.directories, directory.length ≤ maxDirectoryDepth)
    (hfits : ∀ path ∈ visible tree (maxDirectoryDepth + 1) [],
      Fits tree root expected known path)
    {path : Path} (hnode : tree.node path ≠ none) (hne : path ≠ []) :
    path ∈ visible tree (maxDirectoryDepth + 1) [] := by
  have hfront : ∀ front rest, path = front ++ rest → front ≠ [] →
      front.length ≤ maxDirectoryDepth + 1 →
        front ∈ Directory.visible tree (maxDirectoryDepth + 1) [] := by
    intro front rest hpath hfront hlength
    rw [mem_visible]
    refine ⟨front, hfront, hlength, rfl, ?_, ?_⟩
    · by_cases hrest : rest = []
      · rwa [hpath, hrest, List.append_nil] at hnode
      · have hdirectory := hplain.above (hpath ▸ hnode) hrest
        intro hnone
        simp [Tree.isDirectory, hnone] at hdirectory
    · intro shorter _ hprefix hproper
      obtain ⟨middle, rfl⟩ := hprefix
      have hmiddle : middle ≠ [] := by
        intro hnil
        rw [hnil, List.append_nil] at hproper
        exact hproper rfl
      rw [hpath, List.append_assoc] at hnode
      exact hplain.above hnode (by simp [hmiddle])
  by_cases hlength : path.length ≤ maxDirectoryDepth + 1
  · exact hfront path [] (List.append_nil path).symm hne hlength
  · exfalso
    have hlong : (path.take (maxDirectoryDepth + 1)).length = maxDirectoryDepth + 1 := by
      rw [List.length_take]
      omega
    have hsplit := (List.take_append_drop (maxDirectoryDepth + 1) path).symm
    have hseen := hfront _ _ hsplit
      (List.ne_nil_of_length_eq_add_one hlong) (Nat.le_of_eq hlong)
    have hdirectory := hplain.above (hsplit ▸ hnode) (by
      intro hnil
      have hdrop := congrArg List.length hnil
      rw [List.length_drop, List.length_nil] at hdrop
      omega)
    have hbound := (hfits _ hseen).shallow hshallow hdirectory
    omega

/-- What fits is an entry of the expected tree. -/
theorem Fits.mem_treeEntries {known : BundlePath → Prop} {path : Path} (hne : path ≠ [])
    (hexpects : Expects expected paths) (hplain : ∀ name ∈ path, '/' ∉ name.toList)
    (h : Fits tree root expected known path) : path ∈ treeEntries paths := by
  obtain ⟨logical, n, hlogical, _, _, _, hkind⟩ := h
  rcases hkind with ⟨_, hdeclared⟩ | ⟨_, _, hdeclared, _⟩
  · exact Directory.mem_treeEntries.mpr (.inr ((hexpects.directories path).mp hdeclared))
  · exact Directory.mem_treeEntries.mpr (.inl ⟨logical, (hexpects.files logical).mp hdeclared,
      (components_of_pathToBundleString hne hplain hlogical).symm⟩)

/-! ## A successful walk -/

/-- A tree that the loader accepts for these paths. -/
structure Accepts (tree : Tree) (root : PinnedRoot) (expected : ExpectedTree)
    (paths : List BundlePath) : Prop where
  holds : Holds tree root.device paths
  apart : Apart tree
  entries : (treeEntries paths).length ≤ maxVisibleEntries
  sized : Sized tree expected paths

/-- A walk that succeeds and reports every declared file has seen a tree of these files. -/
theorem accepts_of_inspectTree {observed : ObservedTree} (hplain : tree.Plain)
    (hopen : PinnedRoot.open tree = .ok root) (hexpects : Expects expected paths)
    (hdepth : ∀ path ∈ paths, (components path).length ≤ maxDirectoryDepth + 1)
    (h : inspectTree tree root expected = .ok observed)
    (hobserved : ∀ path ∈ paths, path ∈ observed.files) : Accepts tree root expected paths := by
  rw [inspectTree, bind_eq_ok] at h
  obtain ⟨observed', hwalk, hrest⟩ := h
  obtain rfl : observed' = observed := by
    simp only [bind_eq_ok, pure, Except.pure, Except.ok.injEq] at hrest
    obtain ⟨_, _, heq⟩ := hrest
    exact heq
  have hsees := inspectDirectory_sees .empty observed' (Nat.zero_le _) hwalk
  have hshallow := hexpects.shallow hdepth
  have hvisible : ∀ path, tree.node path ≠ none → path ≠ [] →
      Fits tree root expected observed'.Records path :=
    fun path hnode hne => hsees.fits path (hplain.visible hshallow hsees.fits hnode hne)
  have hfits : ∀ path : BundlePath, tree.node (components path) ≠ none →
      Fits tree root expected observed'.Records (components path) :=
    fun path hnode => hvisible _ hnode (Install.components_ne_nil path)
  have hfile : ∀ path ∈ paths, ∃ n, tree.node (components path) = some n ∧ n.kind = .file := by
    intro path hpath
    rcases hsees.files path (hobserved path hpath) with hbefore | ⟨entry, hentry, hlogical, hleaf⟩
    · cases hbefore
    · obtain ⟨_, n, _, _, hnode, _, hkind⟩ := hsees.fits entry hentry
      have hne : entry ≠ [] := by
        obtain ⟨rest, hne, _, rfl, _⟩ := mem_visible.mp hentry
        exact hne
      rw [components_of_pathToBundleString hne (hplain.plain (by simp [hnode])) hlogical]
      refine ⟨n, hnode, ?_⟩
      rcases hkind with ⟨hkind, _⟩ | ⟨hkind, _⟩
      · simp [Tree.isDirectory, hnode, hkind] at hleaf
      · exact hkind
  have hnodes : ∀ path ∈ paths, ∃ n, tree.node (components path) = some n ∧ n.kind = .file ∧
      n.metadata.links = 1 ∧ n.metadata.device = root.device ∧
        n.bytes.length ≤ expected.maximumBytesFor path := by
    intro path hpath
    obtain ⟨n, hnode, hkind⟩ := hfile path hpath
    obtain ⟨logical, n', hlogical, _, hnode', hdevice, hcases⟩ := hfits path (by simp [hnode])
    rw [hnode] at hnode'
    cases hnode'
    rw [pathToBundleString_components] at hlogical
    cases hlogical
    rcases hcases with ⟨hdirectory, _⟩ | ⟨_, hlinks, _, hlength⟩
    · rw [hkind] at hdirectory
      cases hdirectory
    · exact ⟨n, hnode, hkind, hlinks, hdevice, hlength⟩
  have hholds : Holds tree root.device paths := by
    constructor
    · simp only [PinnedRoot.open, bind_eq_ok, okOr_eq_ok, rejectIf_eq_ok, exists_const, not_not,
        ne_eq, pure, Except.pure, Except.ok.injEq] at hopen
      obtain ⟨n, hnode, _, hkind, rfl⟩ := hopen
      exact ⟨n, hnode, hkind, rfl⟩
    · intro path hpath
      obtain ⟨n, hnode, hkind, hlinks, hdevice, _⟩ := hnodes path hpath
      exact ⟨n, hnode, hkind, hlinks, hdevice⟩
    · intro path hpath directory hparent
      obtain ⟨hne, ⟨rest, hrest⟩, hproper⟩ := mem_parents.mp hparent
      obtain ⟨n, hnode, _⟩ := hnodes path hpath
      have hrestne : rest ≠ [] := by
        intro hnil
        rw [hnil, List.append_nil] at hrest
        exact hproper hrest
      have hdirectory := hplain.above (show tree.node (directory ++ rest) ≠ none by
        rw [hrest, hnode]
        simp) hrestne
      obtain ⟨d, hd⟩ := Option.ne_none_iff_exists'.mp (show tree.node directory ≠ none by
        intro hnone
        simp [Tree.isDirectory, hnone] at hdirectory)
      obtain ⟨_, d', _, _, hd', hdevice, _⟩ := hvisible directory (by simp [hd]) hne
      rw [hd] at hd'
      cases hd'
      exact ⟨d, hd, by simpa [Tree.isDirectory, hd] using hdirectory, hdevice⟩
    · intro path hnode
      by_cases hne : path = []
      · exact .inl hne
      · exact .inr ((hvisible path hnode hne).mem_treeEntries hne hexpects (hplain.plain hnode))
  refine ⟨hholds, ?_, ?_, ?_⟩
  · intro p q hp hq hkey
    obtain ⟨p', _, hp', hrecorded, _⟩ := hfits p hp
    obtain ⟨q', _, hq', hrecorded', _⟩ := hfits q hq
    rw [pathToBundleString_components] at hp' hq'
    cases hp'
    cases hq'
    rw [ObservedTree.Records, hkey, hrecorded'] at hrecorded
    exact (Option.some.inj hrecorded).symm
  · rw [← hholds.visible_length hdepth, ← Nat.zero_add (visible tree _ _).length]
    exact hsees.entries ▸ hsees.limit
  · intro path hpath n hnode
    obtain ⟨n', hnode', _, _, _, hlength⟩ := hnodes path hpath
    rw [hnode] at hnode'
    cases hnode'
    exact hlength

/-! ## A successful load -/

/-- The tree holds the declared files within the limits, and these are the files of the
manifest. -/
structure Loads (tree : Tree) (manifest : BundleManifest)
    (allowedFile : Option (BundlePath × Nat)) (files : List CandidateFile) : Prop where
  holds : ∃ device, Holds tree device (declaredPaths manifest allowedFile)
  apart : Apart tree
  depth : ∀ path ∈ declaredPaths manifest allowedFile,
    (components path).length ≤ maxDirectoryDepth + 1
  entries : (treeEntries (declaredPaths manifest allowedFile)).length ≤ maxVisibleEntries
  allowed : ∀ path maximum, allowedFile = some (path, maximum) →
    ∀ n, tree.node (components path) = some n → n.bytes.length ≤ maximum
  paths : files.map (·.path) = manifest.files.map (·.path)
  bytes : ∀ file ∈ files, ∃ n, tree.node (components file.path) = some n ∧ n.bytes = file.bytes

theorem loadFile_eq_ok {path : BundlePath} {file : CandidateFile}
    (h : loadFile tree root path = .ok file) :
    file.path = path ∧ ∃ n, tree.node (components path) = some n ∧ n.bytes = file.bytes := by
  simp only [loadFile, bind_eq_ok, mapError_eq_ok] at h
  obtain ⟨_, _, bytes, hread, hnew⟩ := h
  obtain ⟨n, hnode, _, hbytes, _⟩ := readDeclaredFile_eq_ok hread
  unfold CandidateFile.new at hnew
  split at hnew
  · cases hnew
  · cases hnew
    exact ⟨rfl, n, hnode, hbytes⟩

theorem paths_of_loads {paths : List BundlePath}
    (h : List.Forall₂ (fun path file => loadFile tree root path = .ok file) paths files) :
    files.map (·.path) = paths := by
  induction h with
  | nil => rfl
  | cons hfile _ ih => rw [List.map_cons, ih, (loadFile_eq_ok hfile).1]

theorem forEach_observed {observed : ObservedTree} {declared : List BundlePath} {u : Unit}
    (h : forEach (fun path => rejectIf (path ∉ observed.files)
      (LocalCandidateError.missingDeclaredFile path)) declared = .ok u) :
    ∀ path ∈ declared, path ∈ observed.files := by
  intro path hpath
  have hone := forEach_eq_ok.mp h path hpath
  exact not_not.mp (rejectIf_eq_ok.mp hone)

/-- The directory loader is exact. -/
theorem loadCandidate_exact (hplain : tree.Plain) :
    loadCandidate tree manifest allowedFile = .ok files ↔
      Loads tree manifest allowedFile files := by
  constructor
  · intro h
    simp only [loadCandidate, bind_eq_ok, pure, Except.pure, Except.ok.injEq] at h
    obtain ⟨root, hopen, expected, hexpected, observed, hinspect, _, hdeclared, _, hpresent,
      candidates, hcollect, _, _, rfl⟩ := h
    obtain ⟨hdepth, hexpects⟩ := fromManifest_eq_ok hexpected
    have hallowed : expected.allowedFile = allowedFile := by
      obtain ⟨expected', hexpected', hsame, _⟩ := fromManifest_ok hdepth
      rw [hexpected] at hexpected'
      cases hexpected'
      exact hsame
    have hobserved : ∀ path ∈ declaredPaths manifest allowedFile, path ∈ observed.files := by
      intro path hpath
      rcases List.mem_append.mp hpath with hpath | hpath
      · exact forEach_observed hdeclared path hpath
      · rw [hallowed] at hpresent
        exact forEach_observed hpresent path hpath
    have haccepts := accepts_of_inspectTree hplain hopen hexpects hdepth hinspect hobserved
    have hfiles := collect_eq_ok.mp hcollect
    refine ⟨⟨_, haccepts.holds⟩, haccepts.apart, hdepth, haccepts.entries, ?_, ?_, ?_⟩
    · intro path maximum heq n hnode
      have hsized := haccepts.sized path (by simp [declaredPaths, heq]) n hnode
      simpa [ExpectedTree.maximumBytesFor, hallowed, heq] using hsized
    · exact paths_of_loads hfiles
    · intro file hfile
      obtain ⟨path, _, hload⟩ := (mem_of_collect hcollect).mp hfile
      obtain ⟨rfl, hbytes⟩ := loadFile_eq_ok hload
      exact hbytes
  · intro h
    obtain ⟨device, hholds⟩ := h.holds
    rw [hholds.loadCandidate_eq h.depth h.apart h.paths h.bytes h.allowed, if_pos h.entries]

/-- A tree of finitely many nodes can be listed. -/
theorem exists_tree {nodes : Path → Option Node} {entries : List Path}
    (h : ∀ path, nodes path ≠ none → path = [] ∨ path ∈ entries) :
    ∃ tree : Tree, tree.node = nodes := by
  refine ⟨⟨nodes, fun directory => (entries.filterMap fun path =>
    if path.dropLast = directory ∧ (nodes path).isSome then path.getLast? else none).dedup,
    ?_, fun _ => List.nodup_dedup _⟩, rfl⟩
  intro directory name
  rw [List.mem_dedup, List.mem_filterMap]
  constructor
  · intro hname
    obtain ⟨path, _, hlast⟩ := hname
    split at hlast
    · next hpath =>
        rw [← hpath.1, List.dropLast_append_getLast? name hlast]
        exact Option.isSome_iff_ne_none.mp hpath.2
    · cases hlast
  · intro hnode
    have hentry := (h _ hnode).resolve_left (by simp)
    exact ⟨directory ++ [name], hentry, by simp [Option.isSome_iff_ne_none.mpr hnode]⟩

end Invokrum.Directory
