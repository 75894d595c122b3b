import Invokrum.Archive.ExpectedTree
import Invokrum.Directory.Walk

/-!
# Loading a materialized tree

A tree that holds exactly some candidate files and the directories on the way
to them. If these files are those of a portable manifest, the loader returns
them sorted by path, unless the tree has more entries than the loader visits.
-/

namespace Invokrum.Directory

open Outcome Ordered Invokrum.Distribution Invokrum.FileSystem
open Acquisition (CandidateFile)
open Archive (Portable Declared valid_parent)
open Install (LocalCandidateError components)

/-! ## Components -/

theorem components_toList (path : BundlePath) :
    (components path).map String.toList = Text.split '/' path.text.toList := by
  simp [components, Function.comp_def]

theorem join_components (path : BundlePath) :
    Text.join '/' ((components path).map String.toList) = path.text.toList := by
  rw [components_toList, Text.join_split]

theorem components_injective : Function.Injective components := by
  intro a b h
  rw [← BundlePath.text_inj, ← String.toList_inj, ← join_components a, ← join_components b, h]

theorem pathToBundleString_eq_ok {path : Path} {logical : BundlePath} :
    pathToBundleString path = .ok logical ↔
      logical.text.toList = Text.join '/' (path.map String.toList) := by
  rw [pathToBundleString, mapError_eq_ok, BundlePath.parse_eq_ok, ← String.toList_inj,
    String.toList_ofList]

theorem pathToBundleString_components (path : BundlePath) :
    pathToBundleString (components path) = .ok path :=
  pathToBundleString_eq_ok.mpr (join_components path).symm

theorem mem_parents_iff {path : BundlePath} {directory : Path} :
    directory ∈ parents path ↔ directory ≠ [] ∧ directory <+: (components path).dropLast := by
  rw [parents]
  cases (components path).dropLast with
  | nil => simp +contextual
  | cons c l =>
      rw [← List.mem_inits, List.inits_cons, List.tail_cons, List.mem_cons, List.mem_map]
      constructor
      · intro h
        obtain ⟨front, hfront, rfl⟩ := h
        exact ⟨by simp, .inr ⟨front, hfront, rfl⟩⟩
      · intro h
        exact h.2.resolve_left h.1

theorem mem_parents {path : BundlePath} {directory : Path} :
    directory ∈ parents path ↔
      directory ≠ [] ∧ directory <+: components path ∧ directory ≠ components path := by
  have hne : components path ≠ [] := Install.components_ne_nil path
  rw [mem_parents_iff]
  constructor
  · intro h
    obtain ⟨hdirectory, hprefix⟩ := h
    refine ⟨hdirectory, hprefix.trans (List.dropLast_prefix _), ?_⟩
    intro heq
    have hle := hprefix.length_le
    have hpos := List.length_pos_iff.mpr hne
    rw [heq, List.length_dropLast] at hle
    omega
  · intro h
    obtain ⟨hdirectory, hprefix, hproper⟩ := h
    refine ⟨hdirectory, ?_⟩
    rw [← List.dropLast_append_getLast hne] at hprefix hproper
    exact (List.prefix_concat_iff.mp hprefix).resolve_left hproper

theorem components_plain {path : BundlePath} {name : String} (h : name ∈ components path) :
    '/' ∉ name.toList := by
  have hmem : name.toList ∈ (components path).map String.toList := List.mem_map_of_mem h
  rw [components_toList] at hmem
  exact Text.not_mem_of_mem_split hmem

/-- A directory on the way to a file has the logical path that is declared for it. -/
theorem pathToBundleString_parent {path : BundlePath} {directory : Path}
    (h : directory ∈ parents path) : ∃ logical, pathToBundleString directory = .ok logical ∧
      ∃ rest, path.text.toList = logical.text.toList ++ '/' :: rest := by
  obtain ⟨hne, ⟨rest, hrest⟩, hproper⟩ := mem_parents.mp h
  have hrestne : rest ≠ [] := by
    intro hnil
    rw [hnil, List.append_nil] at hrest
    exact hproper hrest
  have htext : path.text.toList = Text.join '/' (directory.map String.toList) ++
      '/' :: Text.join '/' (rest.map String.toList) := by
    rw [← join_components path, ← hrest, List.map_append,
      Text.join_append '/' (by simpa using hne) (by simpa using hrestne)]
  refine ⟨⟨String.ofList (Text.join '/' (directory.map String.toList)), valid_parent htext⟩, ?_, ?_⟩
  · rw [pathToBundleString_eq_ok, String.toList_ofList]
  · exact ⟨_, by rw [String.toList_ofList, htext]⟩

/-- A path of plain names is the component list of its logical path. -/
theorem components_of_pathToBundleString {path : Path} {logical : BundlePath} (hne : path ≠ [])
    (hplain : ∀ name ∈ path, '/' ∉ name.toList) (h : pathToBundleString path = .ok logical) :
    components logical = path := by
  have htext := pathToBundleString_eq_ok.mp h
  rw [components, htext, Text.split_join (by simpa using hne)]
  · simp [List.map_map, Function.comp_def]
  · intro name hname
    obtain ⟨text, htext, rfl⟩ := List.mem_map.mp hname
    exact hplain text htext

theorem plain_of_mem_parents {path : BundlePath} {directory : Path} (h : directory ∈ parents path) :
    ∀ name ∈ directory, '/' ∉ name.toList := by
  intro name hname
  exact components_plain ((mem_parents.mp h).2.1.subset hname)

/-! ## The expected tree -/

/-- The files and directories that these paths imply. -/
structure Expects (expected : ExpectedTree) (paths : List BundlePath) : Prop where
  files : ∀ path, path ∈ expected.files ↔ path ∈ paths
  directories : ∀ directory, directory ∈ expected.directories ↔
    ∃ path ∈ paths, directory ∈ parents path

/-- The paths that a load declares. -/
def declaredPaths (manifest : BundleManifest) (allowedFile : Option (BundlePath × Nat)) :
    List BundlePath :=
  manifest.files.map (·.path) ++ (allowedFile.map (·.1)).toList

theorem foldlM_addExpectedPath (tree : ExpectedTree) {paths : List BundlePath}
    (h : ∀ path ∈ paths, (components path).length ≤ maxDirectoryDepth + 1) :
    ∃ expected, paths.foldlM addExpectedPath tree = .ok expected ∧
      expected.allowedFile = tree.allowedFile ∧
      (∀ path, path ∈ expected.files ↔ path ∈ paths ∨ path ∈ tree.files) ∧
      ∀ directory, directory ∈ expected.directories ↔
        (∃ path ∈ paths, directory ∈ parents path) ∨ directory ∈ tree.directories := by
  induction paths generalizing tree with
  | nil => exact ⟨tree, rfl, rfl, by simp, by simp⟩
  | cons path paths ih =>
      have hone : addExpectedPath tree path = .ok { tree with
          files := path :: tree.files
          directories := parents path ++ tree.directories } := by
        rw [addExpectedPath, rejectIf_of_not _ (Nat.not_lt.mpr (h path List.mem_cons_self))]
        rfl
      obtain ⟨expected, hexpected, hallowed, hfiles, hdirectories⟩ :=
        ih { tree with
          files := path :: tree.files
          directories := parents path ++ tree.directories }
          fun p hp => h p (List.mem_cons_of_mem _ hp)
      refine ⟨expected, by rw [List.foldlM_cons, hone, ok_bind, hexpected], hallowed, ?_, ?_⟩
      · intro p
        rw [hfiles, List.mem_cons, List.mem_cons]
        tauto
      · intro directory
        rw [hdirectories, List.mem_append]
        simp only [List.mem_cons, exists_eq_or_imp]
        rw [or_left_comm, or_assoc]

theorem depth_of_foldlM_addExpectedPath {tree expected : ExpectedTree} {paths : List BundlePath}
    (h : paths.foldlM addExpectedPath tree = .ok expected) :
    ∀ path ∈ paths, (components path).length ≤ maxDirectoryDepth + 1 := by
  induction paths generalizing tree with
  | nil => simp
  | cons path paths ih =>
      rw [List.foldlM_cons, bind_eq_ok] at h
      obtain ⟨next, hone, hrest⟩ := h
      rw [addExpectedPath, bind_eq_ok] at hone
      obtain ⟨_, hdepth, _⟩ := hone
      rw [List.forall_mem_cons]
      exact ⟨Nat.not_lt.mp (rejectIf_eq_ok.mp hdepth), ih hrest⟩

theorem fromManifest_eq_foldlM {manifest : BundleManifest}
    {allowedFile : Option (BundlePath × Nat)} :
    ExpectedTree.fromManifest manifest allowedFile =
      (declaredPaths manifest allowedFile).foldlM addExpectedPath ⟨[], [], allowedFile⟩ := by
  have hcount : ¬ maxBundleFiles < manifest.files.length :=
    Nat.not_lt.mpr (Nat.le_trans manifest.accepted.count BundleLimits.default.files_le)
  rw [ExpectedTree.fromManifest, rejectIf_of_not _ hcount, ok_bind, declaredPaths,
    List.foldlM_append]

theorem fromManifest_ok {manifest : BundleManifest} {allowedFile : Option (BundlePath × Nat)}
    (h : ∀ path ∈ declaredPaths manifest allowedFile,
      (components path).length ≤ maxDirectoryDepth + 1) :
    ∃ expected, ExpectedTree.fromManifest manifest allowedFile = .ok expected ∧
      expected.allowedFile = allowedFile ∧ Expects expected (declaredPaths manifest allowedFile) := by
  obtain ⟨expected, hexpected, hallowed, hfiles, hdirectories⟩ :=
    foldlM_addExpectedPath ⟨[], [], allowedFile⟩ h
  rw [fromManifest_eq_foldlM]
  exact ⟨expected, hexpected, hallowed, by simpa using hfiles, by simpa using hdirectories⟩

theorem fromManifest_eq_ok {manifest : BundleManifest} {allowedFile : Option (BundlePath × Nat)}
    {expected : ExpectedTree} (h : ExpectedTree.fromManifest manifest allowedFile = .ok expected) :
    (∀ path ∈ declaredPaths manifest allowedFile,
      (components path).length ≤ maxDirectoryDepth + 1) ∧
      Expects expected (declaredPaths manifest allowedFile) := by
  have hdepth := depth_of_foldlM_addExpectedPath (fromManifest_eq_foldlM ▸ h)
  obtain ⟨expected', hexpected, _, hexpects⟩ := fromManifest_ok hdepth
  rw [h] at hexpected
  cases hexpected
  exact ⟨hdepth, hexpects⟩

/-- A directory on the way to a file is not as deep as the file. -/
theorem length_of_mem_parents {path : BundlePath} {directory : Path}
    (h : directory ∈ parents path) : directory.length < (components path).length := by
  obtain ⟨_, hprefix, hproper⟩ := mem_parents.mp h
  exact lt_of_le_of_ne hprefix.length_le fun heq => hproper (List.IsPrefix.eq_of_length hprefix heq)

theorem Expects.shallow {expected : ExpectedTree} {paths : List BundlePath}
    (h : Expects expected paths)
    (hdepth : ∀ path ∈ paths, (components path).length ≤ maxDirectoryDepth + 1) :
    ∀ directory ∈ expected.directories, directory.length ≤ maxDirectoryDepth := by
  intro directory hdirectory
  obtain ⟨path, hpath, hparent⟩ := (h.directories directory).mp hdirectory
  have hlength := length_of_mem_parents hparent
  have hlimit := hdepth path hpath
  omega

/-! ## Trees with exactly these files -/

/-- The entries of a tree with these files: the files and the directories on the way to them. -/
def treeEntries (paths : List BundlePath) : List Path :=
  (paths.map components ++ paths.flatMap parents).dedup

theorem mem_treeEntries {paths : List BundlePath} {path : Path} :
    path ∈ treeEntries paths ↔
      (∃ file ∈ paths, path = components file) ∨ ∃ file ∈ paths, path ∈ parents file := by
  simp [treeEntries, eq_comm]

theorem treeEntries_length_congr {paths paths' : List BundlePath}
    (h : ∀ path, path ∈ paths ↔ path ∈ paths') :
    (treeEntries paths).length = (treeEntries paths').length := by
  apply List.Perm.length_eq
  apply (List.perm_ext_iff_of_nodup (List.nodup_dedup _) (List.nodup_dedup _)).mpr
  intro path
  show path ∈ treeEntries _ ↔ path ∈ treeEntries _
  simp only [mem_treeEntries, h]

/-- On one device, the tree holds regular files with one link at these paths, the directories on
the way to them, and nothing else. -/
structure Holds (tree : Tree) (device : Nat) (paths : List BundlePath) : Prop where
  root : ∃ n, tree.node [] = some n ∧ n.kind = .directory ∧ n.metadata.device = device
  file : ∀ path ∈ paths, ∃ n, tree.node (components path) = some n ∧ n.kind = .file ∧
    n.metadata.links = 1 ∧ n.metadata.device = device
  directory : ∀ path ∈ paths, ∀ directory ∈ parents path,
    ∃ n, tree.node directory = some n ∧ n.kind = .directory ∧ n.metadata.device = device
  only : ∀ path, tree.node path ≠ none → path = [] ∨ path ∈ treeEntries paths

/-- No two logical paths of the tree are equal up to ASCII case. -/
def Apart (tree : Tree) : Prop :=
  ∀ p q : BundlePath, tree.node (components p) ≠ none → tree.node (components q) ≠ none →
    logicalKey p = logicalKey q → p = q

/-- Every file is within the bound that the load has for it. -/
def Sized (tree : Tree) (expected : ExpectedTree) (paths : List BundlePath) : Prop :=
  ∀ path ∈ paths, ∀ n, tree.node (components path) = some n →
    n.bytes.length ≤ expected.maximumBytesFor path

namespace Holds

variable {tree : Tree} {device : Nat} {paths : List BundlePath} {expected : ExpectedTree}
  {root : PinnedRoot}

theorem of_mem_iff {paths' : List BundlePath} (h : Holds tree device paths)
    (hmem : ∀ path, path ∈ paths ↔ path ∈ paths') : Holds tree device paths' where
  root := h.root
  file path hpath := h.file path ((hmem path).mpr hpath)
  directory path hpath := h.directory path ((hmem path).mpr hpath)
  only path hnode := by
    have hentry := h.only path hnode
    simp only [mem_treeEntries, hmem] at hentry
    rwa [mem_treeEntries]

theorem isDirectory (h : Holds tree device paths) {path : BundlePath} (hpath : path ∈ paths)
    {directory : Path} (hdirectory : directory ∈ parents path) :
    tree.isDirectory directory = true := by
  obtain ⟨n, hnode, hkind, _⟩ := h.directory path hpath directory hdirectory
  simp [Tree.isDirectory, hnode, hkind]

theorem not_isDirectory (h : Holds tree device paths) {path : BundlePath} (hpath : path ∈ paths) :
    tree.isDirectory (components path) = false := by
  obtain ⟨n, hnode, hkind, _⟩ := h.file path hpath
  simp [Tree.isDirectory, hnode, hkind]

/-- The walk sees exactly the entries of the tree. -/
theorem mem_visible (h : Holds tree device paths)
    (hdepth : ∀ path ∈ paths, (components path).length ≤ maxDirectoryDepth + 1)
    {path : Path} : path ∈ visible tree (maxDirectoryDepth + 1) [] ↔ path ∈ treeEntries paths := by
  rw [Directory.mem_visible]
  constructor
  · intro hvisible
    obtain ⟨rest, hne, _, rfl, hnode, _⟩ := hvisible
    exact (h.only _ hnode).resolve_left hne
  · intro hentry
    have hbelow : ∃ file ∈ paths, path ≠ [] ∧ path <+: components file ∧
        tree.node path ≠ none := by
      rcases mem_treeEntries.mp hentry with ⟨file, hfile, rfl⟩ | ⟨file, hfile, hpath⟩
      · obtain ⟨n, hnode, _⟩ := h.file file hfile
        exact ⟨file, hfile, Install.components_ne_nil _, List.prefix_refl _, by simp [hnode]⟩
      · obtain ⟨n, hnode, _⟩ := h.directory file hfile path hpath
        obtain ⟨hne, hprefix, _⟩ := mem_parents.mp hpath
        exact ⟨file, hfile, hne, hprefix, by simp [hnode]⟩
    obtain ⟨file, hfile, hne, hprefix, hnode⟩ := hbelow
    refine ⟨path, hne, Nat.le_trans hprefix.length_le (hdepth file hfile), rfl, hnode, ?_⟩
    intro front hfront hshorter hproper
    apply h.isDirectory hfile
    refine mem_parents.mpr ⟨hfront, hshorter.trans hprefix, ?_⟩
    intro heq
    apply hproper
    rw [List.nil_append] at heq
    exact hshorter.eq_of_length_le (by rw [heq]; exact hprefix.length_le)

theorem visible_length (h : Holds tree device paths)
    (hdepth : ∀ path ∈ paths, (components path).length ≤ maxDirectoryDepth + 1) :
    (visible tree (maxDirectoryDepth + 1) []).length = (treeEntries paths).length := by
  apply List.Perm.length_eq
  apply (List.perm_ext_iff_of_nodup (visible_nodup _ _ _) (List.nodup_dedup _)).mpr
  intro path
  exact h.mem_visible hdepth

/-- Every visible entry fits a load that declares these paths. -/
theorem fits (h : Holds tree device paths)
    (hdepth : ∀ path ∈ paths, (components path).length ≤ maxDirectoryDepth + 1)
    (hexpects : Expects expected paths) (hsized : Sized tree expected paths)
    (hdevice : root.device = device) {path : Path}
    (hpath : path ∈ visible tree (maxDirectoryDepth + 1) []) :
    Fits tree root expected (fun logical => tree.node (components logical) ≠ none) path := by
  rcases mem_treeEntries.mp ((h.mem_visible hdepth).mp hpath) with
    ⟨file, hfile, rfl⟩ | ⟨file, hfile, hparent⟩
  · obtain ⟨n, hnode, hkind, hlinks, hon⟩ := h.file file hfile
    exact ⟨file, n, pathToBundleString_components _, by simp [hnode], hnode, hon.trans hdevice.symm,
      .inr ⟨hkind, hlinks, (hexpects.files _).mpr hfile, hsized file hfile n hnode⟩⟩
  · obtain ⟨n, hnode, hkind, hon⟩ := h.directory file hfile path hparent
    obtain ⟨logical, hparse, _⟩ := pathToBundleString_parent hparent
    have hcomponents := components_of_pathToBundleString (mem_parents.mp hparent).1
      (plain_of_mem_parents hparent) hparse
    refine ⟨logical, n, hparse, by simp [hcomponents, hnode], hnode, hon.trans hdevice.symm,
      .inl ⟨hkind, (hexpects.directories _).mpr ⟨file, hfile, hparent⟩⟩⟩

theorem revalidate (h : Holds tree device paths) (hopen : PinnedRoot.open tree = .ok root) :
    root.revalidate tree = .ok () := by
  obtain ⟨n, hnode, hkind, _⟩ := h.root
  simp only [PinnedRoot.open, hnode, okOr, ok_bind, bind_eq_ok, rejectIf_eq_ok, exists_const, pure,
    Except.pure, Except.ok.injEq] at hopen
  obtain ⟨_, _, rfl⟩ := hopen
  simp [PinnedRoot.revalidate, hnode, okOr, hkind]

theorem open_eq_ok (h : Holds tree device paths) :
    ∃ root, PinnedRoot.open tree = .ok root ∧ root.device = device := by
  obtain ⟨n, hnode, hkind, hdevice⟩ := h.root
  refine ⟨⟨n.metadata.device, n.metadata.inode⟩, ?_, hdevice⟩
  simp [PinnedRoot.open, hnode, okOr, hkind, pure, Except.pure]

/-- A file of the tree is read back whole. -/
theorem readDeclaredFile_eq_ok (h : Holds tree device paths)
    (hdepth : ∀ path ∈ paths, (components path).length ≤ maxDirectoryDepth + 1)
    (hopen : PinnedRoot.open tree = .ok root) (hdevice : root.device = device)
    {path : BundlePath} (hpath : path ∈ paths) {n : Node} (hnode : tree.node (components path) = some n)
    {maximum : Nat} (hmaximum : n.bytes.length ≤ maximum) :
    readDeclaredFile tree root path maximum = .ok n.bytes := by
  obtain ⟨n', hnode', hkind, hlinks, hon⟩ := h.file path hpath
  rw [hnode] at hnode'
  cases hnode'
  have hcomponents : validateComponents tree root path = .ok () := by
    rw [validateComponents, rejectIf_of_not _ (Nat.not_lt.mpr (hdepth path hpath)), ok_bind,
      forEach_eq_ok]
    intro directory hdirectory
    obtain ⟨d, hd, hdkind, hddevice⟩ := h.directory path hpath directory hdirectory
    simp [validateComponent, hd, okOr, hdkind, hddevice, hdevice]
  have hregular : validateRegularMetadata root path n maximum = .ok () := by
    simp [validateRegularMetadata, hkind, hlinks, hon, hdevice, hmaximum]
  have htake : n.bytes.take (maximum + 1) = n.bytes :=
    List.take_of_length_le (Nat.le_succ_of_le hmaximum)
  simp only [readDeclaredFile, hcomponents, hnode, hregular, htake, okOr, ok_bind,
    h.revalidate hopen, rejectIf_of_not _ (Nat.not_lt.mpr hmaximum), ne_eq,
    not_true_eq_false, not_false_eq_true, rejectIf_of_not, pure, Except.pure]

/-- A file of the tree is a candidate. -/
theorem loadFile_eq_ok (h : Holds tree device paths)
    (hdepth : ∀ path ∈ paths, (components path).length ≤ maxDirectoryDepth + 1)
    (hopen : PinnedRoot.open tree = .ok root) (hdevice : root.device = device)
    {file : CandidateFile} (hfile : file.path ∈ paths)
    (hbytes : ∃ n, tree.node (components file.path) = some n ∧ n.bytes = file.bytes) :
    loadFile tree root file.path = .ok file := by
  obtain ⟨n, hnode, hbytes⟩ := hbytes
  have hlength : n.bytes.length ≤ maxBundleFileBytes := by
    rw [hbytes]
    exact file.bounded
  have hread := h.readDeclaredFile_eq_ok hdepth hopen hdevice hfile hnode hlength
  rw [hbytes] at hread
  simp only [loadFile, h.revalidate hopen, hread, ok_bind, CandidateFile.new]
  rw [dif_neg (Nat.not_lt.mpr file.bounded)]
  rfl

/-- Only the number of entries can end the walk over such a tree. -/
theorem inspectTree_within (h : Holds tree device paths)
    (hdepth : ∀ path ∈ paths, (components path).length ≤ maxDirectoryDepth + 1)
    (hapart : Apart tree) (hexpects : Expects expected paths) (hsized : Sized tree expected paths)
    (hopen : PinnedRoot.open tree = .ok root) (hdevice : root.device = device) :
    WithinLimit (treeEntries paths).length (inspectTree tree root expected)
      fun observed => ∀ path ∈ paths, path ∈ observed.files := by
  obtain ⟨n, hnode, hkind, hon⟩ := h.root
  have hwalk := inspectDirectory_within hapart (hexpects.shallow hdepth)
    (rfl : maxDirectoryDepth + 1 + 0 = maxDirectoryDepth + 1) (Nat.zero_le _) hnode hkind
    (hon.trans hdevice.symm)
    (fun path hpath => h.fits hdepth hexpects hsized hdevice hpath) .empty
    (by simp [Recorded, ObservedTree.empty]) (Nat.zero_le _)
  rw [ObservedTree.empty, Nat.zero_add] at hwalk
  unfold inspectTree
  rw [← h.visible_length hdepth]
  apply hwalk.bind (Nat.le_refl _)
  intro hlimit observed hobserved
  rw [h.revalidate hopen, ok_bind]
  apply WithinLimit.ok _ hlimit
  intro path hpath
  have hentry : components path ∈ treeEntries paths := mem_treeEntries.mpr (.inl ⟨_, hpath, rfl⟩)
  exact hobserved.files _ ((h.mem_visible hdepth).mpr hentry) (h.not_isDirectory hpath) _
    (pathToBundleString_components _)

/-- The loader returns the declared files, unless the tree has too many entries. -/
theorem loadCandidate_eq {manifest : BundleManifest} {allowedFile : Option (BundlePath × Nat)}
    {files : List CandidateFile} (h : Holds tree device (declaredPaths manifest allowedFile))
    (hdepth : ∀ path ∈ declaredPaths manifest allowedFile,
      (components path).length ≤ maxDirectoryDepth + 1) (hapart : Apart tree)
    (hfiles : files.map (·.path) = manifest.files.map (·.path))
    (hbytes : ∀ file ∈ files, ∃ n, tree.node (components file.path) = some n ∧ n.bytes = file.bytes)
    (hallowed : ∀ path maximum, allowedFile = some (path, maximum) →
      ∀ n, tree.node (components path) = some n → n.bytes.length ≤ maximum) :
    loadCandidate tree manifest allowedFile =
      if (treeEntries (declaredPaths manifest allowedFile)).length ≤ maxVisibleEntries
      then .ok files else .error .traversalLimitExceeded := by
  obtain ⟨root, hopen, hdevice⟩ := h.open_eq_ok
  obtain ⟨expected, hexpected, hsame, hexpects⟩ := fromManifest_ok hdepth
  have hdeclared : ∀ path, path ∈ manifest.files.map (·.path) →
      path ∈ declaredPaths manifest allowedFile := fun path hpath => List.mem_append_left _ hpath
  have hsized : Sized tree expected (declaredPaths manifest allowedFile) := by
    intro path hpath n hnode
    rw [ExpectedTree.maximumBytesFor, hsame]
    rcases List.mem_append.mp hpath with hpath | hpath
    · rw [← hfiles] at hpath
      obtain ⟨file, hfile, rfl⟩ := List.mem_map.mp hpath
      obtain ⟨n', hnode', hbytes'⟩ := hbytes file hfile
      rw [hnode] at hnode'
      cases hnode'
      have hbounded : n.bytes.length ≤ maxBundleFileBytes := hbytes' ▸ file.bounded
      split
      · next allowed maximum =>
          split
          · next heq => exact hallowed allowed maximum rfl n (heq ▸ hnode)
          · exact hbounded
      · exact hbounded
    · cases allowedFile with
      | none => cases hpath
      | some allowed =>
          obtain ⟨allowed, maximum⟩ := allowed
          obtain rfl : path = allowed := by simpa using hpath
          simpa using hallowed path maximum rfl n hnode
  have hwalk := h.inspectTree_within hdepth hapart hexpects hsized hopen hdevice
  have hcollect : collect (loadFile tree root) (manifest.files.map (·.path)) = .ok files := by
    rw [← hfiles, collect_eq_ok, List.forall₂_map_left_iff, List.forall₂_same]
    intro file hfile
    exact h.loadFile_eq_ok hdepth hopen hdevice
      (hdeclared _ (hfiles ▸ List.mem_map_of_mem hfile)) (hbytes file hfile)
  simp only [loadCandidate, hopen, hexpected, ok_bind]
  by_cases hlimit :
      (treeEntries (declaredPaths manifest allowedFile)).length ≤ maxVisibleEntries
  · obtain ⟨observed, hinspect, hobserved⟩ := hwalk.within hlimit
    have hpresent : ∀ paths : List BundlePath, paths ⊆ declaredPaths manifest allowedFile →
        forEach (fun path => rejectIf (path ∉ observed.files)
          (LocalCandidateError.missingDeclaredFile path)) paths = .ok () := by
      intro paths hsubset
      rw [forEach_eq_ok]
      intro path hpath
      exact rejectIf_of_not _ (not_not.mpr (hobserved path (hsubset hpath)))
    rw [if_pos hlimit, hinspect, ok_bind, hpresent _ (List.subset_append_left _ _), ok_bind, hsame,
      hpresent _ (List.subset_append_right _ _), ok_bind, hcollect]
    simp [h.revalidate hopen, pure, Except.pure]
  · rw [if_neg hlimit, hwalk.above (Nat.lt_of_not_le hlimit)]
    rfl

end Holds

/-! ## Materialized trees -/

/-- On one device, the tree holds these files as regular files with one link, the directories
on the way to them, and nothing else. -/
structure Materializes (tree : Tree) (device : Nat) (files : List CandidateFile) : Prop where
  root : ∃ n, tree.node [] = some n ∧ n.kind = .directory ∧ n.metadata.device = device
  file : ∀ file ∈ files, ∃ n, tree.node (components file.path) = some n ∧ n.kind = .file ∧
    n.metadata.links = 1 ∧ n.metadata.device = device ∧ n.bytes = file.bytes
  directory : ∀ file ∈ files, ∀ path ∈ parents file.path,
    ∃ n, tree.node path = some n ∧ n.kind = .directory ∧ n.metadata.device = device
  only : ∀ path, tree.node path ≠ none → path = [] ∨ path ∈ treeEntries (files.map (·.path))

namespace Materializes

variable {tree : Tree} {device : Nat} {files : List CandidateFile}

theorem holds (h : Materializes tree device files) :
    Holds tree device (files.map (·.path)) where
  root := h.root
  file path hpath := by
    obtain ⟨file, hfile, rfl⟩ := List.mem_map.mp hpath
    obtain ⟨n, hnode, hkind, hlinks, hdevice, _⟩ := h.file file hfile
    exact ⟨n, hnode, hkind, hlinks, hdevice⟩
  directory path hpath := by
    obtain ⟨file, hfile, rfl⟩ := List.mem_map.mp hpath
    exact h.directory file hfile
  only := h.only

/-- What is in the tree is declared by a manifest of its files. -/
theorem declared (h : Materializes tree device files) {manifest : BundleManifest}
    (hmem : ∀ path, path ∈ files.map (·.path) ↔ path ∈ manifest.files.map (·.path))
    {logical : BundlePath} (hnode : tree.node (components logical) ≠ none) :
    ∃ kind, Declared manifest logical kind := by
  have hentry := (h.only _ hnode).resolve_left (Install.components_ne_nil _)
  rcases mem_treeEntries.mp hentry with ⟨path, hpath, heq⟩ | ⟨path, hpath, hparent⟩
  · rw [components_injective heq]
    exact ⟨.file, (hmem path).mp hpath⟩
  · obtain ⟨declared, hdeclared, hdeclaredPath⟩ := List.mem_map.mp ((hmem path).mp hpath)
    obtain ⟨parent, hparse, rest, hrest⟩ := pathToBundleString_parent hparent
    rw [pathToBundleString_components] at hparse
    cases hparse
    exact ⟨.directory, declared, hdeclared, rest, by rw [hdeclaredPath, hrest]⟩

/-- The loader returns the files sorted by path, unless the tree has too many entries. -/
theorem loadCandidate_eq (h : Materializes tree device files)
    (hdepth : ∀ file ∈ files, (components file.path).length ≤ maxDirectoryDepth + 1)
    {manifest : BundleManifest} (hportable : Portable manifest)
    (hperm : (files.map (·.path)).Perm (manifest.files.map (·.path))) :
    loadCandidate tree manifest none =
      if (treeEntries (files.map (·.path))).length ≤ maxVisibleEntries
      then .ok (sortByKey (·.path) files) else .error .traversalLimitExceeded := by
  have hmem : ∀ path, path ∈ files.map (·.path) ↔ path ∈ declaredPaths manifest none := by
    intro path
    rw [hperm.mem_iff]
    simp [declaredPaths]
  have hshort : ∀ path ∈ declaredPaths manifest none,
      (components path).length ≤ maxDirectoryDepth + 1 := by
    intro path hpath
    obtain ⟨file, hfile, rfl⟩ := List.mem_map.mp ((hmem path).mpr hpath)
    exact hdepth file hfile
  have hapart : Apart tree := by
    intro p q hp hq hkey
    obtain ⟨kind, hp⟩ := h.declared (fun path => hperm.mem_iff) hp
    obtain ⟨kind', hq⟩ := h.declared (fun path => hperm.mem_iff) hq
    exact (hportable p kind q kind' hp hq hkey).1
  have hdistinct : (files.map (·.path)).Nodup :=
    hperm.nodup_iff.mpr manifest.accepted.distinct
  have hsorted : (sortByKey CandidateFile.path files).map (·.path) =
      manifest.files.map (·.path) := by
    apply eq_of_perm_of_strict id
    · exact ((sortByKey_perm CandidateFile.path files).map _).trans hperm
    · exact List.pairwise_map.mpr (sortByKey_strict _ hdistinct)
    · exact List.pairwise_map.mpr manifest.sorted
  rw [treeEntries_length_congr hmem]
  apply (h.holds.of_mem_iff hmem).loadCandidate_eq hshort hapart hsorted
  · intro file hfile
    obtain ⟨n, hnode, _, _, _, hbytes⟩ := h.file file ((mem_sortByKey _).mp hfile)
    exact ⟨n, hnode, hbytes⟩
  · intro path maximum hnone
    cases hnone

end Materializes

/-! ## A tree for given files -/

def fileNode (device : Nat) (file : CandidateFile) : Node :=
  ⟨⟨.file, device, 0, 1, 0o600⟩, file.bytes⟩

def directoryNode (device : Nat) : Node := ⟨⟨.directory, device, 0, 2, 0o700⟩, []⟩

def materializedNode (device : Nat) (files : List CandidateFile) (path : Path) : Option Node :=
  match files.find? fun file => components file.path = path with
  | some file => some (fileNode device file)
  | none =>
      if path = [] ∨ path ∈ treeEntries (files.map (·.path)) then some (directoryNode device)
      else none

theorem materializedNode_eq_none {device : Nat} {files : List CandidateFile} {path : Path} :
    materializedNode device files path = none ↔
      path ≠ [] ∧ path ∉ treeEntries (files.map (·.path)) := by
  unfold materializedNode
  split
  · next file hfind =>
      have hpath := List.find?_some hfind
      have hmem := List.mem_of_find?_eq_some hfind
      have hentry : path ∈ treeEntries (files.map (·.path)) :=
        mem_treeEntries.mpr (.inl ⟨file.path, List.mem_map_of_mem hmem,
          (of_decide_eq_true hpath).symm⟩)
      simp [hentry]
  · split
    · next hpath => simpa using fun hne => hpath.resolve_left hne
    · next hpath => simpa using hpath

/-- The names of the entries of a directory. -/
def entryNames (files : List CandidateFile) (directory : Path) : List String :=
  (treeEntries (files.map (·.path))).filterMap fun path =>
    if path.dropLast = directory then path.getLast? else none

theorem mem_entryNames {files : List CandidateFile} {directory : Path} {name : String} :
    name ∈ entryNames files directory ↔ directory ++ [name] ∈ treeEntries (files.map (·.path)) := by
  rw [entryNames, List.mem_filterMap]
  constructor
  · intro h
    obtain ⟨path, hpath, hname⟩ := h
    split at hname
    · next hdirectory =>
        rw [← hdirectory, List.dropLast_append_getLast? name hname]
        exact hpath
    · cases hname
  · intro h
    exact ⟨directory ++ [name], h, by simp⟩

def materialize (device : Nat) (files : List CandidateFile) : Tree where
  node := materializedNode device files
  readDir := entryNames files
  mem_readDir := by
    intro directory name
    rw [mem_entryNames, Ne, materializedNode_eq_none]
    simp
  readDir_nodup := by
    intro directory
    apply List.Nodup.filterMap _ (List.nodup_dedup _)
    intro path path' name hname hname'
    rw [Option.mem_def] at hname hname'
    split at hname
    · next hdirectory =>
        split at hname'
        · next hdirectory' =>
            rw [← List.dropLast_append_getLast? name hname,
              ← List.dropLast_append_getLast? name hname', hdirectory, hdirectory']
        · cases hname'
    · cases hname

/-- Files of distinct paths none of which is a directory on the way to another. -/
theorem materializes_materialize (device : Nat) {files : List CandidateFile}
    (hdistinct : (files.map (·.path)).Nodup)
    (hapart : ∀ file ∈ files, ∀ other ∈ files, components file.path ∉ parents other.path) :
    Materializes (materialize device files) device files := by
  have hfind : ∀ file ∈ files,
      files.find? (fun other => components other.path = components file.path) = some file := by
    intro file hfile
    cases hother : files.find? fun other => components other.path = components file.path with
    | none =>
        have hnone := List.find?_eq_none.mp hother file hfile
        simp at hnone
    | some other =>
        have hfound := List.find?_some hother
        have hsame := components_injective (of_decide_eq_true hfound)
        rw [eq_of_key_eq _ hdistinct (List.mem_of_find?_eq_some hother) hfile hsame]
  have hdirectory : ∀ path, (path = [] ∨ ∃ file ∈ files, path ∈ parents file.path) →
      materializedNode device files path = some (directoryNode device) := by
    intro path hpath
    have hnone : files.find? (fun other => components other.path = path) = none := by
      rw [List.find?_eq_none]
      intro other hother hsame
      have hsame := of_decide_eq_true hsame
      rcases hpath with hpath | ⟨file, hfile, hpath⟩
      · exact Install.components_ne_nil other.path (hsame.trans hpath)
      · exact hapart other hother file hfile (hsame ▸ hpath)
    have hentry : path = [] ∨ path ∈ treeEntries (files.map (·.path)) := by
      rcases hpath with hpath | ⟨file, hfile, hpath⟩
      · exact .inl hpath
      · exact .inr (mem_treeEntries.mpr (.inr ⟨_, List.mem_map_of_mem hfile, hpath⟩))
    rw [materializedNode, hnone]
    exact if_pos hentry
  constructor
  · exact ⟨_, hdirectory [] (.inl rfl), rfl, rfl⟩
  · intro file hfile
    refine ⟨fileNode device file, ?_, rfl, rfl, rfl, rfl⟩
    show materializedNode device files (components file.path) = _
    rw [materializedNode, hfind file hfile]
  · intro file hfile path hpath
    exact ⟨_, hdirectory path (.inr ⟨file, hfile, hpath⟩), rfl, rfl⟩
  · intro path hpath
    by_contra hnone
    rw [not_or] at hnone
    exact hpath (materializedNode_eq_none.mpr hnone)

end Invokrum.Directory
