import Invokrum.Install.Calls

/-!
# The directory loader

The loader walks a candidate directory, compares every entry with the manifest
and reads the declared files. The directory does not change meanwhile, so two
looks at one entry agree and every opened descriptor is the entry it was opened
for; what remains are the checks on what is there.
-/

namespace Invokrum.Directory

open Outcome Ordered Invokrum.Distribution Invokrum.FileSystem
open Acquisition (CandidateFile)
open Install (LocalCandidateError components)
open Text (Bytes)

def maxDirectoryDepth : Nat := 64

def maxVisibleEntries : Nat := 16384

abbrev Load (α : Type) : Type := Except LocalCandidateError α

/-- A candidate directory: its nodes, by paths relative to the candidate root, and the names
that `read_dir` yields for a directory, in no particular order. -/
structure Tree where
  node : Path → Option Node
  readDir : Path → List String
  mem_readDir : ∀ directory name, name ∈ readDir directory ↔ node (directory ++ [name]) ≠ none
  readDir_nodup : ∀ directory, (readDir directory).Nodup

/-! ## The root -/

structure PinnedRoot where
  device : Nat
  inode : Nat
deriving DecidableEq

def PinnedRoot.open (tree : Tree) : Load PinnedRoot := do
  let lexical ← okOr (tree.node []) .rootUnavailable
  rejectIf (lexical.kind = .symlink) .rootSymlink
  rejectIf (lexical.kind ≠ .directory) .rootNotDirectory
  pure ⟨lexical.metadata.device, lexical.metadata.inode⟩

def PinnedRoot.revalidate (root : PinnedRoot) (tree : Tree) : Load Unit := do
  let node ← okOr (tree.node []) .rootChanged
  rejectIf (node.kind = .symlink ∨ node.kind ≠ .directory ∨ node.metadata.device ≠ root.device
    ∨ node.metadata.inode ≠ root.inode) .rootChanged

/-! ## The expected tree -/

/-- Directories are component lists. -/
structure ExpectedTree where
  files : List BundlePath
  directories : List Path
  allowedFile : Option (BundlePath × Nat)

/-- The directories on the way to a file. -/
def parents (path : BundlePath) : List Path := (components path).dropLast.inits.tail

def addExpectedPath (tree : ExpectedTree) (path : BundlePath) : Load ExpectedTree := do
  rejectIf (maxDirectoryDepth + 1 < (components path).length) .traversalLimitExceeded
  pure { tree with
    files := path :: tree.files
    directories := parents path ++ tree.directories }

def ExpectedTree.fromManifest (manifest : BundleManifest)
    (allowedFile : Option (BundlePath × Nat)) : Load ExpectedTree := do
  rejectIf (maxBundleFiles < manifest.files.length) .traversalLimitExceeded
  let expected ← (manifest.files.map (·.path)).foldlM addExpectedPath ⟨[], [], allowedFile⟩
  (allowedFile.map (·.1)).toList.foldlM addExpectedPath expected

def ExpectedTree.maximumBytesFor (expected : ExpectedTree) (path : BundlePath) : Nat :=
  match expected.allowedFile with
  | some (allowed, maximum) => if allowed = path then maximum else maxBundleFileBytes
  | none => maxBundleFileBytes

/-! ## The walk -/

structure ObservedTree where
  files : List BundlePath
  logicalPaths : List (List Char × BundlePath)
  entries : Nat

def ObservedTree.empty : ObservedTree := ⟨[], [], 0⟩

/-- The name of an entry must be ASCII and its path a bundle path, which it is only then. -/
def pathToBundleString (path : Path) : Load BundlePath :=
  (BundlePath.parse (String.ofList (Text.join '/' (path.map String.toList)))).mapError
    fun _ => .invalidEntryName

/-- `path.to_ascii_lowercase()`. -/
def logicalKey (path : BundlePath) : List Char := path.text.toList.map Char.toLower

def recordLogicalPath (observed : ObservedTree) (path : BundlePath) : Load ObservedTree :=
  match observed.logicalPaths.lookup (logicalKey path) with
  | some existing => do
      rejectIf (existing ≠ path) .logicalPathCollision
      pure observed
  | none =>
      pure { observed with logicalPaths := (logicalKey path, path) :: observed.logicalPaths }

/-- One more directory entry. -/
def countEntry (entries : Nat) (_ : String) : Load Nat := do
  rejectIf (maxVisibleEntries < entries + 1) .traversalLimitExceeded
  pure (entries + 1)

/-- The body of the loop over the entries of a directory; `descend` walks a subdirectory. -/
def inspectEntry (tree : Tree) (root : PinnedRoot) (expected : ExpectedTree)
    (descend : Path → ObservedTree → Load ObservedTree) (directory : Path)
    (observed : ObservedTree) (name : String) : Load ObservedTree := do
  let relative := directory ++ [name]
  let logical ← pathToBundleString relative
  let observed ← recordLogicalPath observed logical
  let node ← okOr (tree.node relative) .treeChanged
  rejectIf (node.kind = .symlink) (.symbolicLink logical)
  rejectIf (node.metadata.device ≠ root.device) .deviceBoundary
  if node.kind = .directory then do
    rejectIf (relative ∉ expected.directories) (.undeclaredEntry logical)
    descend relative observed
  else do
    rejectIf (node.kind ≠ .file) (.nonRegularFile logical)
    rejectIf (node.metadata.links ≠ 1) (.hardLinkedFile logical)
    rejectIf (logical ∉ expected.files) (.undeclaredEntry logical)
    rejectIf (expected.maximumBytesFor logical < node.bytes.length) (.fileTooLarge logical)
    pure { observed with files := logical :: observed.files }

/-- The first argument counts the levels that are left; at depth `maxDirectoryDepth + 1` none
is. -/
def inspectDirectory (tree : Tree) (root : PinnedRoot) (expected : ExpectedTree) :
    Nat → Path → ObservedTree → Load ObservedTree
  | 0, _, _ => .error .traversalLimitExceeded
  | levels + 1, directory, observed => do
      let node ← okOr (tree.node directory) .treeChanged
      rejectIf (node.kind = .symlink ∨ node.kind ≠ .directory
        ∨ node.metadata.device ≠ root.device) .treeChanged
      let entries ← (tree.readDir directory).foldlM countEntry observed.entries
      (sortByKey id (tree.readDir directory)).foldlM
        (inspectEntry tree root expected (inspectDirectory tree root expected levels) directory)
        { observed with entries := entries }

def inspectTree (tree : Tree) (root : PinnedRoot) (expected : ExpectedTree) :
    Load ObservedTree := do
  let observed ← inspectDirectory tree root expected (maxDirectoryDepth + 1) [] .empty
  root.revalidate tree
  pure observed

/-! ## Reading a file -/

def validateComponent (tree : Tree) (root : PinnedRoot) (relative : BundlePath)
    (directory : Path) : Load Unit := do
  let node ← okOr (tree.node directory) (.missingDeclaredFile relative)
  rejectIf (node.kind = .symlink) (.symbolicLink relative)
  rejectIf (node.kind ≠ .directory) (.nonRegularFile relative)
  rejectIf (node.metadata.device ≠ root.device) .deviceBoundary

def validateComponents (tree : Tree) (root : PinnedRoot) (relative : BundlePath) : Load Unit := do
  rejectIf (maxDirectoryDepth + 1 < (components relative).length) .traversalLimitExceeded
  forEach (validateComponent tree root relative) (parents relative)

def validateRegularMetadata (root : PinnedRoot) (relative : BundlePath) (node : Node)
    (maximumBytes : Nat) : Load Unit := do
  rejectIf (node.kind ≠ .file) (.nonRegularFile relative)
  rejectIf (node.metadata.links ≠ 1) (.hardLinkedFile relative)
  rejectIf (node.metadata.device ≠ root.device) .deviceBoundary
  rejectIf (maximumBytes < node.bytes.length) (.fileTooLarge relative)

def readDeclaredFile (tree : Tree) (root : PinnedRoot) (relative : BundlePath)
    (maximumBytes : Nat) : Load Bytes := do
  validateComponents tree root relative
  let node ← okOr (tree.node (components relative)) (.missingDeclaredFile relative)
  validateRegularMetadata root relative node maximumBytes
  let bytes := node.bytes.take (maximumBytes + 1)
  rejectIf (maximumBytes < bytes.length) (.fileTooLarge relative)
  rejectIf (node.bytes.length ≠ bytes.length) (.fileChanged relative)
  root.revalidate tree
  pure bytes

/-! ## Loading -/

/-- The candidate file of one declared path. -/
def loadFile (tree : Tree) (root : PinnedRoot) (path : BundlePath) : Load CandidateFile := do
  root.revalidate tree
  let bytes ← readDeclaredFile tree root path maxBundleFileBytes
  (CandidateFile.new path bytes).mapError fun _ => .fileTooLarge path

def loadCandidate (tree : Tree) (manifest : BundleManifest)
    (allowedFile : Option (BundlePath × Nat)) : Load (List CandidateFile) := do
  let pinned ← PinnedRoot.open tree
  let expected ← ExpectedTree.fromManifest manifest allowedFile
  let observed ← inspectTree tree pinned expected
  forEach (fun path => rejectIf (path ∉ observed.files) (.missingDeclaredFile path))
    (manifest.files.map (·.path))
  forEach (fun path => rejectIf (path ∉ observed.files) (.missingDeclaredFile path))
    (expected.allowedFile.map (·.1)).toList
  let candidates ← collect (loadFile tree pinned) (manifest.files.map (·.path))
  pinned.revalidate tree
  pure candidates

def readCandidateFile (tree : Tree) (path : BundlePath) (maximumBytes : Nat) : Load Bytes := do
  let pinned ← PinnedRoot.open tree
  readDeclaredFile tree pinned path maximumBytes

/-! ## What a read returns -/

theorem validateRegularMetadata_eq_ok {root : PinnedRoot} {relative : BundlePath} {node : Node}
    {maximumBytes : Nat} {u : Unit} :
    validateRegularMetadata root relative node maximumBytes = .ok u ↔
      node.kind = .file ∧ node.metadata.links = 1 ∧ node.metadata.device = root.device ∧
        node.bytes.length ≤ maximumBytes := by
  simp [validateRegularMetadata]

/-- The bytes of a read are the whole content of the file. -/
theorem readDeclaredFile_eq_ok {tree : Tree} {root : PinnedRoot} {relative : BundlePath}
    {maximumBytes : Nat} {bytes : Bytes}
    (h : readDeclaredFile tree root relative maximumBytes = .ok bytes) :
    ∃ n, tree.node (components relative) = some n ∧ n.kind = .file ∧ n.bytes = bytes ∧
      bytes.length ≤ maximumBytes := by
  simp only [readDeclaredFile, bind_eq_ok, okOr_eq_ok, rejectIf_eq_ok, exists_const,
    validateRegularMetadata_eq_ok, pure, Except.pure, Except.ok.injEq, not_not, not_lt] at h
  obtain ⟨_, _, n, hnode, hregular, hlimit, hwhole, _, _, rfl⟩ := h
  have hbytes : n.bytes.take (maximumBytes + 1) = n.bytes :=
    (List.take_prefix _ _).eq_of_length hwhole.symm
  exact ⟨n, hnode, hregular.1, hbytes.symm, hlimit⟩

/-! ## The order of a listing -/

variable {tree tree' : Tree} {root : PinnedRoot} {expected : ExpectedTree}

theorem Tree.readDir_perm (h : tree.node = tree'.node) (directory : Path) :
    (tree.readDir directory).Perm (tree'.readDir directory) := by
  rw [List.perm_ext_iff_of_nodup (tree.readDir_nodup _) (tree'.readDir_nodup _)]
  intro name
  rw [tree.mem_readDir, tree'.mem_readDir, h]

theorem foldlM_countEntry_congr {names names' : List String} (h : names.length = names'.length)
    (entries : Nat) : names.foldlM countEntry entries = names'.foldlM countEntry entries := by
  induction names generalizing names' entries with
  | nil =>
      cases names' with
      | nil => rfl
      | cons name' names' => cases h
  | cons name names ih =>
      cases names' with
      | nil => cases h
      | cons name' names' =>
          rw [List.foldlM_cons, List.foldlM_cons]
          exact congrArg (countEntry entries name >>= ·) (funext (ih (Nat.succ.inj h)))

theorem inspectEntry_congr (h : tree.node = tree'.node)
    {descend : Path → ObservedTree → Load ObservedTree} :
    inspectEntry tree root expected descend = inspectEntry tree' root expected descend := by
  funext directory observed name
  rw [inspectEntry, inspectEntry, h]

/-- The walk depends on the nodes only: names are visited in their own order. -/
theorem inspectDirectory_congr (h : tree.node = tree'.node) (levels : Nat) :
    inspectDirectory tree root expected levels = inspectDirectory tree' root expected levels := by
  induction levels with
  | zero => rfl
  | succ levels ih =>
      funext directory observed
      have hperm := Tree.readDir_perm h directory
      have hsorted : sortByKey id (tree.readDir directory) =
          sortByKey id (tree'.readDir directory) :=
        sortByKey_eq_of_perm id hperm (by simpa using tree.readDir_nodup directory)
      rw [inspectDirectory, inspectDirectory, h, hsorted, ih, inspectEntry_congr h,
        foldlM_countEntry_congr hperm.length_eq]

theorem open_congr (h : tree.node = tree'.node) : PinnedRoot.open tree = PinnedRoot.open tree' := by
  rw [PinnedRoot.open, PinnedRoot.open, h]

theorem revalidate_congr (h : tree.node = tree'.node) : root.revalidate tree = root.revalidate tree' := by
  rw [PinnedRoot.revalidate, PinnedRoot.revalidate, h]

theorem readDeclaredFile_congr (h : tree.node = tree'.node) (path : BundlePath) (maximumBytes : Nat) :
    readDeclaredFile tree root path maximumBytes = readDeclaredFile tree' root path maximumBytes := by
  have hone : validateComponent tree root path = validateComponent tree' root path := by
    funext directory
    rw [validateComponent, validateComponent, h]
  rw [readDeclaredFile, readDeclaredFile, validateComponents, validateComponents, hone, h,
    revalidate_congr h]

theorem readCandidateFile_congr (h : tree.node = tree'.node) (path : BundlePath)
    (maximumBytes : Nat) :
    readCandidateFile tree path maximumBytes = readCandidateFile tree' path maximumBytes := by
  rw [readCandidateFile, readCandidateFile, open_congr h]
  simp only [readDeclaredFile_congr h]

theorem loadCandidate_congr (h : tree.node = tree'.node) (manifest : BundleManifest)
    (allowedFile : Option (BundlePath × Nat)) :
    loadCandidate tree manifest allowedFile = loadCandidate tree' manifest allowedFile := by
  have hload : ∀ root, loadFile tree root = loadFile tree' root := by
    intro root
    funext path
    rw [loadFile, loadFile, revalidate_congr h, readDeclaredFile_congr h]
  have hinspect : ∀ root expected, inspectTree tree root expected =
      inspectTree tree' root expected := by
    intro root expected
    rw [inspectTree, inspectTree, inspectDirectory_congr h, revalidate_congr h]
  rw [loadCandidate, loadCandidate, open_congr h]
  simp only [hinspect, hload, revalidate_congr h]

end Invokrum.Directory
