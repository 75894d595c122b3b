import Invokrum.Archive.Header

/-!
# The tree a manifest expects

The files of the manifest and every parent directory of one. Building the tree
fails only on two logical paths that differ at most in ASCII case; the parents
of a bundle path are always bundle paths.
-/

namespace Invokrum.Archive

open Outcome Ordered Slice Invokrum.Distribution
open Text (Bytes)

/-- `text.rsplit_once('/')`, the part before the last slash. -/
def parentText : List Char → Option (List Char)
  | [] => none
  | c :: cs =>
      match parentText cs with
      | some parent => some (c :: parent)
      | none => if c = '/' then some [] else none

/-- The parents of a text, nearest first. -/
def ancestors : Nat → List Char → List (List Char)
  | 0, _ => []
  | fuel + 1, text =>
      match parentText text with
      | some parent => parent :: ancestors fuel parent
      | none => []

/-- The collision key: ASCII lower case. -/
def logicalKey (path : BundlePath) : List Char := path.text.toList.map Char.toLower

structure ExpectedTree where
  files : SortedSet BundlePath
  directories : SortedSet BundlePath

def ExpectedTree.contains (tree : ExpectedTree) (path : BundlePath) : EntryKind → Bool
  | .file => decide (path ∈ tree.files)
  | .directory => decide (path ∈ tree.directories)

def parseDirectory (parent : List Char) : Parse BundlePath :=
  (BundlePath.parse (String.ofList parent)).mapError fun _ => .returned .invalidEntryName

def parentDirectories (path : BundlePath) : Parse (List BundlePath) :=
  collect parseDirectory (ancestors path.text.toList.length path.text.toList)

def ensurePortableLogicalTree (files directories : SortedSet BundlePath) : Parse Unit :=
  rejectDuplicatesFrom logicalKey (fun path => .returned (.logicalPathCollision path)) []
    (files.toList ++ directories.toList)

def ExpectedTree.fromManifest (manifest : BundleManifest) : Parse ExpectedTree := do
  let files := SortedSet.ofList (manifest.files.map (·.path))
  let parents ← collect parentDirectories (manifest.files.map (·.path))
  let directories := SortedSet.ofList parents.flatten
  ensurePortableLogicalTree files directories
  pure ⟨files, directories⟩

/-! ## Parents -/

theorem parentText_eq_none {text : List Char} : parentText text = none ↔ '/' ∉ text := by
  induction text with
  | nil => simp [parentText]
  | cons c cs ih =>
      rw [parentText, List.mem_cons, not_or, ← ih]
      cases parentText cs with
      | none => by_cases hc : c = '/' <;> simp [hc, eq_comm]
      | some parent => simp

theorem parentText_eq_some {text parent : List Char} (h : parentText text = some parent) :
    ∃ rest, text = parent ++ '/' :: rest ∧ '/' ∉ rest := by
  induction text generalizing parent with
  | nil => cases h
  | cons c cs ih =>
      rw [parentText] at h
      cases hrest : parentText cs with
      | some nearest =>
          rw [hrest, Option.some.injEq] at h
          obtain ⟨rest, hcs, hnot⟩ := ih hrest
          exact ⟨rest, by rw [← h, hcs, List.cons_append], hnot⟩
      | none =>
          rw [hrest] at h
          by_cases hc : c = '/'
          · simp only [hc, if_true, Option.some.injEq] at h
            exact ⟨cs, by rw [← h, hc, List.nil_append], parentText_eq_none.mp hrest⟩
          · simp [hc] at h

/-- What precedes a slash of `nearest ++ '/' :: last` precedes its last slash or a slash
of `nearest`. -/
theorem split_at_slash {nearest last parent : List Char} (hlast : '/' ∉ last) :
    (∃ rest, nearest ++ '/' :: last = parent ++ '/' :: rest) ↔
      parent = nearest ∨ ∃ rest, nearest = parent ++ '/' :: rest := by
  constructor
  · intro h
    obtain ⟨rest, h⟩ := h
    rcases List.append_eq_append_iff.mp h with ⟨more, hparent, htail⟩ | ⟨more, hnearest, htail⟩
    · cases more with
      | nil => exact Or.inl (by rw [hparent, List.append_nil])
      | cons c more =>
          have hmem : '/' ∈ last := by
            rw [(List.cons.inj htail).2]
            simp
          exact absurd hmem hlast
    · cases more with
      | nil => exact Or.inl (by rw [hnearest, List.append_nil])
      | cons c more =>
          rw [← (List.cons.inj htail).1] at hnearest
          exact Or.inr ⟨more, hnearest⟩
  · intro h
    rcases h with rfl | ⟨rest, rfl⟩
    · exact ⟨last, rfl⟩
    · exact ⟨rest ++ '/' :: last, by simp⟩

/-- The ancestors of a text are its prefixes before a slash. -/
theorem mem_ancestors {fuel : Nat} {text parent : List Char} (hfuel : text.length ≤ fuel) :
    parent ∈ ancestors fuel text ↔ ∃ rest, text = parent ++ '/' :: rest := by
  induction fuel generalizing text with
  | zero =>
      have hnil : text = [] := List.length_eq_zero_iff.mp (Nat.le_zero.mp hfuel)
      simp [ancestors, hnil]
  | succ fuel ih =>
      cases hparent : parentText text with
      | none =>
          have hnot := parentText_eq_none.mp hparent
          simp only [ancestors, hparent, List.not_mem_nil, false_iff, not_exists]
          intro rest htext
          apply hnot
          simp [htext]
      | some nearest =>
          obtain ⟨last, rfl, hlast⟩ := parentText_eq_some hparent
          have hshort : nearest.length ≤ fuel := by
            simp only [List.length_append, List.length_cons] at hfuel
            omega
          simp only [ancestors, hparent, List.mem_cons, ih hshort, split_at_slash hlast]

/-- A parent of a bundle path is a bundle path. -/
theorem valid_parent {path : BundlePath} {parent rest : List Char}
    (h : path.text.toList = parent ++ '/' :: rest) :
    bundlePathValid (String.ofList parent) = true := by
  have hvalid := path.valid
  have hbytes : Text.bytes path.text = Text.utf8 parent ++ Text.utf8 ('/' :: rest) := by
    rw [Text.bytes, h, Text.utf8_append]
  simp only [bundlePathValid, Text.byteLength, hbytes, h, Text.split_append,
    Bool.not_eq_true', Bool.or_eq_false_iff, Bool.not_eq_false', List.any_append,
    List.all_append, Bool.and_eq_true, List.length_append, decide_eq_false_iff_not] at hvalid
  obtain ⟨⟨⟨⟨⟨⟨⟨⟨_, hlength⟩, hascii⟩, _⟩, _⟩, hback⟩, hcolon⟩, hcontrol⟩, hsegments⟩ := hvalid
  have hnonempty : ∀ segment ∈ Text.split '/' parent, segment ≠ [] := by
    intro segment hmem hnil
    have hone := List.any_eq_false.mp hsegments.1 segment hmem
    simp [hnil] at hone
  obtain ⟨hne, hhead, hlast⟩ := Text.ends_of_segments hnonempty
  simp only [bundlePathValid, Text.byteLength, Text.bytes, String.toList_ofList,
    Bool.not_eq_true', Bool.or_eq_false_iff, Bool.not_eq_false', decide_eq_false_iff_not]
  refine ⟨⟨⟨⟨⟨⟨⟨⟨?_, ?_⟩, hascii.1⟩, ?_⟩, ?_⟩, ?_⟩, ?_⟩, hcontrol.1⟩, hsegments.1⟩
  · simpa using hne
  · omega
  · simpa using hhead
  · simpa using hlast
  · simp_all
  · simp_all

/-! ## The tree -/

/-- The manifest declares this path as a file, or has a file below it. -/
def Declared (manifest : BundleManifest) (path : BundlePath) : EntryKind → Prop
  | .file => path ∈ manifest.files.map (·.path)
  | .directory => ∃ file ∈ manifest.files, ∃ rest,
      file.path.text.toList = path.text.toList ++ '/' :: rest

/-- No two logical paths of the manifest differ at most in ASCII case. -/
def Portable (manifest : BundleManifest) : Prop :=
  ∀ path kind path' kind', Declared manifest path kind → Declared manifest path' kind' →
    logicalKey path = logicalKey path' → path = path' ∧ kind = kind'

/-- Paths in lower case, none of which is a directory on the way to another. -/
theorem portable_of_lowercase {manifest : BundleManifest}
    (hlower : ∀ path ∈ manifest.files.map (·.path), ∀ c ∈ path.text.toList, c.toLower = c)
    (hapart : ∀ path ∈ manifest.files.map (·.path), ∀ other ∈ manifest.files.map (·.path),
      ∀ rest, other.text.toList ≠ path.text.toList ++ '/' :: rest) : Portable manifest := by
  have hkey : ∀ {path kind}, Declared manifest path kind →
      logicalKey path = path.text.toList := by
    intro path kind hdeclared
    have hchars : ∀ c ∈ path.text.toList, c.toLower = c := by
      cases kind with
      | file => exact hlower path hdeclared
      | directory =>
          obtain ⟨file, hfile, rest, hrest⟩ := hdeclared
          intro c hc
          apply hlower file.path (List.mem_map_of_mem hfile)
          rw [hrest]
          exact List.mem_append_left _ hc
    calc logicalKey path = path.text.toList.map id := List.map_congr_left hchars
      _ = path.text.toList := List.map_id _
  have hkinds : ∀ {path}, Declared manifest path .file → ¬ Declared manifest path .directory := by
    intro path hfile hdirectory
    obtain ⟨other, hother, rest, hrest⟩ := hdirectory
    exact hapart path hfile other.path (List.mem_map_of_mem hother) rest hrest
  intro path kind path' kind' hpath hpath' hsame
  rw [hkey hpath, hkey hpath', String.toList_inj, BundlePath.text_inj] at hsame
  subst hsame
  cases kind <;> cases kind'
  · exact ⟨rfl, rfl⟩
  · exact absurd hpath' (hkinds hpath)
  · exact absurd hpath (hkinds hpath')
  · exact ⟨rfl, rfl⟩

/-- The files and the directories of a manifest, as lists without repetition. -/
structure LogicalPaths (manifest : BundleManifest) (files directories : SortedSet BundlePath) :
    Prop where
  files : ∀ path, path ∈ files ↔ Declared manifest path .file
  directories : ∀ path, path ∈ directories ↔ Declared manifest path .directory

theorem parseDirectory_eq_ok {parent : List Char} {directory : BundlePath} :
    parseDirectory parent = .ok directory ↔ directory.text.toList = parent := by
  rw [parseDirectory, mapError_eq_ok, BundlePath.parse_eq_ok, ← String.toList_inj,
    String.toList_ofList]

theorem parentDirectories_ok (path : BundlePath) :
    ∃ directories, parentDirectories path = .ok directories := by
  apply collect_exists_ok.mpr
  intro parent hparent
  obtain ⟨rest, htext⟩ := (mem_ancestors (Nat.le_refl _)).mp hparent
  refine ⟨⟨String.ofList parent, valid_parent htext⟩, ?_⟩
  rw [parseDirectory_eq_ok, String.toList_ofList]

theorem mem_parentDirectories {path directory : BundlePath} {directories : List BundlePath}
    (h : parentDirectories path = .ok directories) :
    directory ∈ directories ↔
      ∃ rest, path.text.toList = directory.text.toList ++ '/' :: rest := by
  simp only [mem_of_collect h, parseDirectory_eq_ok, exists_eq_right',
    mem_ancestors (Nat.le_refl _)]

/-- `from_manifest` up to its check: the parents are those of the declared files. -/
theorem parents_ok (manifest : BundleManifest) :
    ∃ parents, collect parentDirectories (manifest.files.map (·.path)) = .ok parents ∧
      LogicalPaths manifest (SortedSet.ofList (manifest.files.map (·.path)))
        (SortedSet.ofList parents.flatten) := by
  obtain ⟨parents, hparents⟩ := collect_exists_ok.mpr fun path _ => parentDirectories_ok path
  refine ⟨parents, hparents, ⟨fun path => SortedSet.mem_ofList, fun directory => ?_⟩⟩
  simp only [SortedSet.mem_ofList, List.mem_flatten, mem_of_collect hparents, Declared,
    List.mem_map]
  constructor
  · intro h
    obtain ⟨directories, ⟨path, ⟨file, hfile, rfl⟩, hok⟩, hdirectory⟩ := h
    exact ⟨file, hfile, (mem_parentDirectories hok).mp hdirectory⟩
  · intro h
    obtain ⟨file, hfile, hrest⟩ := h
    obtain ⟨directories, hok⟩ := parentDirectories_ok file.path
    exact ⟨directories, ⟨file.path, ⟨file, hfile, rfl⟩, hok⟩,
      (mem_parentDirectories hok).mpr hrest⟩

/-- The portability check on the chained lists is portability of the manifest. -/
theorem ensurePortableLogicalTree_eq_ok {manifest : BundleManifest}
    {files directories : SortedSet BundlePath} (h : LogicalPaths manifest files directories)
    {u : Unit} : ensurePortableLogicalTree files directories = .ok u ↔ Portable manifest := by
  have hfiles : files.toList.Nodup := files.sorted.imp ne_of_lt
  have hdirectories : directories.toList.Nodup := directories.sorted.imp ne_of_lt
  rw [ensurePortableLogicalTree, rejectDuplicatesFrom_eq_ok, List.map_append, List.nodup_append,
    List.nodup_map_iff_inj_on hfiles, List.nodup_map_iff_inj_on hdirectories]
  simp only [List.mem_map, ← SortedSet.mem_def, h.files, h.directories, List.not_mem_nil,
    not_false_eq_true, implies_true, true_and]
  constructor
  · intro hcheck path kind path' kind' hpath hpath' hkey
    obtain ⟨hff, hdd, hfd⟩ := hcheck
    cases kind with
    | file =>
        cases kind' with
        | file => exact ⟨hff path hpath path' hpath' hkey, rfl⟩
        | directory => exact absurd hkey (hfd _ ⟨path, hpath, rfl⟩ _ ⟨path', hpath', rfl⟩)
    | directory =>
        cases kind' with
        | file => exact absurd hkey.symm (hfd _ ⟨path', hpath', rfl⟩ _ ⟨path, hpath, rfl⟩)
        | directory => exact ⟨hdd path hpath path' hpath' hkey, rfl⟩
  · intro hportable
    refine ⟨?_, ?_, ?_⟩
    · intro path hpath path' hpath' hkey
      exact (hportable path .file path' .file hpath hpath' hkey).1
    · intro path hpath path' hpath' hkey
      exact (hportable path .directory path' .directory hpath hpath' hkey).1
    · intro key hkey key' hkey' heq
      obtain ⟨path, hpath, rfl⟩ := hkey
      obtain ⟨path', hpath', rfl⟩ := hkey'
      exact nomatch (hportable path .file path' .directory hpath hpath' heq).2

/-- An expected tree is that of a portable manifest, and holds its logical paths. -/
theorem fromManifest_eq_ok {manifest : BundleManifest} {tree : ExpectedTree}
    (h : ExpectedTree.fromManifest manifest = .ok tree) : Portable manifest ∧
      ∀ path kind, tree.contains path kind = true ↔ Declared manifest path kind := by
  obtain ⟨parents, hparents, hpaths⟩ := parents_ok manifest
  rw [ExpectedTree.fromManifest, hparents, ok_bind, bind_eq_ok] at h
  obtain ⟨u, hcheck, htree⟩ := h
  cases htree
  refine ⟨(ensurePortableLogicalTree_eq_ok hpaths).mp hcheck, fun path kind => ?_⟩
  cases kind with
  | file => exact decide_eq_true_iff.trans (hpaths.files path)
  | directory => exact decide_eq_true_iff.trans (hpaths.directories path)

theorem fromManifest_ok {manifest : BundleManifest} (h : Portable manifest) :
    ∃ tree, ExpectedTree.fromManifest manifest = .ok tree := by
  obtain ⟨parents, hparents, hpaths⟩ := parents_ok manifest
  have hcheck := (ensurePortableLogicalTree_eq_ok (u := ()) hpaths).mpr h
  simp only [ExpectedTree.fromManifest, hparents, ok_bind, hcheck]
  exact ⟨_, rfl⟩

theorem fromManifest_returns (manifest : BundleManifest) :
    Returns (ExpectedTree.fromManifest manifest) := by
  obtain ⟨parents, hparents, _⟩ := parents_ok manifest
  rw [ExpectedTree.fromManifest, hparents, ok_bind]
  exact (Returns.rejectDuplicatesFrom _ _ _ _).bind fun _ _ => .ok _

end Invokrum.Archive
