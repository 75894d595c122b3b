import Invokrum.Archive.Source
import Invokrum.Directory.Materialized
import Invokrum.Install.Store

/-!
# The archive and the directory loader

An archive that loads is materialized as a directory. The directory loader
then returns the same files, and a bundle that was verified from them passes
the check of its staging directory, exactly when the directory has no more
entries than the directory loader visits.
-/

namespace Invokrum.Directory

open Outcome Ordered Invokrum.Distribution Invokrum.FileSystem
open Acquisition (CandidateFile VerifiedBundle verifyCandidate verifyCandidate_eq_ok
  verifyCandidate_eq_of_perm IsDeclared verifiedFile matches_iff)
open Archive (UstarCandidateSource Portable Declared nesting portable_of_lowercase)
open Install (components manifestFromVerified manifestFile verifyLoaded)

/-! ## The reconstructed manifest -/

theorem manifestFile_eq_ok {declared : BundleFile} {candidate : CandidateFile}
    (h : IsDeclared declared candidate) :
    manifestFile (verifiedFile declared candidate) = .ok declared := by
  have hshort : candidate.bytes.length < Machine.wordSize :=
    Nat.lt_of_le_of_lt candidate.bounded (by decide)
  have hlength : UInt64.ofNat candidate.bytes.length = declared.byteLength := by
    rw [h.length]
    exact UInt64.ofNat_toNat
  simp only [manifestFile, verifiedFile, Install.byteLength, if_pos hshort, ok_bind, hlength,
    h.path, pure, Except.pure]

/-- The manifest that staging reconstructs from a verified bundle is the one it was verified
against. -/
theorem manifestFromVerified_eq_ok {manifest : BundleManifest}
    {manifestSubject expectedSubject : Sha256Digest} {candidates : List CandidateFile}
    {bundle : VerifiedBundle}
    (h : verifyCandidate manifest manifestSubject expectedSubject candidates = .ok bundle) :
    manifestFromVerified bundle = .ok manifest := by
  obtain ⟨hverifies, rfl⟩ := verifyCandidate_eq_ok.mp h
  have hpairs := (matches_iff.mp hverifies.exact).2
  have hcollect : ∀ {declared : List BundleFile} {sorted : List CandidateFile},
      List.Forall₂ IsDeclared declared sorted →
      collect manifestFile (List.zipWith verifiedFile declared sorted) = .ok declared := by
    intro declared sorted hpairs
    rw [collect_eq_ok]
    induction hpairs with
    | nil => exact .nil
    | cons hpair _ ih => exact .cons (manifestFile_eq_ok hpair) ih
  have hfiles : collect manifestFile (VerifiedBundle.of manifest manifestSubject candidates).files =
      .ok manifest.files := hcollect hpairs
  rw [manifestFromVerified, hfiles, ok_bind, mapError_eq_ok, BundleManifest.new_eq_ok]
  exact ⟨rfl, rfl, manifest.accepted, rfl, manifest.sortByKey_files.symm⟩

/-- The files of a portable manifest, empty, can be materialized. -/
theorem materializes_emptyFiles {manifest : BundleManifest} (device : Nat)
    (hapart : ∀ path ∈ manifest.files.map (·.path), ∀ other ∈ manifest.files.map (·.path),
      ∀ rest, other.text.toList ≠ path.text.toList ++ '/' :: rest) :
    Materializes (materialize device ((manifest.files.map (·.path)).map Archive.emptyFile)) device
      ((manifest.files.map (·.path)).map Archive.emptyFile) := by
  have hpaths : ((manifest.files.map (·.path)).map Archive.emptyFile).map (·.path) =
      manifest.files.map (·.path) := by
    rw [List.map_map]
    exact List.map_id _
  apply materializes_materialize
  · rw [hpaths]
    exact manifest.accepted.distinct
  · intro file hfile other hother hparent
    have hfile' := hpaths ▸ List.mem_map_of_mem (f := CandidateFile.path) hfile
    have hother' := hpaths ▸ List.mem_map_of_mem (f := CandidateFile.path) hother
    obtain ⟨logical, hlogical, rest, hrest⟩ := pathToBundleString_parent hparent
    rw [pathToBundleString_components] at hlogical
    cases hlogical
    exact hapart _ hfile' _ hother' rest hrest

/-! ## Agreement -/

/-- The directory loader returns the files of the archive; every subject gives the same verdict
on them, and staging accepts the tree of a bundle verified from them. -/
structure LoadersAgree (tree : Tree) (manifest : BundleManifest)
    (candidates : List CandidateFile) : Prop where
  loaded : ∃ files, loadCandidate tree manifest none = .ok files ∧ files.Perm candidates ∧
    ∀ manifestSubject expectedSubject,
      verifyCandidate manifest manifestSubject expectedSubject files =
        verifyCandidate manifest manifestSubject expectedSubject candidates
  staged : ∀ manifestSubject expectedSubject bundle,
    verifyCandidate manifest manifestSubject expectedSubject candidates = .ok bundle →
    ∃ staged files, manifestFromVerified bundle = .ok staged ∧
      loadCandidate tree staged none = .ok files ∧ verifyLoaded staged bundle files = .ok bundle

theorem components_length (path : BundlePath) : (components path).length = nesting path + 1 := by
  rw [components, List.length_map, Text.length_split, nesting,
    ← Text.count_utf8 '/' (by decide) path.text.toList]
  rfl

/-- The two loaders agree on an archive exactly when its tree has at most `maxVisibleEntries`
files and directories; on a larger tree the directory loader reports its limit. -/
theorem loadCandidate_agrees_iff (manifest : BundleManifest) (source : UstarCandidateSource)
    (candidates : List CandidateFile) (tree : Tree) (device : Nat)
    (hload : source.load manifest = .ok candidates)
    (htree : Materializes tree device candidates) :
    (LoadersAgree tree manifest candidates ↔
      (treeEntries (manifest.files.map (·.path))).length ≤ maxVisibleEntries) ∧
    (maxVisibleEntries < (treeEntries (manifest.files.map (·.path))).length →
      loadCandidate tree manifest none = .error .traversalLimitExceeded) := by
  have hloaded := Archive.load_eq_ok hload
  have hdepth : ∀ file ∈ candidates, (components file.path).length ≤ maxDirectoryDepth + 1 := by
    intro file hfile
    rw [components_length]
    exact Nat.succ_le_succ (hloaded.nested file hfile)
  have hcount : (treeEntries (candidates.map (·.path))).length =
      (treeEntries (manifest.files.map (·.path))).length := by
    apply List.Perm.length_eq
    apply (List.perm_ext_iff_of_nodup (List.nodup_dedup _) (List.nodup_dedup _)).mpr
    intro path
    have hmem : ∀ {file}, file ∈ candidates.map (·.path) ↔ file ∈ manifest.files.map (·.path) :=
      hloaded.paths.mem_iff
    show path ∈ treeEntries _ ↔ path ∈ treeEntries _
    simp only [mem_treeEntries, hmem]
  have hresult := htree.loadCandidate_eq hdepth hloaded.portable hloaded.paths
  rw [hcount] at hresult
  have hperm := sortByKey_perm CandidateFile.path candidates
  constructor
  · constructor
    · intro hagree
      obtain ⟨files, hfiles, _⟩ := hagree.loaded
      by_contra hlimit
      rw [hresult, if_neg hlimit] at hfiles
      cases hfiles
    · intro hlimit
      rw [if_pos hlimit] at hresult
      constructor
      · exact ⟨_, hresult, hperm, fun _ _ => verifyCandidate_eq_of_perm _ _ _ hperm⟩
      · intro manifestSubject expectedSubject bundle hbundle
        refine ⟨manifest, _, manifestFromVerified_eq_ok hbundle, hresult, ?_⟩
        obtain ⟨hverifies, rfl⟩ := verifyCandidate_eq_ok.mp hbundle
        rw [verifyLoaded, mapError_eq_ok, verifyCandidate_eq_of_perm _ _ _ hperm,
          verifyCandidate_eq_ok]
        exact ⟨⟨rfl, hverifies.count, hverifies.expanded, hverifies.exact⟩, rfl⟩
  · intro hlimit
    rw [hresult, if_neg (Nat.not_le.mpr hlimit)]

/-! ## Empty files in nested directories -/

/-- The digest of no bytes. -/
def emptyDigest : Sha256Digest :=
  ⟨"e3b0c44298fc1c149afbf4c8996fb92427ae41e4649b934ca495991b7852b855", by decide +kernel⟩

def nestedPaths : List BundlePath :=
  [⟨"a/b/f", by decide +kernel⟩, ⟨"a/b/g", by decide +kernel⟩, ⟨"a/c/f", by decide +kernel⟩,
    ⟨"h", by decide +kernel⟩]

def nestedEntryPoint : BundlePath := ⟨"h", by decide +kernel⟩

def nestedFiles : List BundleFile := nestedPaths.map fun path => ⟨path, 0, emptyDigest⟩

theorem nestedFiles_accepted : Accepted .default nestedEntryPoint nestedFiles :=
  ⟨by decide +kernel, by decide +kernel, by decide +kernel, by decide +kernel, by decide +kernel,
    by simp [nestedFiles, nestedPaths, nestedEntryPoint]⟩

theorem nestedFiles_sorted : nestedFiles.Pairwise fun a b => a.path < b.path := by
  decide +kernel

def nestedManifest : BundleManifest where
  entryPoint := nestedEntryPoint
  files := nestedFiles
  accepted := nestedFiles_accepted
  sorted := nestedFiles_sorted

theorem nestedManifest_paths : nestedManifest.files.map (·.path) = nestedPaths := rfl

theorem nestedPaths_apart : ∀ path ∈ nestedManifest.files.map (·.path),
    ∀ other ∈ nestedManifest.files.map (·.path),
      ∀ rest, other.text.toList ≠ path.text.toList ++ '/' :: rest := by
  have hall : ∀ path ∈ nestedPaths, ∀ other ∈ nestedPaths,
      ¬ path.text.toList ++ ['/'] <+: other.text.toList := by decide +kernel
  rw [nestedManifest_paths]
  intro path hpath other hother rest heq
  apply hall path hpath other hother
  exact ⟨rest, by rw [heq, List.append_assoc, List.singleton_append]⟩

theorem loadCandidate_agrees_iff_sample :
    LoadersAgree (materialize 0 (nestedPaths.map Archive.emptyFile)) nestedManifest
      (nestedPaths.map Archive.emptyFile) := by
  have hlower : ∀ path ∈ nestedManifest.files.map (·.path), ∀ c ∈ path.text.toList,
      c.toLower = c := by simp [nestedManifest_paths, nestedPaths]
  have hshort : ∀ path ∈ nestedManifest.files.map (·.path), (Text.bytes path.text).length ≤ 100 := by
    decide +kernel
  have hnested : ∀ path ∈ nestedManifest.files.map (·.path),
      nesting path ≤ Archive.maxUstarNesting := by decide +kernel
  have hload := Archive.load_emptyFilesArchive (portable_of_lowercase hlower nestedPaths_apart)
    hshort hnested
  exact (loadCandidate_agrees_iff _ _ _ _ 0 hload (materializes_emptyFiles 0 nestedPaths_apart)).1.mpr
    (by decide +kernel)

/-! ## A tree with too many directories -/

/-- The `n`th lowercase letter, cyclically. -/
def letter (n : Nat) : Char := Char.ofNat (97 + n % 26)

/-- A directory of its own, 48 more directories below each other, and a file. -/
def deepNames (i : Nat) : List (List Char) :=
  [letter (i / 26), letter i] :: (List.replicate 48 ['d'] ++ [['f']])

def IsLowercaseLetter (c : Char) : Prop := 97 ≤ c.toNat ∧ c.toNat ≤ 122

theorem letter_lowercase (n : Nat) : IsLowercaseLetter (letter n) := by
  have hall : ∀ k < 26, 97 ≤ (Char.ofNat (97 + k)).toNat ∧ (Char.ofNat (97 + k)).toNat ≤ 122 := by
    decide
  exact hall _ (Nat.mod_lt n (by decide))

theorem deepNames_lowercase {i : Nat} {name : List Char} (h : name ∈ deepNames i) :
    name ≠ [] ∧ ∀ c ∈ name, IsLowercaseLetter c := by
  simp only [deepNames, List.mem_cons, List.mem_append, List.mem_replicate, List.not_mem_nil,
    or_false] at h
  rcases h with rfl | ⟨_, rfl⟩ | rfl
  · refine ⟨by simp, ?_⟩
    intro c hc
    simp only [List.mem_cons, List.not_mem_nil, or_false] at hc
    rcases hc with rfl | rfl
    · exact letter_lowercase _
    · exact letter_lowercase _
  · exact ⟨by simp, by simp [IsLowercaseLetter]⟩
  · exact ⟨by simp, by simp [IsLowercaseLetter]⟩

theorem nameChar_of_lowercase {c : Char} (h : IsLowercaseLetter c) : IsNameChar c := by
  obtain ⟨hlow, hhigh⟩ := h
  refine ⟨by omega, by omega, ?_, ?_, ?_, ?_⟩ <;>
    · intro hsame
      rw [hsame] at hlow
      exact absurd hlow (by decide)

theorem toLower_of_lowercase {c : Char} (h : c = '/' ∨ IsLowercaseLetter c) : c.toLower = c := by
  rcases h with rfl | h
  · decide
  · have hval : c.val.toNat = c.toNat := rfl
    have hupper : ¬ (c.val ≥ 'A'.val ∧ c.val ≤ 'Z'.val) := by
      rw [ge_iff_le, UInt32.le_iff_toNat_le, UInt32.le_iff_toNat_le, hval]
      have hz : 'Z'.val.toNat = 90 := rfl
      rw [hz]
      intro hboth
      exact absurd (Nat.le_trans h.1 hboth.2) (by decide)
    exact dif_neg hupper

theorem deepNames_length (i : Nat) : (Text.join '/' (deepNames i)).length = 100 := rfl

def deepPath (i : Nat) : BundlePath :=
  ⟨String.ofList (Text.join '/' (deepNames i)), bundlePathValid_join (by simp [deepNames])
    (fun _ hname => ⟨(deepNames_lowercase hname).1, fun c hc =>
      nameChar_of_lowercase ((deepNames_lowercase hname).2 c hc)⟩) (by rw [deepNames_length]; decide)⟩

theorem deepPath_text (i : Nat) : (deepPath i).text.toList = Text.join '/' (deepNames i) :=
  String.toList_ofList

theorem deepNames_plain {i : Nat} {name : List Char} (h : name ∈ deepNames i) : '/' ∉ name := by
  intro hslash
  have hletter := (deepNames_lowercase h).2 _ hslash
  simp [IsLowercaseLetter] at hletter

theorem components_deepPath (i : Nat) :
    components (deepPath i) = (deepNames i).map String.ofList := by
  rw [components, deepPath_text,
    Text.split_join (by simp [deepNames]) fun _ => deepNames_plain]

theorem letter_inj {m n : Nat} (h : letter m = letter n) : m % 26 = n % 26 := by
  have hall : ∀ a < 26, (Char.ofNat (97 + a)).toNat = 97 + a := by decide
  have hchar := congrArg Char.toNat h
  rw [letter, letter, hall _ (Nat.mod_lt m (by decide)), hall _ (Nat.mod_lt n (by decide))] at hchar
  omega

/-- The names of the first directories differ. -/
theorem deepNames_inj {i j : Nat} (hi : i < 676) (hj : j < 676)
    (h : (deepNames i).head? = (deepNames j).head?) : i = j := by
  simp only [deepNames, List.head?_cons, Option.some.injEq, List.cons.injEq, and_true] at h
  have hhigh := letter_inj h.1
  have hlow := letter_inj h.2
  omega

theorem deepPath_inj {i j : Nat} (hi : i < 676) (hj : j < 676) (h : deepPath i = deepPath j) :
    i = j := by
  apply deepNames_inj hi hj
  have hcomponents := congrArg components h
  rw [components_deepPath, components_deepPath] at hcomponents
  have hofList : Function.Injective String.ofList := fun _ _ => String.ofList_injective
  rw [List.map_injective_iff.mpr hofList hcomponents]

def deepFiles : List BundleFile := (List.range 328).map fun i => ⟨deepPath i, 0, emptyDigest⟩

theorem deepFiles_paths : deepFiles.map (·.path) = (List.range 328).map deepPath := by
  rw [deepFiles, List.map_map]
  rfl

theorem deepFiles_distinct : (deepFiles.map (·.path)).Nodup := by
  rw [deepFiles_paths]
  apply List.nodup_range.map_on
  intro i hi j hj
  rw [List.mem_range] at hi hj
  exact deepPath_inj (by omega) (by omega)

theorem deepFiles_accepted : Accepted .default (deepPath 0) deepFiles where
  nonempty := by simp [deepFiles]
  count := by
    rw [deepFiles, List.length_map, List.length_range]
    decide
  distinct := deepFiles_distinct
  fileBytes := by
    intro file hfile
    obtain ⟨i, _, rfl⟩ := List.mem_map.mp hfile
    exact Nat.zero_le _
  expanded := by
    have hsum : (deepFiles.map (·.byteLength.toNat)).sum = 0 := by
      rw [List.sum_eq_zero_iff]
      intro n hn
      obtain ⟨file, hfile, rfl⟩ := List.mem_map.mp hn
      obtain ⟨i, _, rfl⟩ := List.mem_map.mp hfile
      rfl
    rw [hsum]
    exact Nat.zero_le _
  entry := by
    rw [deepFiles_paths]
    exact List.mem_map_of_mem (List.mem_range.mpr (by decide))

def deepManifest : BundleManifest where
  entryPoint := deepPath 0
  files := sortByKey (·.path) deepFiles
  accepted := deepFiles_accepted.of_perm (sortByKey_perm _ _).symm
  sorted := sortByKey_strict _ deepFiles_distinct

theorem mem_deepManifest {path : BundlePath} :
    path ∈ deepManifest.files.map (·.path) ↔ ∃ i < 328, path = deepPath i := by
  have hfiles : deepManifest.files = sortByKey (·.path) deepFiles := by simp only [deepManifest]
  have hperm := (sortByKey_perm BundleFile.path deepFiles).map (·.path)
  rw [hfiles, hperm.mem_iff, deepFiles_paths, List.mem_map]
  simp only [List.mem_range, eq_comm]

theorem deepManifest_apart : ∀ path ∈ deepManifest.files.map (·.path),
    ∀ other ∈ deepManifest.files.map (·.path),
      ∀ rest, other.text.toList ≠ path.text.toList ++ '/' :: rest := by
  intro path hpath other hother rest heq
  obtain ⟨i, _, rfl⟩ := mem_deepManifest.mp hpath
  obtain ⟨j, _, rfl⟩ := mem_deepManifest.mp hother
  have hlength := congrArg List.length heq
  rw [deepPath_text, deepPath_text, List.length_append, deepNames_length, deepNames_length,
    List.length_cons] at hlength
  omega

theorem deepManifest_portable : Portable deepManifest := by
  apply portable_of_lowercase _ deepManifest_apart
  intro path hpath c hc
  obtain ⟨i, _, rfl⟩ := mem_deepManifest.mp hpath
  rw [deepPath_text] at hc
  rcases Text.mem_join hc with rfl | ⟨name, hname, hmem⟩
  · decide
  · exact toLower_of_lowercase (.inr ((deepNames_lowercase hname).2 c hmem))

/-- Each file adds itself and 49 directories of its own. -/
theorem deepManifest_entries : 328 * 50 ≤
    (treeEntries (deepManifest.files.map (·.path))).length := by
  have hlength : ∀ i, (components (deepPath i)).length = 50 := by
    intro i
    rw [components_deepPath, List.length_map]
    rfl
  have hnodup : ((List.range 328 ×ˢ List.range 50).map fun ik =>
      (components (deepPath ik.1)).take (ik.2 + 1)).Nodup := by
    apply (List.nodup_range.product List.nodup_range).map_on
    intro ik hik jl hjl heq
    rw [List.mem_product, List.mem_range, List.mem_range] at hik hjl
    have hlengths := congrArg List.length heq
    have hheads := congrArg List.head? heq
    rw [List.length_take, List.length_take, hlength, hlength] at hlengths
    have hfirst : ∀ i k, ((components (deepPath i)).take (k + 1)).head? =
        (deepNames i).head?.map String.ofList := by
      intro i k
      rw [components_deepPath]
      rfl
    have hofList : Function.Injective (Option.map String.ofList) :=
      Option.map_injective fun _ _ => String.ofList_injective
    rw [hfirst, hfirst] at hheads
    have hi := deepNames_inj (by omega) (by omega) (hofList hheads)
    exact Prod.ext hi (by omega)
  have hsub : ((List.range 328 ×ˢ List.range 50).map fun ik =>
      (components (deepPath ik.1)).take (ik.2 + 1)) ⊆
        treeEntries (deepManifest.files.map (·.path)) := by
    intro path hpath
    obtain ⟨ik, hik, rfl⟩ := List.mem_map.mp hpath
    rw [List.mem_product, List.mem_range, List.mem_range] at hik
    have hfile : deepPath ik.1 ∈ deepManifest.files.map (·.path) :=
      mem_deepManifest.mpr ⟨ik.1, hik.1, rfl⟩
    by_cases hfull : (components (deepPath ik.1)).take (ik.2 + 1) = components (deepPath ik.1)
    · rw [hfull]
      exact mem_treeEntries.mpr (.inl ⟨_, hfile, rfl⟩)
    · refine mem_treeEntries.mpr (.inr ⟨_, hfile, mem_parents.mpr ⟨?_, List.take_prefix _ _, hfull⟩⟩)
      intro hnil
      have hzero := congrArg List.length hnil
      rw [List.length_take, hlength, List.length_nil] at hzero
      omega
  have hle := (List.subperm_of_subset hnodup hsub).length_le
  rwa [List.length_map, List.length_product, List.length_range, List.length_range] at hle

theorem deepManifest_short : ∀ path ∈ deepManifest.files.map (·.path),
    (Text.bytes path.text).length ≤ 100 := by
  intro path hpath
  obtain ⟨i, _, rfl⟩ := mem_deepManifest.mp hpath
  have hascii : ∀ c ∈ Text.join '/' (deepNames i), c.toNat < 128 := by
    intro c hc
    rcases Text.mem_join hc with rfl | ⟨name, hname, hmem⟩
    · decide
    · exact Nat.lt_of_le_of_lt ((deepNames_lowercase hname).2 c hmem).2 (by decide)
  rw [Text.bytes, deepPath_text, Text.utf8_ascii hascii, List.length_map, deepNames_length]

theorem deepManifest_nested : ∀ path ∈ deepManifest.files.map (·.path),
    nesting path ≤ Archive.maxUstarNesting := by
  intro path hpath
  obtain ⟨i, _, rfl⟩ := mem_deepManifest.mp hpath
  have hlength := components_length (deepPath i)
  rw [components_deepPath, List.length_map] at hlength
  have hnames : (deepNames i).length = 50 := rfl
  rw [Archive.maxUstarNesting]
  omega

/-- A candidate for the deep manifest: an archive of empty files. -/
def deepSource : UstarCandidateSource :=
  ⟨Archive.emptyFilesArchive (deepManifest.files.map (·.path))⟩

def deepCandidates : List CandidateFile :=
  (deepManifest.files.map (·.path)).map Archive.emptyFile

/-- The archive loads, and its tree is beyond the limit of the directory loader. -/
theorem loadCandidate_refuses_deep :
    UstarCandidateSource.new deepSource.bytes = .ok deepSource ∧
      deepSource.load deepManifest = .ok deepCandidates ∧
        Materializes (materialize 0 deepCandidates) 0 deepCandidates ∧
          loadCandidate (materialize 0 deepCandidates) deepManifest none =
            .error .traversalLimitExceeded := by
  have hload : deepSource.load deepManifest = .ok deepCandidates :=
    Archive.load_emptyFilesArchive deepManifest_portable deepManifest_short deepManifest_nested
  have htree : Materializes (materialize 0 deepCandidates) 0 deepCandidates :=
    materializes_emptyFiles 0 deepManifest_apart
  have hloaded := Archive.load_eq_ok hload
  have hnew : UstarCandidateSource.new deepSource.bytes = .ok deepSource := by
    apply Archive.new_emptyFilesArchive deepManifest_short
    · intro hnil
      exact List.ne_nil_of_mem (mem_deepManifest.mpr ⟨0, by decide, rfl⟩) hnil
    · have hcount := deepManifest.accepted.count
      have hmax := BundleLimits.default.files_le
      rw [maxBundleFiles] at hmax
      rw [List.length_map, Archive.maxUstarEntries]
      omega
  refine ⟨hnew, hload, htree, ?_⟩
  have hdepth : ∀ file ∈ deepCandidates,
      (components file.path).length ≤ maxDirectoryDepth + 1 := by
    intro file hfile
    rw [components_length]
    exact Nat.succ_le_succ (hloaded.nested file hfile)
  have hpaths : deepCandidates.map (·.path) = deepManifest.files.map (·.path) := by
    rw [deepCandidates, List.map_map]
    exact List.map_id _
  rw [htree.loadCandidate_eq hdepth deepManifest_portable hloaded.paths, hpaths]
  apply if_neg
  intro hlimit
  have hentries := Nat.le_trans deepManifest_entries hlimit
  rw [maxVisibleEntries] at hentries
  omega

end Invokrum.Directory
