import Invokrum.Base.BoundedTotal
import Invokrum.Base.Ordered
import Invokrum.Digest.Sha256

/-!
# Bundle manifests

Paths, digests and limits carry the checks of their constructors. A manifest is
its entry point and files together with `Accepted`, the condition under which
the constructor takes them, and their order.
-/

namespace Invokrum.Distribution

open Outcome Ordered BoundedTotal

def bundleFormat : String := "invokrum.pack-bundle/v1"

def sha256Algorithm : String := "sha256"

def maxBundleFiles : Nat := 512

def maxBundleFileBytes : Nat := 1048576

def maxBundleExpandedBytes : Nat := 33554432

def maxBundlePathBytes : Nat := 1024

inductive DistributionError where
  | invalidPath
  | invalidDigest
  | unsupportedBundleFormat
  | unsupportedDigestAlgorithm
  | emptyBundle
  | tooManyFiles
  | duplicatePath
  | fileTooLarge
  | bundleTooLarge
  | entryPointMissing
  | invalidVerificationMechanism
  | emptyPublisherIdentity
  | tooManyIdentityAttributes
  | invalidIdentityAttributeName
  | invalidIdentityAttributeValue
  | duplicateIdentityAttribute
  | emptyTrustPolicy
  | tooManyTrustRules
deriving DecidableEq

/-! ## Paths -/

/-- The test `BundlePath::parse` applies to its argument. -/
def bundlePathValid (value : String) : Bool :=
  let text := value.toList
  !(text.isEmpty
    || maxBundlePathBytes < Text.byteLength value
    || !(Text.bytes value).all (· < 128)
    || text.head? == some '/'
    || text.getLast? == some '/'
    || text.contains '\\'
    || text.contains ':'
    || (Text.bytes value).any Text.isAsciiControl
    || (Text.split '/' text).any fun segment =>
        segment.isEmpty || segment == ['.'] || segment == ['.', '.'])

structure BundlePath where
  text : String
  valid : bundlePathValid text = true
deriving DecidableEq

namespace BundlePath

theorem text_injective : Function.Injective BundlePath.text := by
  intro a b h
  cases a; cases b; cases h; rfl

instance : LinearOrder BundlePath := LinearOrder.lift' BundlePath.text text_injective

@[simp] theorem text_inj {a b : BundlePath} : a.text = b.text ↔ a = b :=
  text_injective.eq_iff

def parse (value : String) : Except DistributionError BundlePath :=
  if h : bundlePathValid value = true then .ok ⟨value, h⟩ else .error .invalidPath

theorem parse_eq_ok {value : String} {path : BundlePath} :
    parse value = .ok path ↔ path.text = value := by
  unfold parse
  constructor
  · intro h
    split at h <;> simp_all
    rw [← h]
  · rintro rfl
    simp [path.valid]

end BundlePath

/-- A character any segment of a bundle path may hold. -/
def IsNameChar (c : Char) : Prop :=
  32 ≤ c.toNat ∧ c.toNat < 127 ∧ c ≠ '/' ∧ c ≠ '\\' ∧ c ≠ ':' ∧ c ≠ '.'

instance : DecidablePred IsNameChar := fun _ => inferInstanceAs (Decidable (_ ∧ _))

/-- Plain names joined by slashes are a bundle path. -/
theorem bundlePathValid_join {names : List (List Char)} (hne : names ≠ [])
    (hnames : ∀ name ∈ names, name ≠ [] ∧ ∀ c ∈ name, IsNameChar c)
    (hlength : (Text.join '/' names).length ≤ maxBundlePathBytes) :
    bundlePathValid (String.ofList (Text.join '/' names)) = true := by
  have hplain : ∀ name ∈ names, '/' ∉ name := by
    intro name hname hslash
    have hletter := (hnames name hname).2 _ hslash
    exact hletter.2.2.1 rfl
  have hchars : ∀ c ∈ Text.join '/' names, c = '/' ∨ IsNameChar c := by
    intro c hc
    rcases Text.mem_join hc with rfl | ⟨name, hname, hmem⟩
    · exact .inl rfl
    · exact .inr ((hnames name hname).2 c hmem)
  have hbytes : Text.bytes (String.ofList (Text.join '/' names)) =
      (Text.join '/' names).map fun c => c.toNat.toUInt8 := by
    rw [Text.bytes, String.toList_ofList]
    apply Text.utf8_ascii
    intro c hc
    rcases hchars c hc with rfl | hletter
    · decide
    · exact Nat.lt_of_lt_of_le hletter.2.1 (by decide)
  have hbyte : ∀ c ∈ Text.join '/' names,
      c.toNat.toUInt8 < 128 ∧ Text.isAsciiControl c.toNat.toUInt8 = false := by
    intro c hc
    rcases hchars c hc with rfl | hletter
    · decide
    · obtain ⟨hlow, hhigh, _⟩ := hletter
      simp only [Text.isAsciiControl, Bool.or_eq_false_iff, decide_eq_false_iff_not,
        beq_eq_false_iff_ne, ne_eq, UInt8.lt_iff_toNat_lt, ← UInt8.toNat_inj, UInt8.toNat_ofNat',
        UInt8.reduceToNat]
      omega
  have hsegments : ∀ segment ∈ Text.split '/' (Text.join '/' names), segment ≠ [] := by
    rw [Text.split_join hne hplain]
    exact fun segment hsegment => (hnames segment hsegment).1
  obtain ⟨hempty, hhead, hlast⟩ := Text.ends_of_segments hsegments
  have hdot : ∀ name ∈ names, '.' ∉ name := by
    intro name hname hmem
    exact ((hnames name hname).2 _ hmem).2.2.2.2.2 rfl
  have hother : ∀ c, c = '\\' ∨ c = ':' → c ∉ Text.join '/' names := by
    intro c hc hmem
    rcases hchars c hmem with rfl | hletter
    · rcases hc with hc | hc <;> cases hc
    · exact hc.elim hletter.2.2.2.1 hletter.2.2.2.2.1
  simp only [bundlePathValid, Text.byteLength, hbytes, String.toList_ofList, List.length_map,
    Text.split_join hne hplain, Bool.not_eq_true', Bool.or_eq_false_iff, Bool.not_eq_false',
    decide_eq_false_iff_not, List.all_map, List.any_map, List.all_eq_true, List.any_eq_false,
    Function.comp_apply, decide_eq_true_eq, beq_eq_false_iff_ne, ne_eq, List.isEmpty_eq_false_iff]
  refine ⟨⟨⟨⟨⟨⟨⟨⟨hempty, Nat.not_lt.mpr hlength⟩, fun c hc => (hbyte c hc).1⟩, hhead⟩, hlast⟩,
    ?_⟩, ?_⟩, ?_⟩, ?_⟩
  · simpa using hother '\\' (.inl rfl)
  · simpa using hother ':' (.inr rfl)
  · intro c hc
    simp [(hbyte c hc).2]
  · intro name hname
    have hnonempty := (hnames name hname).1
    have hname := hdot name hname
    simp only [Bool.or_eq_true, List.isEmpty_iff, beq_iff_eq, not_or]
    refine ⟨⟨hnonempty, ?_⟩, ?_⟩
    · intro heq
      simp [heq] at hname
    · intro heq
      simp [heq] at hname

/-! ## Digests -/

structure Sha256Digest where
  text : String
  valid : Digest.validSha256 text = true
deriving DecidableEq

namespace Sha256Digest

theorem text_injective : Function.Injective Sha256Digest.text := by
  intro a b h
  cases a; cases b; cases h; rfl

@[simp] theorem text_inj {a b : Sha256Digest} : a.text = b.text ↔ a = b :=
  text_injective.eq_iff

def parse (value : String) : Except DistributionError Sha256Digest :=
  if h : Digest.validSha256 value = true then .ok ⟨value, h⟩ else .error .invalidDigest

theorem parse_eq_ok {value : String} {digest : Sha256Digest} :
    parse value = .ok digest ↔ digest.text = value := by
  unfold parse
  constructor
  · intro h
    split at h <;> simp_all
    rw [← h]
  · rintro rfl
    simp [digest.valid]

end Sha256Digest

/-! ## Limits -/

/-- Host limits, never above the format maxima. -/
structure BundleLimits where
  maximumFiles : Nat
  maximumFileBytes : Nat
  maximumExpandedBytes : Nat
  files_le : maximumFiles ≤ maxBundleFiles
  fileBytes_le : maximumFileBytes ≤ maxBundleFileBytes
  expandedBytes_le : maximumExpandedBytes ≤ maxBundleExpandedBytes

/-- `if value > maximum { maximum } else { value }`. -/
def clamp (value : UInt64) (maximum : Nat) : Nat :=
  if maximum < value.toNat then maximum else value.toNat

theorem clamp_le (value : UInt64) (maximum : Nat) : clamp value maximum ≤ maximum := by
  unfold clamp
  split <;> omega

def BundleLimits.new (maximumFiles maximumFileBytes maximumExpandedBytes : UInt64) :
    BundleLimits where
  maximumFiles := clamp maximumFiles maxBundleFiles
  maximumFileBytes := clamp maximumFileBytes maxBundleFileBytes
  maximumExpandedBytes := clamp maximumExpandedBytes maxBundleExpandedBytes
  files_le := clamp_le _ _
  fileBytes_le := clamp_le _ _
  expandedBytes_le := clamp_le _ _

def BundleLimits.default : BundleLimits := .new 512 1048576 33554432

theorem BundleLimits.expandedBytes_lt (limits : BundleLimits) :
    limits.maximumExpandedBytes < Machine.wordSize :=
  Nat.lt_of_le_of_lt limits.expandedBytes_le (by decide)

/-! ## Manifests -/

structure BundleFile where
  path : BundlePath
  byteLength : UInt64
  digest : Sha256Digest
deriving DecidableEq

/-- The running-total loop of the constructor and of the decoder's pre-check. -/
def expandedBytes {α ε : Type} (size : α → UInt64) (limits : BundleLimits)
    (wrap : DistributionError → ε) : Nat → List α → Except ε Nat :=
  boundedTotal (fun file => (size file).toNat) limits.maximumFileBytes
    limits.maximumExpandedBytes (fun _ => wrap .fileTooLarge) (wrap .bundleTooLarge)

/-- What the constructor requires of an entry point and files. -/
structure Accepted (limits : BundleLimits) (entryPoint : BundlePath) (files : List BundleFile) :
    Prop where
  nonempty : files ≠ []
  count : files.length ≤ limits.maximumFiles
  distinct : (files.map (·.path)).Nodup
  fileBytes : ∀ file ∈ files, file.byteLength.toNat ≤ limits.maximumFileBytes
  expanded : (files.map (·.byteLength.toNat)).sum ≤ limits.maximumExpandedBytes
  entry : entryPoint ∈ files.map (·.path)

/-- A normalized manifest: files strictly increasing by path, within the format maxima. -/
structure BundleManifest where
  entryPoint : BundlePath
  files : List BundleFile
  accepted : Accepted .default entryPoint files
  sorted : files.Pairwise (fun a b => a.path < b.path)

theorem BundleManifest.ext {m m' : BundleManifest} (hentry : m.entryPoint = m'.entryPoint)
    (hfiles : m.files = m'.files) : m = m' := by
  cases m; cases m'
  cases hentry; cases hfiles
  rfl

/-- The checks of the constructor, returning the sorted files. -/
def checkManifest (format digestAlgorithm : String) (entryPoint : BundlePath)
    (files : List BundleFile) (limits : BundleLimits) :
    Except DistributionError (List BundleFile) := do
  rejectIf (format ≠ bundleFormat) .unsupportedBundleFormat
  rejectIf (digestAlgorithm ≠ sha256Algorithm) .unsupportedDigestAlgorithm
  rejectIf (files.isEmpty = true) .emptyBundle
  rejectIf (limits.maximumFiles < files.length) .tooManyFiles
  let files := sortByKey (·.path) files
  rejectIf ((windows files).any (fun w => w.1.path = w.2.path) = true) .duplicatePath
  let _ ← expandedBytes BundleFile.byteLength limits id 0 files
  rejectIf (files.all (fun file => file.path ≠ entryPoint) = true) .entryPointMissing
  pure files

theorem Accepted.of_perm {limits : BundleLimits} {entryPoint : BundlePath}
    {files files' : List BundleFile} (h : Accepted limits entryPoint files)
    (hp : files.Perm files') : Accepted limits entryPoint files' where
  nonempty := fun hnil => h.nonempty (List.perm_nil.mp (hnil ▸ hp))
  count := hp.length_eq ▸ h.count
  distinct := (hp.map _).nodup_iff.mp h.distinct
  fileBytes := fun file hfile => h.fileBytes file (hp.mem_iff.mpr hfile)
  expanded := (hp.map fun file => file.byteLength.toNat).sum_eq ▸ h.expanded
  entry := (hp.map _).mem_iff.mp h.entry

theorem expandedBytes_eq_ok {α ε : Type} {size : α → UInt64} {limits : BundleLimits}
    {wrap : DistributionError → ε} {files : List α} :
    (∃ total, expandedBytes size limits wrap 0 files = .ok total) ↔
      (∀ file ∈ files, (size file).toNat ≤ limits.maximumFileBytes) ∧
        (files.map fun file => (size file).toNat).sum ≤ limits.maximumExpandedBytes := by
  simp only [expandedBytes, boundedTotal_eq_ok limits.expandedBytes_lt (Nat.zero_le _),
    Nat.zero_add, exists_and_left, exists_eq, and_true]

theorem any_windows_iff {files : List BundleFile} :
    ¬ ((windows (sortByKey (·.path) files)).any (fun w => w.1.path = w.2.path) = true) ↔
      (files.map (·.path)).Nodup := by
  rw [← sortByKey_nodup_iff, ← windows_ne_iff BundleFile.path (sortByKey_sorted _ files)]
  simp

theorem all_ne_iff {entryPoint : BundlePath} {files : List BundleFile} :
    ¬ (files.all (fun file => file.path ≠ entryPoint) = true) ↔
      entryPoint ∈ files.map (·.path) := by
  simp

theorem checkManifest_eq_ok {format digestAlgorithm : String} {entryPoint : BundlePath}
    {files sorted : List BundleFile} {limits : BundleLimits} :
    checkManifest format digestAlgorithm entryPoint files limits = .ok sorted ↔
      format = bundleFormat ∧ digestAlgorithm = sha256Algorithm ∧
        Accepted limits entryPoint files ∧ sorted = sortByKey (·.path) files := by
  have hperm := sortByKey_perm BundleFile.path files
  have hmem : ∀ {file}, file ∈ sortByKey (·.path) files ↔ file ∈ files := hperm.mem_iff
  have hsum := (hperm.map fun file => file.byteLength.toNat).sum_eq
  simp only [checkManifest, bind_eq_ok, rejectIf_eq_ok, exists_const, any_windows_iff,
    all_ne_iff, (hperm.map _).mem_iff, List.isEmpty_iff, not_lt, ne_eq, not_not, pure, Except.pure,
    Except.ok.injEq]
  constructor
  · intro h
    obtain ⟨hformat, halgorithm, hnonempty, hcount, hdistinct, total, htotal, hentry, rfl⟩ := h
    obtain ⟨hbytes, hexpanded⟩ := expandedBytes_eq_ok.mp ⟨total, htotal⟩
    exact ⟨hformat, halgorithm, ⟨hnonempty, hcount, hdistinct,
      fun file hfile => hbytes file (hmem.mpr hfile), hsum ▸ hexpanded, hentry⟩, rfl⟩
  · intro h
    obtain ⟨hformat, halgorithm, haccepted, rfl⟩ := h
    obtain ⟨total, htotal⟩ : ∃ total, expandedBytes BundleFile.byteLength limits id 0
        (sortByKey (·.path) files) = .ok total :=
      expandedBytes_eq_ok.mpr ⟨fun file hfile => haccepted.fileBytes file (hmem.mp hfile),
        hsum.symm ▸ haccepted.expanded⟩
    exact ⟨hformat, halgorithm, haccepted.nonempty, haccepted.count, haccepted.distinct, total,
      htotal, haccepted.entry, rfl⟩

theorem Accepted.widen {limits : BundleLimits} {entryPoint : BundlePath}
    {files : List BundleFile} (h : Accepted limits entryPoint files) :
    Accepted .default entryPoint files where
  nonempty := h.nonempty
  count := Nat.le_trans h.count limits.files_le
  distinct := h.distinct
  fileBytes := fun file hfile => Nat.le_trans (h.fileBytes file hfile) limits.fileBytes_le
  expanded := Nat.le_trans h.expanded limits.expandedBytes_le
  entry := h.entry

/-- `BundleManifest::new`. -/
def BundleManifest.new (format digestAlgorithm : String) (entryPoint : BundlePath)
    (files : List BundleFile) (limits : BundleLimits) :
    Except DistributionError BundleManifest :=
  match h : checkManifest format digestAlgorithm entryPoint files limits with
  | .ok sorted =>
      have hs := checkManifest_eq_ok.mp h
      .ok {
        entryPoint := entryPoint
        files := sorted
        accepted := hs.2.2.2 ▸ hs.2.2.1.widen.of_perm (sortByKey_perm _ files).symm
        sorted := hs.2.2.2 ▸ sortByKey_strict _ hs.2.2.1.distinct }
  | .error e => .error e

/-- The constructor takes exactly the accepted files and stores them sorted. -/
theorem BundleManifest.new_eq_ok {format digestAlgorithm : String} {entryPoint : BundlePath}
    {files : List BundleFile} {limits : BundleLimits} {m : BundleManifest} :
    BundleManifest.new format digestAlgorithm entryPoint files limits = .ok m ↔
      format = bundleFormat ∧ digestAlgorithm = sha256Algorithm ∧
        Accepted limits entryPoint files ∧ m.entryPoint = entryPoint ∧
          m.files = sortByKey (·.path) files := by
  have hcheck := @checkManifest_eq_ok format digestAlgorithm entryPoint files m.files limits
  unfold BundleManifest.new
  constructor
  · intro h
    split at h
    · next sorted hsorted =>
        cases h
        obtain ⟨hformat, halgorithm, haccepted, heq⟩ := checkManifest_eq_ok.mp hsorted
        exact ⟨hformat, halgorithm, haccepted, rfl, heq⟩
    · cases h
  · intro h
    obtain ⟨hformat, halgorithm, haccepted, hentry, hfiles⟩ := h
    have hok := hcheck.mpr ⟨hformat, halgorithm, haccepted, hfiles⟩
    split
    · next sorted hsorted =>
        rw [hok, Except.ok.injEq] at hsorted
        exact congrArg Except.ok (BundleManifest.ext hentry.symm hsorted.symm)
    · next e he => rw [hok] at he; cases he

/-- The files of a manifest are already in the constructor's order. -/
theorem BundleManifest.sortByKey_files (m : BundleManifest) :
    sortByKey (·.path) m.files = m.files :=
  sortByKey_of_strict _ m.sorted

end Invokrum.Distribution
