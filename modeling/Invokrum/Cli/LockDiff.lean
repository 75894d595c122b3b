import Invokrum.Integrity.Drift

/-!
# Comparing two locks

The command-line comparison and the verifier each walk the locks on their own.
They report the same differences in the same order, and on validated locks an
empty report means equal locks: the parts the comparison leaves out are fixed
by the validation or digests of the parts it looks at.
-/

namespace Invokrum.Cli

open Invokrum.Core Invokrum.Integrity
open Text (Bytes)

/-! ## The comparison -/

inductive Difference where
  | packMetadata
  | profileSelection
  | overlaySet
  | overlayContent (index : Nat)
  | renderedOutput
deriving DecidableEq

def sameOverlaySet (baseline candidate : Lockfile) : Bool :=
  baseline.manifest.overlays.length == candidate.manifest.overlays.length &&
    (baseline.manifest.overlays.zip candidate.manifest.overlays).all fun (left, right) =>
      left.classId == right.classId && left.id == right.id && left.source == right.source

/-- The loop over the paired overlays, with the index of the next pair. -/
def contentDifferences (index : Nat) : List (LockedOverlay × LockedOverlay) → List Difference
  | [] => []
  | (left, right) :: rest =>
      (if left.byteLength ≠ right.byteLength ∨ left.digest ≠ right.digest then
        [.overlayContent index] else []) ++ contentDifferences (index + 1) rest

def compareLocks (baseline candidate : Lockfile) : List Difference :=
  (if baseline.manifest.pack ≠ candidate.manifest.pack then [.packMetadata] else [])
  ++ (if baseline.manifest.profile ≠ candidate.manifest.profile then [.profileSelection] else [])
  ++ (if sameOverlaySet baseline candidate then
        contentDifferences 0 (baseline.manifest.overlays.zip candidate.manifest.overlays)
      else [.overlaySet])
  ++ (if baseline.manifest.output ≠ candidate.manifest.output then [.renderedOutput] else [])

/-! ## Agreement with the verifier -/

/-- The drift a difference stands for. -/
def Difference.drift : Difference → DriftKind
  | .packMetadata => .packMetadata
  | .profileSelection => .profileSelection
  | .overlaySet => .overlaySet
  | .overlayContent index => .overlayContent index
  | .renderedOutput => .renderedOutput

theorem map_reported (p : Prop) [Decidable p] (d : Difference) :
    (if p then [d] else []).map Difference.drift = if p then [d.drift] else [] := by
  by_cases hp : p
  · rw [if_pos hp, if_pos hp]
    rfl
  · rw [if_neg hp, if_neg hp]
    rfl

theorem contentDifferences_drift (pairs : List (LockedOverlay × LockedOverlay)) (index : Nat) :
    (contentDifferences index pairs).map Difference.drift =
      (pairs.zipIdx index).flatMap fun ((expected, actual), index) =>
        if expected.byteLength ≠ actual.byteLength ∨ expected.digest ≠ actual.digest
        then [DriftKind.overlayContent index] else [] := by
  induction pairs generalizing index with
  | nil => rfl
  | cons pair rest ih =>
      obtain ⟨left, right⟩ := pair
      rw [contentDifferences, List.map_append, ih, List.zipIdx_cons, List.flatMap_cons, map_reported]
      rfl

theorem compareLocks_drift (baseline candidate : Lockfile) :
    (compareLocks baseline candidate).map Difference.drift = drifts baseline candidate := by
  have hset : (if sameOverlaySet baseline candidate then
        contentDifferences 0 (baseline.manifest.overlays.zip candidate.manifest.overlays)
      else [.overlaySet]).map Difference.drift =
      if Integrity.sameOverlaySet baseline.manifest.overlays candidate.manifest.overlays then
        contentDrifts baseline.manifest.overlays candidate.manifest.overlays
      else [.overlaySet] := by
    have hsame : sameOverlaySet baseline candidate =
        Integrity.sameOverlaySet baseline.manifest.overlays candidate.manifest.overlays := rfl
    rw [hsame]
    by_cases h : Integrity.sameOverlaySet baseline.manifest.overlays
        candidate.manifest.overlays = true
    · rw [if_pos h, if_pos h]
      exact contentDifferences_drift _ 0
    · rw [if_neg h, if_neg h]
      rfl
  rw [compareLocks, drifts, List.map_append, List.map_append, List.map_append, map_reported,
    map_reported, hset, map_reported]
  rfl

/-! ## Symmetry -/

theorem contentDifferences_swap (pairs : List (LockedOverlay × LockedOverlay)) (index : Nat) :
    contentDifferences index (pairs.map Prod.swap) = contentDifferences index pairs := by
  induction pairs generalizing index with
  | nil => rfl
  | cons pair rest ih =>
      obtain ⟨left, right⟩ := pair
      rw [List.map_cons, Prod.swap_prod_mk, contentDifferences, contentDifferences, ih]
      have hne : (right.byteLength ≠ left.byteLength ∨ right.digest ≠ left.digest) =
          (left.byteLength ≠ right.byteLength ∨ left.digest ≠ right.digest) := by
        rw [ne_comm, @ne_comm _ right.digest]
      simp only [hne]

theorem sameOverlaySet_comm (baseline candidate : Lockfile) :
    sameOverlaySet baseline candidate = sameOverlaySet candidate baseline := by
  have hkeys : ∀ l c : Lockfile, sameOverlaySet l c = true ↔
      l.manifest.overlays.map LockedOverlay.key = c.manifest.overlays.map LockedOverlay.key :=
    fun _ _ => sameOverlaySet_iff
  rw [Bool.eq_iff_iff, hkeys, hkeys, eq_comm]

theorem compareLocks_comm (baseline candidate : Lockfile) :
    compareLocks baseline candidate = compareLocks candidate baseline := by
  have hcontent : contentDifferences 0
      (baseline.manifest.overlays.zip candidate.manifest.overlays) =
      contentDifferences 0 (candidate.manifest.overlays.zip baseline.manifest.overlays) := by
    rw [← List.zip_swap, contentDifferences_swap]
  simp only [compareLocks, sameOverlaySet_comm baseline candidate, hcontent,
    @ne_comm _ baseline.manifest.pack, @ne_comm _ baseline.manifest.profile,
    @ne_comm _ baseline.manifest.output]

/-! ## Validated locks -/

/-- Validation fixes what the comparison leaves out. -/
theorem eq_of_drifts_eq_nil {l c : Lockfile} (hl : l.Valid sha256Digester)
    (hc : c.Valid sha256Digester) (h : drifts l c = []) : l = c := by
  obtain ⟨hpack, hprofile, hoverlays, houtput⟩ := drifts_eq_nil_iff.mp h
  have hinputs : l.manifest.engineInputsDigest = c.manifest.engineInputsDigest := by
    rw [hl.engineInputs, hc.engineInputs, hpack, hprofile, hoverlays]
  have hmanifest : l.manifest = c.manifest := by
    cases hlm : l.manifest
    cases hcm : c.manifest
    simp_all
  have hdigest : l.manifestDigest = c.manifestDigest := by
    rw [hl.manifestDigest, hc.manifestDigest, hmanifest]
  have hformat := hl.format.trans hc.format.symm
  have hcanonicalization := hl.canonicalization.trans hc.canonicalization.symm
  have halgorithm := hl.digestAlgorithm.trans hc.digestAlgorithm.symm
  cases l
  cases c
  simp_all

/-- The comparison of an accepted lock with a current one is the report of the
verifier; on two accepted locks it is empty exactly when their encodings are the
same bytes, and it does not matter which of the two comes first. -/
theorem compareLocks_agrees (fromSlice : Bytes → Option Json) :
    (∀ bytes l pack composition c, decodeLockfile fromSlice bytes = .ok l →
      buildLockfile pack composition sha256Digester = .ok c →
      ∃ report, verify l pack composition = .ok report ∧
        (compareLocks l c).map Difference.drift = report.drifts) ∧
    (∀ bytes₁ bytes₂ l₁ l₂, decodeLockfile fromSlice bytes₁ = .ok l₁ →
      decodeLockfile fromSlice bytes₂ = .ok l₂ →
      (compareLocks l₁ l₂ = [] ↔
        ∃ encoded, encodeLockfile l₁ = .ok encoded ∧ encodeLockfile l₂ = .ok encoded)) ∧
    ∀ l₁ l₂, compareLocks l₁ l₂ = compareLocks l₂ l₁ := by
  refine ⟨?_, ?_, compareLocks_comm⟩
  · intro bytes l pack composition c hdecode hbuild
    obtain ⟨_, _, hvalid, _⟩ := decodeLockfile_eq_ok.mp hdecode
    exact ⟨⟨drifts l c⟩, verify_eq_ok.mpr ⟨hvalid, c, hbuild, rfl⟩, compareLocks_drift l c⟩
  · intro bytes₁ bytes₂ l₁ l₂ hdecode₁ hdecode₂
    obtain ⟨hsize₁, _, hvalid₁, hbytes₁⟩ := decodeLockfile_eq_ok.mp hdecode₁
    obtain ⟨_, _, hvalid₂, _⟩ := decodeLockfile_eq_ok.mp hdecode₂
    have hempty : compareLocks l₁ l₂ = [] ↔ drifts l₁ l₂ = [] := by
      rw [← compareLocks_drift, List.map_eq_nil_iff]
    rw [hempty]
    constructor
    · intro h
      have heq := eq_of_drifts_eq_nil hvalid₁ hvalid₂ h
      have hencode := encodeLockfile_eq_ok.mpr ⟨hvalid₁, hbytes₁, hsize₁⟩
      exact ⟨bytes₁, hencode, heq ▸ hencode⟩
    · intro h
      obtain ⟨encoded, hencode₁, hencode₂⟩ := h
      have htree := (encodeLockfile_eq_ok.mp hencode₁).2.1.symm.trans
        (encodeLockfile_eq_ok.mp hencode₂).2.1
      have hjson := Json.toVec_injective l₁.toJson_printable l₂.toJson_printable htree
      have heq : l₁ = l₂ := by
        have hread := congrArg Lockfile.ofJson hjson
        rwa [Lockfile.ofJson_toJson, Lockfile.ofJson_toJson, Option.some.injEq] at hread
      exact drifts_eq_nil_iff.mpr ⟨by rw [heq], by rw [heq], by rw [heq], by rw [heq]⟩

end Invokrum.Cli
