import Invokrum.Core.CompositionContract
import Invokrum.Integrity.LockfileCodec

/-!
# Drift verification

Locks record digests, so a report speaks about the recorded values only up to
collisions. `CollisionFree` asks for none among the values the two locks digest;
under it every drift kind is exactly one inequality of current and locked inputs.
-/

namespace Invokrum.Integrity

open Invokrum.Core Outcome Ordered
open Text (Bytes)

/-! ## Reports as comparisons of locks -/

/-- What identifies a locked overlay, apart from its content. -/
def LockedOverlay.key (o : LockedOverlay) : String × String × String := (o.classId, o.id, o.source)

theorem sameOverlaySet_iff {expected actual : List LockedOverlay} :
    sameOverlaySet expected actual = true ↔
      expected.map LockedOverlay.key = actual.map LockedOverlay.key := by
  induction expected generalizing actual with
  | nil => cases actual <;> simp [sameOverlaySet]
  | cons e expected ih =>
      cases actual with
      | nil => simp [sameOverlaySet]
      | cons a actual =>
          have hrest := @ih actual
          simp only [sameOverlaySet, Bool.and_eq_true, beq_iff_eq] at hrest
          simp only [sameOverlaySet, List.length_cons, List.zip_cons_cons, List.all_cons,
            Bool.and_eq_true, beq_iff_eq, Nat.add_right_cancel_iff, List.map_cons,
            List.cons.injEq, ← hrest, LockedOverlay.key, Prod.mk.injEq]
          tauto

theorem mem_contentDrifts {expected actual : List LockedOverlay} {d : DriftKind} :
    d ∈ contentDrifts expected actual ↔
      ∃ index e a, d = .overlayContent index ∧ expected[index]? = some e ∧
        actual[index]? = some a ∧ (e.byteLength ≠ a.byteLength ∨ e.digest ≠ a.digest) := by
  simp only [contentDrifts, List.mem_flatMap, Prod.exists, List.mem_zipIdx_iff_getElem?,
    List.getElem?_zip_eq_some]
  constructor
  · rintro ⟨e, a, index, ⟨he, ha⟩, hd⟩
    split at hd
    · next hne => exact ⟨index, e, a, List.mem_singleton.mp hd, he, ha, hne⟩
    · cases hd
  · rintro ⟨index, e, a, rfl, he, ha, hne⟩
    exact ⟨e, a, index, ⟨he, ha⟩, by simp [hne]⟩

/-- When two locks differ in the way a drift kind reports. -/
def Drifted (l c : Lockfile) : DriftKind → Prop
  | .packMetadata => l.manifest.pack ≠ c.manifest.pack
  | .profileSelection => l.manifest.profile ≠ c.manifest.profile
  | .overlaySet =>
      l.manifest.overlays.map LockedOverlay.key ≠ c.manifest.overlays.map LockedOverlay.key
  | .overlayContent index =>
      l.manifest.overlays.map LockedOverlay.key = c.manifest.overlays.map LockedOverlay.key ∧
        ∃ e a, l.manifest.overlays[index]? = some e ∧ c.manifest.overlays[index]? = some a ∧
          (e.byteLength ≠ a.byteLength ∨ e.digest ≠ a.digest)
  | .renderedOutput => l.manifest.output ≠ c.manifest.output

theorem mem_drifts {l c : Lockfile} {d : DriftKind} : d ∈ drifts l c ↔ Drifted l c d := by
  have hite : ∀ {p : Prop} [Decidable p] {x : DriftKind},
      d ∈ (if p then [x] else []) ↔ p ∧ d = x := by
    intro p _ x
    by_cases hp : p <;> simp [hp]
  have hset : d ∈ (if sameOverlaySet l.manifest.overlays c.manifest.overlays then
        contentDrifts l.manifest.overlays c.manifest.overlays else [.overlaySet]) ↔
      (l.manifest.overlays.map LockedOverlay.key = c.manifest.overlays.map LockedOverlay.key ∧
          d ∈ contentDrifts l.manifest.overlays c.manifest.overlays) ∨
        (l.manifest.overlays.map LockedOverlay.key ≠ c.manifest.overlays.map LockedOverlay.key ∧
          d = .overlaySet) := by
    by_cases h : sameOverlaySet l.manifest.overlays c.manifest.overlays
    · simp [h, sameOverlaySet_iff.mp h]
    · simp [h, mt sameOverlaySet_iff.mpr h]
  simp only [drifts, List.mem_append, hite, hset, mem_contentDrifts]
  cases d <;> simp [Drifted]

/-- Lists with equal keys are equal once elements of one key agree at each position. -/
theorem eq_of_keys_of_positions {α κ : Type} {key : α → κ} {xs ys : List α}
    (hkeys : xs.map key = ys.map key)
    (heq : ∀ (index : Nat) (x y : α), xs[index]? = some x → ys[index]? = some y → key x = key y → x = y) :
    xs = ys := by
  apply List.ext_getElem?
  intro index
  have hkey := congrArg (fun keys => keys[index]?) hkeys
  simp only [List.getElem?_map] at hkey
  cases hx : xs[index]? with
  | none => simpa [hx, eq_comm] using hkey
  | some x =>
      cases hy : ys[index]? with
      | none => simp [hx, hy] at hkey
      | some y =>
          simp only [hx, hy, Option.map_some, Option.some.injEq] at hkey
          rw [heq index x y hx hy hkey]

theorem LockedOverlay.eq_of_key {e a : LockedOverlay} (hkey : e.key = a.key)
    (hlength : e.byteLength = a.byteLength) (hdigest : e.digest = a.digest) : e = a := by
  cases e; cases a
  simp_all [LockedOverlay.key]

/-- No drift means that the four compared parts agree. -/
theorem drifts_eq_nil_iff {l c : Lockfile} :
    drifts l c = [] ↔ l.manifest.pack = c.manifest.pack ∧
      l.manifest.profile = c.manifest.profile ∧ l.manifest.overlays = c.manifest.overlays ∧
        l.manifest.output = c.manifest.output := by
  simp only [List.eq_nil_iff_forall_not_mem, mem_drifts]
  constructor
  · intro hnone
    have hkeys := not_not.mp (hnone .overlaySet)
    refine ⟨not_not.mp (hnone .packMetadata), not_not.mp (hnone .profileSelection), ?_,
      not_not.mp (hnone .renderedOutput)⟩
    refine eq_of_keys_of_positions hkeys fun index e a he ha hkey => ?_
    have hcontent : ¬ (e.byteLength ≠ a.byteLength ∨ e.digest ≠ a.digest) := fun hne =>
      hnone (.overlayContent index) ⟨hkeys, e, a, he, ha, hne⟩
    rw [not_or, not_not, not_not] at hcontent
    exact LockedOverlay.eq_of_key hkey hcontent.1 hcontent.2
  · rintro ⟨hpack, hprofile, hoverlays, houtput⟩ d hd
    cases d with
    | packMetadata => exact hd hpack
    | profileSelection => exact hd hprofile
    | overlaySet => exact hd (congrArg _ hoverlays)
    | overlayContent index =>
        obtain ⟨_, e, a, he, ha, hne⟩ := hd
        rw [hoverlays, ha, Option.some.injEq] at he
        simp [he] at hne
    | renderedOutput => exact hd houtput

/-! ## Equal records, equal inputs -/

/-- The byte strings whose digests a lock of this composition compares. -/
def digestedBytes (pack : OverlayPack) (profile : Profile) (composition : Composition) :
    List Bytes :=
  packBytes pack :: profileBytes profile :: composition.normalizedContext
    :: composition.segments.map (·.bytes)

/-- SHA-256 tells any byte string of one list from any other of the second. -/
def CollisionFree (xs ys : List Bytes) : Prop :=
  ∀ x ∈ xs, ∀ y ∈ ys, Digest.sha256 x = Digest.sha256 y → x = y

instance (xs ys : List Bytes) : Decidable (CollisionFree xs ys) :=
  inferInstanceAs (Decidable (∀ x ∈ xs, ∀ y ∈ ys, Digest.sha256 x = Digest.sha256 y → x = y))

theorem CollisionFree.eq_iff {xs ys : List Bytes} (h : CollisionFree xs ys) {x y : Bytes}
    (hx : x ∈ xs) (hy : y ∈ ys) :
    Digest.sha256LowerHex x = Digest.sha256LowerHex y ↔ x = y :=
  ⟨fun heq => h x hx y hy (Digest.lowerHex_injective heq), fun heq => heq ▸ rfl⟩

/-- The (class, overlay, source) triple of a segment. -/
def segmentKey (s : ResolvedSegment) : Identifier × Identifier × PackRelativePath :=
  (s.classId, s.overlay, s.source)

variable {p₁ p₂ : OverlayPack} {q₁ q₂ : Profile} {c₁ c₂ : Composition}

theorem lockedPack_eq_iff
    (h : CollisionFree (digestedBytes p₁ q₁ c₁) (digestedBytes p₂ q₂ c₂)) :
    (lockMaterial sha256Digester p₁ q₁ c₁).manifest.pack =
      (lockMaterial sha256Digester p₂ q₂ c₂).manifest.pack ↔ p₁ = p₂ := by
  constructor
  · intro heq
    have hdigest := congrArg LockedPack.digest heq
    exact packBytes_injective
      ((h.eq_iff (by simp [digestedBytes]) (by simp [digestedBytes])).mp hdigest)
  · rintro rfl
    rfl

theorem lockedProfile_eq_iff
    (h : CollisionFree (digestedBytes p₁ q₁ c₁) (digestedBytes p₂ q₂ c₂)) :
    (lockMaterial sha256Digester p₁ q₁ c₁).manifest.profile =
      (lockMaterial sha256Digester p₂ q₂ c₂).manifest.profile ↔ q₁ = q₂ := by
  constructor
  · intro heq
    have hdigest := congrArg LockedProfile.digest heq
    exact profileBytes_injective
      ((h.eq_iff (by simp [digestedBytes]) (by simp [digestedBytes])).mp hdigest)
  · rintro rfl
    rfl

theorem lockedOutput_eq_iff
    (h : CollisionFree (digestedBytes p₁ q₁ c₁) (digestedBytes p₂ q₂ c₂)) :
    (lockMaterial sha256Digester p₁ q₁ c₁).manifest.output =
      (lockMaterial sha256Digester p₂ q₂ c₂).manifest.output ↔
        c₁.normalizedContext = c₂.normalizedContext := by
  constructor
  · intro heq
    have hdigest := congrArg LockedOutput.digest heq
    exact (h.eq_iff (by simp [digestedBytes]) (by simp [digestedBytes])).mp hdigest
  · intro heq
    simp [lockMaterial, heq]

theorem lockedKeys_eq_iff :
    (lockMaterial sha256Digester p₁ q₁ c₁).manifest.overlays.map LockedOverlay.key =
      (lockMaterial sha256Digester p₂ q₂ c₂).manifest.overlays.map LockedOverlay.key ↔
        c₁.segments.map segmentKey = c₂.segments.map segmentKey := by
  have hkey : ∀ c : Composition,
      (c.segments.map (lockedOverlay sha256Digester)).map LockedOverlay.key =
        (c.segments.map segmentKey).map fun k => (k.1.text, k.2.1.text, k.2.2.text) := by
    intro c
    simp [Function.comp_def, lockedOverlay, LockedOverlay.key, segmentKey]
  have hinj : Function.Injective fun k : Identifier × Identifier × PackRelativePath =>
      (k.1.text, k.2.1.text, k.2.2.text) := by
    rintro ⟨k, i, s⟩ ⟨k', i', s'⟩ heq
    simpa using heq
  simp only [lockMaterial, hkey]
  exact (List.map_injective_iff.mpr hinj).eq_iff

/-- At one position, the recorded length and digest differ exactly when the bytes do. -/
theorem lockedContent_ne_iff
    (h : CollisionFree (digestedBytes p₁ q₁ c₁) (digestedBytes p₂ q₂ c₂)) {index : Nat} :
    (∃ e a, (lockMaterial sha256Digester p₁ q₁ c₁).manifest.overlays[index]? = some e ∧
        (lockMaterial sha256Digester p₂ q₂ c₂).manifest.overlays[index]? = some a ∧
          (e.byteLength ≠ a.byteLength ∨ e.digest ≠ a.digest)) ↔
      ∃ s t, c₁.segments[index]? = some s ∧ c₂.segments[index]? = some t ∧ s.bytes ≠ t.bytes := by
  simp only [lockMaterial, List.getElem?_map, Option.map_eq_some_iff]
  constructor
  · rintro ⟨_, _, ⟨s, hs, rfl⟩, ⟨t, ht, rfl⟩, hne⟩
    refine ⟨s, t, hs, ht, fun heq => ?_⟩
    simp [lockedOverlay, heq] at hne
  · rintro ⟨s, t, hs, ht, hne⟩
    refine ⟨_, _, ⟨s, hs, rfl⟩, ⟨t, ht, rfl⟩, Or.inr fun heq => hne ?_⟩
    have hsmem := List.mem_map_of_mem (f := (·.bytes)) (List.mem_of_getElem? hs)
    have htmem := List.mem_map_of_mem (f := (·.bytes)) (List.mem_of_getElem? ht)
    exact (h.eq_iff (by simp [digestedBytes, hsmem]) (by simp [digestedBytes, htmem])).mp heq

/-! ## What a report says about the inputs -/

/-- When the inputs of two locks differ in the way a drift kind reports. -/
def InputsDiffer (p₁ p₂ : OverlayPack) (q₁ q₂ : Profile) (c₁ c₂ : Composition) :
    DriftKind → Prop
  | .packMetadata => p₁ ≠ p₂
  | .profileSelection => q₁ ≠ q₂
  | .overlaySet => c₁.segments.map segmentKey ≠ c₂.segments.map segmentKey
  | .overlayContent index =>
      c₁.segments.map segmentKey = c₂.segments.map segmentKey ∧
        ∃ s t, c₁.segments[index]? = some s ∧ c₂.segments[index]? = some t ∧ s.bytes ≠ t.bytes
  | .renderedOutput => c₁.normalizedContext ≠ c₂.normalizedContext

theorem drifted_iff_inputsDiffer
    (h : CollisionFree (digestedBytes p₁ q₁ c₁) (digestedBytes p₂ q₂ c₂)) (d : DriftKind) :
    Drifted (lockMaterial sha256Digester p₁ q₁ c₁) (lockMaterial sha256Digester p₂ q₂ c₂) d ↔
      InputsDiffer p₁ p₂ q₁ q₂ c₁ c₂ d := by
  cases d with
  | packMetadata => exact not_congr (lockedPack_eq_iff h)
  | profileSelection => exact not_congr (lockedProfile_eq_iff h)
  | overlaySet => exact not_congr lockedKeys_eq_iff
  | overlayContent index => exact and_congr lockedKeys_eq_iff (lockedContent_ne_iff h)
  | renderedOutput => exact not_congr (lockedOutput_eq_iff h)

/-- Inputs that differ in no reported way are equal. -/
theorem inputs_eq_iff :
    (∀ d, ¬ InputsDiffer p₁ p₂ q₁ q₂ c₁ c₂ d) ↔
      p₁ = p₂ ∧ q₁ = q₂ ∧ c₁.segments = c₂.segments ∧
        c₁.normalizedContext = c₂.normalizedContext := by
  constructor
  · intro hnone
    have hkeys := not_not.mp (hnone .overlaySet)
    refine ⟨not_not.mp (hnone .packMetadata), not_not.mp (hnone .profileSelection), ?_,
      not_not.mp (hnone .renderedOutput)⟩
    refine eq_of_keys_of_positions hkeys fun index s t hs ht hkey => ?_
    have hbytes : s.bytes = t.bytes := by
      by_contra hne
      exact hnone (.overlayContent index) ⟨hkeys, s, t, hs, ht, hne⟩
    cases s; cases t
    simp_all [segmentKey]
  · rintro ⟨hpack, hprofile, hsegments, hcontext⟩ d hd
    cases d with
    | packMetadata => exact hd hpack
    | profileSelection => exact hd hprofile
    | overlaySet => exact hd (congrArg _ hsegments)
    | overlayContent index =>
        obtain ⟨_, s, t, hs, ht, hne⟩ := hd
        rw [hsegments, ht, Option.some.injEq] at hs
        exact hne (by rw [hs])
    | renderedOutput => exact hd hcontext

/-- A lock is determined by the four parts the report compares. -/
theorem lockMaterial_eq_of_parts {digester : Digester}
    (h : drifts (lockMaterial digester p₁ q₁ c₁) (lockMaterial digester p₂ q₂ c₂) = []) :
    lockMaterial digester p₁ q₁ c₁ = lockMaterial digester p₂ q₂ c₂ := by
  obtain ⟨hpack, hprofile, hoverlays, houtput⟩ := drifts_eq_nil_iff.mp h
  have hpd := congrArg LockedPack.digest hpack
  have hqd := congrArg LockedProfile.digest hprofile
  simp only [lockMaterial] at hpack hprofile hoverlays houtput hpd hqd ⊢
  rw [hpack, hprofile, hoverlays, houtput, hpd, hqd]

theorem verify_eq_ok {l : Lockfile} {p : OverlayPack} {c : Composition}
    {r : VerificationReport} :
    verify l p c = .ok r ↔ l.Valid sha256Digester ∧
      ∃ current, buildLockfile p c sha256Digester = .ok current ∧ r = ⟨drifts l current⟩ := by
  simp only [verify, verifyWith, bind_eq_ok, validateLockfile_eq_ok, exists_const, pure,
    Except.pure, Except.ok.injEq, eq_comm (b := r)]

/-- The lock of a composed profile is the material of that profile. -/
theorem build_of_compose {p : OverlayPack} {i : Identifier} {source : OverlaySource}
    {limits : CompositionLimits} {c : Composition} {q : Profile} {digester : Digester}
    {l : Lockfile} (hc : compose p i source limits = .ok c)
    (hq : p.profiles.find? (·.id == i) = some q)
    (hl : buildLockfile p c digester = .ok l) : l = lockMaterial digester p q c := by
  obtain ⟨q', contents, h, rfl⟩ := compose_eq_ok.mp hc
  obtain ⟨q'', hlockable, hmaterial, -⟩ := buildLockfile_eq_ok.mp hl
  have hname : (Composition.of p q' contents).manifest.profile = i := h.named
  have hprofile := hlockable.profile
  rw [hname, hq, Option.some.injEq] at hprofile
  rw [hmaterial, hprofile]

/-- Drift verification is sound, complete and exactly localised, up to collisions
of SHA-256 among the byte strings the two locks digest. -/
theorem verify_localised {i₁ i₂ : Identifier} {source₁ source₂ : OverlaySource}
    {limits₁ limits₂ : CompositionLimits} {l : Lockfile} {r : VerificationReport}
    (hc₁ : compose p₁ i₁ source₁ limits₁ = .ok c₁)
    (hc₂ : compose p₂ i₂ source₂ limits₂ = .ok c₂)
    (hq₁ : p₁.profiles.find? (·.id == i₁) = some q₁)
    (hq₂ : p₂.profiles.find? (·.id == i₂) = some q₂)
    (hfree : CollisionFree (digestedBytes p₁ q₁ c₁) (digestedBytes p₂ q₂ c₂))
    (hl : buildLockfile p₁ c₁ sha256Digester = .ok l) (hr : verify l p₂ c₂ = .ok r) :
    (∀ d, d ∈ r.drifts ↔ InputsDiffer p₁ p₂ q₁ q₂ c₁ c₂ d) ∧
      (r.isVerified = true ↔ p₁ = p₂ ∧ q₁ = q₂ ∧ c₁.segments = c₂.segments ∧
        c₁.normalizedContext = c₂.normalizedContext) ∧
      (r.isVerified = true ↔ buildLockfile p₂ c₂ sha256Digester = .ok l) := by
  obtain ⟨_, current, hcurrent, rfl⟩ := verify_eq_ok.mp hr
  have hlock := build_of_compose hc₁ hq₁ hl
  have hcurrentLock := build_of_compose hc₂ hq₂ hcurrent
  have hdrifts : ∀ d, d ∈ drifts l current ↔ InputsDiffer p₁ p₂ q₁ q₂ c₁ c₂ d := by
    intro d
    rw [mem_drifts, hlock, hcurrentLock, drifted_iff_inputsDiffer hfree]
  have hverified : (⟨drifts l current⟩ : VerificationReport).isVerified = true ↔
      drifts l current = [] := List.isEmpty_iff
  refine ⟨hdrifts, ?_, ?_⟩
  · rw [hverified, List.eq_nil_iff_forall_not_mem, ← inputs_eq_iff]
    exact forall_congr' fun d => not_congr (hdrifts d)
  · rw [hverified, hcurrent, Except.ok.injEq]
    constructor
    · intro hnil
      rw [hlock, hcurrentLock] at hnil ⊢
      exact (lockMaterial_eq_of_parts hnil).symm
    · rintro rfl
      exact drifts_eq_nil_iff.mpr ⟨rfl, rfl, rfl, rfl⟩

/-- A changed source shows as content drift at its position and as output drift. -/
theorem verify_localised_sample :
    let r : VerificationReport := ⟨drifts (sampleLock 97) (sampleLock 98)⟩
    .overlayContent 0 ∈ r.drifts ∧ .renderedOutput ∈ r.drifts ∧ .packMetadata ∉ r.drifts ∧
      r.isVerified = false := by
  have hfree : CollisionFree
      (digestedBytes samplePack sampleProfile (sampleComposition [97]))
      (digestedBytes samplePack sampleProfile (sampleComposition [98])) := by
    decide +kernel
  have hprofile : samplePack.profiles.find? (·.id == sampleProfile.id) = some sampleProfile := rfl
  have hvalid : (sampleLock 97).Valid sha256Digester :=
    lockMaterial_valid sha256Digester_hex (by decide)
  obtain ⟨hdrifts, hverified, _⟩ := verify_localised
    (sampleComposition_compose 97) (sampleComposition_compose 98) hprofile hprofile hfree
    (sampleLock_build 97) (verify_eq_ok.mpr ⟨hvalid, _, sampleLock_build 98, rfl⟩)
  refine ⟨?_, ?_, ?_, ?_⟩
  · exact (hdrifts _).mpr ⟨rfl, _, _, rfl, rfl, by decide⟩
  · exact (hdrifts _).mpr (by decide : (_ : Bytes) ≠ _)
  · exact fun hmem => (hdrifts _).mp hmem rfl
  · exact Bool.eq_false_iff.mpr fun htrue => absurd (hverified.mp htrue).2.2.2 (by decide)

end Invokrum.Integrity
