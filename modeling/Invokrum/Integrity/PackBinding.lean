import Invokrum.Base.Grouped
import Invokrum.Core.CompositionContract
import Invokrum.Integrity.Lockfile

/-!
# Which pack a lock binds

`buildLockfile` takes a pack and a composition from anywhere. It compares the
pack identifier, the schema family and the profile identifier, not what the two
packs select; a lock binds the selection of its pack exactly when the pack the
composition came from selects the same.
-/

namespace Invokrum.Integrity

open Invokrum.Core Outcome Ordered
open Text (Bytes)

/-- The (class, overlay, source) triples that a profile selects: classes in pack order, each
class's selections in profile order. -/
def selectedTriples (pack : OverlayPack) (profile : Profile) :
    List (Identifier × Identifier × PackRelativePath) :=
  (pack.selectedOverlays profile).map fun o => (o.classId, o.id, o.source)

/-- The segments of a composition are what the profile it names selects in the pack. -/
def Produces (pack : OverlayPack) (composition : Composition) : Prop :=
  ∃ profile ∈ pack.profiles, profile.id = composition.manifest.profile ∧
    composition.segments.map (fun s => (s.classId, s.overlay, s.source)) =
      selectedTriples pack profile

/-- The classes a profile selects from, in pack order, with their selection lists. -/
def chosenGroups (pack : OverlayPack) (profile : Profile) :
    List (Identifier × List Identifier) :=
  (pack.classes.map fun c => (c.id, profile.selected c.id)).filter fun group => !group.2.isEmpty

/-- Two packs choose alike: the same classes in the same order with the same selection lists,
and one source for every chosen overlay. -/
structure ChooseAlike (pack origin : OverlayPack) (profile originProfile : Profile) : Prop where
  classes : chosenGroups pack profile = chosenGroups origin originProfile
  sources : ∀ o ∈ pack.overlays, ∀ o' ∈ origin.overlays, o.id = o'.id →
    (∃ group ∈ chosenGroups pack profile, o.id ∈ group.2) → o.source = o'.source

/-! ## Selections and choices -/

theorem pairs_chosen (pack : OverlayPack) (profile : Profile) :
    Grouped.pairs (chosenGroups pack profile) = pack.selection profile := by
  rw [chosenGroups, Grouped.pairs_filter, Grouped.pairs, List.flatMap_map]
  rfl

theorem chosen_eq_iff (pack origin : OverlayPack) (profile originProfile : Profile) :
    chosenGroups pack profile = chosenGroups origin originProfile ↔
      pack.selection profile = origin.selection originProfile := by
  have hnonempty : ∀ (p : OverlayPack) (q : Profile), ∀ group ∈ chosenGroups p q,
      group.2 ≠ [] := by
    intro p q group hgroup
    have hfilter := (List.mem_filter.mp hgroup).2
    simpa using hfilter
  have hkeys : ∀ (p : OverlayPack) (q : Profile),
      ((chosenGroups p q).map Prod.fst).Nodup := by
    intro p q
    have hall : ((p.classes.map fun c => (c.id, q.selected c.id)).map Prod.fst).Nodup := by
      rw [List.map_map]
      exact p.wellFormed.classIds
    exact hall.sublist (List.filter_sublist.map Prod.fst)
  rw [← pairs_chosen, ← pairs_chosen]
  constructor
  · intro h
    rw [h]
  · intro h
    exact Grouped.pairs_injective (hnonempty _ _) (hnonempty _ _) (hkeys _ _) (hkeys _ _) h

variable {pack origin : OverlayPack} {profile originProfile : Profile}

theorem triples_pairs (hprofile : profile ∈ pack.profiles) :
    (selectedTriples pack profile).map (fun t => (t.1, t.2.1)) = pack.selection profile := by
  rw [selectedTriples, List.map_map, ← selectedOverlays_selection pack hprofile]
  rfl

/-- An overlay is chosen exactly when it is selected. -/
theorem chosen_iff_selected (hprofile : profile ∈ pack.profiles) {o : Overlay}
    (ho : o ∈ pack.overlays) :
    (∃ group ∈ chosenGroups pack profile, o.id ∈ group.2) ↔
      o ∈ pack.selectedOverlays profile := by
  have hmem : (∃ group ∈ chosenGroups pack profile, o.id ∈ group.2) ↔
      ∃ key, (key, o.id) ∈ pack.selection profile := by
    simp only [← pairs_chosen, Grouped.mem_pairs]
    constructor
    · intro h
      obtain ⟨group, hgroup, hid⟩ := h
      exact ⟨group.1, group, hgroup, rfl, hid⟩
    · intro h
      obtain ⟨_, group, hgroup, _, hid⟩ := h
      exact ⟨group, hgroup, hid⟩
  rw [hmem, ← selectedOverlays_selection pack hprofile]
  constructor
  · intro h
    obtain ⟨key, hkey⟩ := h
    obtain ⟨o', ho', heq⟩ := List.mem_map.mp hkey
    have hsame : o' = o := eq_of_key_eq (·.id) pack.wellFormed.overlayIds
      (mem_selectedOverlays ho') ho (Prod.mk.inj heq).2
    exact hsame ▸ ho'
  · intro h
    exact ⟨o.classId, List.mem_map.mpr ⟨o, h, rfl⟩⟩

theorem sources_of_triples (hprofile : profile ∈ pack.profiles)
    (h : selectedTriples pack profile = selectedTriples origin originProfile) {o o' : Overlay}
    (ho : o ∈ pack.overlays) (ho' : o' ∈ origin.overlays) (hid : o.id = o'.id)
    (hchosen : ∃ group ∈ chosenGroups pack profile, o.id ∈ group.2) : o.source = o'.source := by
  have hselected := (chosen_iff_selected hprofile ho).mp hchosen
  have hmem : (o.classId, o.id, o.source) ∈ selectedTriples origin originProfile := by
    rw [← h]
    exact List.mem_map.mpr ⟨o, hselected, rfl⟩
  obtain ⟨o'', ho'', heq⟩ := List.mem_map.mp hmem
  simp only [Prod.mk.injEq] at heq
  have hsame : o'' = o' := eq_of_key_eq (·.id) origin.wellFormed.overlayIds
    (mem_selectedOverlays ho'') ho' (heq.2.1.trans hid)
  rw [← heq.2.2, hsame]

theorem triples_of_pairs {xs ys : List Overlay}
    (h : xs.map (fun o => (o.classId, o.id)) = ys.map fun o => (o.classId, o.id))
    (hsource : ∀ o ∈ xs, ∀ o' ∈ ys, o.id = o'.id → o.source = o'.source) :
    xs.map (fun o => (o.classId, o.id, o.source)) =
      ys.map fun o => (o.classId, o.id, o.source) := by
  induction xs generalizing ys with
  | nil =>
      rw [List.map_nil, eq_comm, List.map_eq_nil_iff] at h
      rw [h]
  | cons o xs ih =>
      cases ys with
      | nil => cases h
      | cons o' ys =>
          simp only [List.map_cons, List.cons.injEq, Prod.mk.injEq] at h ⊢
          refine ⟨⟨h.1.1, h.1.2, ?_⟩, ih h.2 fun p hp p' hp' =>
            hsource p (List.mem_cons_of_mem _ hp) p' (List.mem_cons_of_mem _ hp')⟩
          exact hsource o List.mem_cons_self o' List.mem_cons_self h.1.2

/-- Profiles of two packs select the same triples exactly when the packs choose alike. -/
theorem selectedTriples_eq_iff (hprofile : profile ∈ pack.profiles)
    (horigin : originProfile ∈ origin.profiles) :
    selectedTriples pack profile = selectedTriples origin originProfile ↔
      ChooseAlike pack origin profile originProfile := by
  constructor
  · intro h
    constructor
    · rw [chosen_eq_iff, ← triples_pairs hprofile, ← triples_pairs horigin, h]
    · intro o ho o' ho' hid hchosen
      exact sources_of_triples hprofile h ho ho' hid hchosen
  · intro h
    have hselection := (chosen_eq_iff _ _ _ _).mp h.classes
    rw [← selectedOverlays_selection pack hprofile,
      ← selectedOverlays_selection origin horigin] at hselection
    apply triples_of_pairs hselection
    intro o ho o' ho' hid
    have hoverlay := mem_selectedOverlays ho
    apply h.sources o hoverlay o' (mem_selectedOverlays ho') hid
    exact (chosen_iff_selected hprofile hoverlay).mpr ho

/-! ## What a lock binds -/

/-- A digester of the v1 format that digests nothing. -/
def zeroDigester : Digester := ⟨sha256Algorithm, fun _ => Digest.lowerHex (List.replicate 32 0)⟩

theorem zeroDigester_hex : zeroDigester.Hex := ⟨rfl, fun _ => ⟨_, rfl, rfl⟩⟩

/-- The encoded size of the lock of a composition, whatever its digests are. -/
def lockSize (pack : OverlayPack) (profile : Profile) (composition : Composition) : Nat :=
  (lockMaterial zeroDigester pack profile composition).toJson.toVec.length

/-- What `buildLockfile` tests: the count of segments, the pack identifier, the schema family,
the profile identifier and the encoded size. -/
structure PassesTests (pack : OverlayPack) (profile : Profile) (composition : Composition) :
    Prop where
  lockable : Lockable pack profile composition
  size : lockSize pack profile composition ≤ maxLockfileBytes

theorem exists_buildLockfile_iff {digester : Digester} (hd : digester.Hex)
    {composition : Composition} :
    (∃ l, buildLockfile pack composition digester = .ok l) ↔
      ∃ profile, PassesTests pack profile composition := by
  simp only [buildLockfile_eq_ok]
  constructor
  · intro h
    obtain ⟨l, profile, hlockable, rfl, _, hsize⟩ := h
    rw [lockMaterial_length_eq hd zeroDigester_hex] at hsize
    exact ⟨profile, hlockable, hsize⟩
  · intro h
    obtain ⟨profile, hlockable, hsize⟩ := h
    rw [lockSize, lockMaterial_length_eq zeroDigester_hex hd] at hsize
    exact ⟨_, profile, hlockable, rfl, lockMaterial_valid hd hlockable.overlayCount, hsize⟩

theorem segments_triples {composition : Composition} {source : OverlaySource}
    {limits : CompositionLimits} {profileId : Identifier}
    (h : compose origin profileId source limits = .ok composition) :
    ∃ originProfile ∈ origin.profiles, originProfile.id = composition.manifest.profile ∧
      composition.segments.map (fun s => (s.classId, s.overlay, s.source)) =
        selectedTriples origin originProfile := by
  obtain ⟨originProfile, contents, hcomposes, rfl⟩ := compose_eq_ok.mp h
  refine ⟨originProfile, hcomposes.declared, rfl, ?_⟩
  exact map_zipWith_segmentOf (fun o => (o.classId, o.id, o.source))
    (fun s => (s.classId, s.overlay, s.source)) (fun _ _ => rfl) hcomposes.loads.length_eq

/-- Profiles of a pack with one identifier are equal. -/
theorem profile_unique {p q : Profile} (hp : p ∈ pack.profiles) (hq : q ∈ pack.profiles)
    (h : p.id = q.id) : p = q :=
  eq_of_key_eq (·.id) pack.wellFormed.profileIds hp hq h

/-- When the code meets the promise: a test fails, or the pack and the pack that the composition
came from choose alike under the profile. -/
def Bound (pack origin : OverlayPack) (composition : Composition) : Prop :=
  ∀ profile ∈ pack.profiles, ∀ originProfile ∈ origin.profiles,
    originProfile.id = composition.manifest.profile → PassesTests pack profile composition →
      ChooseAlike pack origin profile originProfile

/-- A lock built from a composition of `origin` binds what its pack produces exactly when a test
fails or the two packs choose alike. -/
theorem buildLockfile_binds_iff (pack origin : OverlayPack) (profileId : Identifier)
    (source : OverlaySource) (limits : CompositionLimits) (composition : Composition)
    (digester : Digester) (hdigester : digester.Hex)
    (hcompose : compose origin profileId source limits = .ok composition) :
    (∀ l, buildLockfile pack composition digester = .ok l → Produces pack composition) ↔
      Bound pack origin composition := by
  obtain ⟨originProfile, horigin, hnamed, hsegments⟩ := segments_triples hcompose
  constructor
  · intro hbinds profile hprofile other hother hid htests
    obtain ⟨l, hbuild⟩ := (exists_buildLockfile_iff hdigester).mpr ⟨profile, htests⟩
    obtain ⟨found, hfound, hfoundId, htriples⟩ := hbinds l hbuild
    have hdeclared := (find_profile_iff pack).mp htests.lockable.profile
    rw [profile_unique hfound hdeclared.1 (hfoundId.trans hdeclared.2.symm), hsegments] at htriples
    rw [profile_unique hother horigin (hid.trans hnamed.symm)]
    exact (selectedTriples_eq_iff hprofile horigin).mp htriples.symm
  · intro hbound l hbuild
    obtain ⟨profile, htests⟩ := (exists_buildLockfile_iff hdigester).mp ⟨l, hbuild⟩
    have hdeclared := (find_profile_iff pack).mp htests.lockable.profile
    refine ⟨profile, hdeclared.1, hdeclared.2, ?_⟩
    rw [hsegments, eq_comm, selectedTriples_eq_iff hdeclared.1 horigin]
    exact hbound profile hdeclared.1 originProfile horigin hnamed htests

/-! ## A lock of another pack -/

/-- The sample pack with another source for its overlay. -/
def movedParts : PackParts :=
  { sampleParts with
    overlays := sampleParts.overlays.map fun overlay =>
      { overlay with source := ⟨"moved.md", by decide⟩ } }

def movedPack : OverlayPack := ⟨movedParts, checkPack_wellFormed (p := movedParts) rfl⟩

theorem movedPack_passes (byte : UInt8) :
    PassesTests movedPack sampleProfile (sampleComposition [byte]) := by
  have hcount : (sampleComposition [byte]).segments.length ≤ maxLockedOverlays :=
    (by decide : 1 ≤ 256)
  have hsame : lockSize movedPack sampleProfile (sampleComposition [byte]) =
      lockSize movedPack sampleProfile (sampleComposition [0]) := rfl
  refine ⟨⟨hcount, rfl, rfl, rfl⟩, ?_⟩
  rw [hsame]
  decide +kernel

/-- A lock binds a pack to segments that this pack does not produce. -/
theorem buildLockfile_binds_foreign : ¬ ∀ (pack origin : OverlayPack) (profileId : Identifier)
    (source : OverlaySource) (limits : CompositionLimits) (composition : Composition),
    compose origin profileId source limits = .ok composition →
    ∀ l, buildLockfile pack composition sha256Digester = .ok l → Produces pack composition := by
  intro hbinds
  obtain ⟨l, hbuild⟩ :=
    (exists_buildLockfile_iff sha256Digester_hex).mpr ⟨sampleProfile, movedPack_passes 97⟩
  obtain ⟨profile, hprofile, _, htriples⟩ :=
    hbinds movedPack samplePack _ _ _ _ (sampleComposition_compose 97) l hbuild
  have hsample : profile = sampleProfile := by
    simpa [movedPack, movedParts, sampleParts] using hprofile
  subst hsample
  revert htriples
  decide

/-- The composition of the sample pack is bound in the sample pack. -/
theorem buildLockfile_binds_sample :
    (∀ l, buildLockfile samplePack (sampleComposition [97]) sha256Digester = .ok l →
      Produces samplePack (sampleComposition [97])) ↔
      Bound samplePack samplePack (sampleComposition [97]) :=
  buildLockfile_binds_iff samplePack samplePack sampleProfile.id _ .default _ sha256Digester
    sha256Digester_hex (sampleComposition_compose 97)

end Invokrum.Integrity
