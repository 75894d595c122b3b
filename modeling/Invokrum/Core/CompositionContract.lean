import Invokrum.Core.Composition

/-!
# What a composition describes

The selection of a profile is a function of the pack alone. The contract states
every field of a result over that selection and the loaded bytes.
-/

namespace Invokrum.Core

open Outcome Ordered
open Text (Bytes)

/-- The (class, overlay) pairs a profile selects: classes in pack order, each
class's selection list in its own order. -/
def OverlayPack.selection (pack : OverlayPack) (profile : Profile) :
    List (Identifier × Identifier) :=
  pack.classes.flatMap fun c => (profile.selected c.id).map fun i => (c.id, i)

theorem selectedOverlays_selection (pack : OverlayPack) {profile : Profile}
    (hp : profile ∈ pack.profiles) :
    (pack.selectedOverlays profile).map (fun o => (o.classId, o.id)) = pack.selection profile := by
  rw [OverlayPack.selectedOverlays, OverlayPack.selection, List.map_flatMap]
  refine List.flatMap_congr fun c _ => ?_
  rw [List.map_flatMap, List.map_eq_flatMap]
  refine List.flatMap_congr fun i hi => ?_
  obtain ⟨o, ho, rfl, hclass⟩ := pack.selected_overlay hp hi
  simp [filter_overlay_eq pack.wellFormed.overlayIds ho, hclass]

theorem mem_selectedOverlays {pack : OverlayPack} {profile : Profile} {o : Overlay}
    (h : o ∈ pack.selectedOverlays profile) : o ∈ pack.overlays := by
  simp only [OverlayPack.selectedOverlays, List.mem_flatMap, List.mem_filter] at h
  obtain ⟨_, _, _, _, ho, _⟩ := h
  exact ho

/-- No overlay is selected twice, neither within a class nor across classes. -/
theorem selection_nodup (pack : OverlayPack) {profile : Profile} (hp : profile ∈ pack.profiles) :
    ((pack.selection profile).map Prod.snd).Nodup := by
  have hw := pack.wellFormed
  have hentry := (selections_nodup_iff hw.overlayIds (hw.selectionClass profile hp)).mp
    (hw.selectionNodup profile hp)
  rw [OverlayPack.selection, List.map_flatMap, List.nodup_flatMap]
  refine ⟨fun c _ => ?_, ?_⟩
  · rw [List.map_map]
    by_cases hk : c.id ∈ profile.selections.keys
    · obtain ⟨e, he, hek⟩ := List.mem_map.mp hk
      rw [← hek, Profile.selected_of_mem he]
      simpa [Function.comp_def] using hentry e he
    · simp [Profile.selected_of_not_key hk]
  · refine (List.pairwise_map.mp hw.classIds).imp fun {c c'} hne i hi hi' => ?_
    simp only [List.map_map, List.mem_map, Function.comp_apply, exists_eq_right] at hi hi'
    obtain ⟨o, ho, hoi, hoc⟩ := pack.selected_overlay hp hi
    obtain ⟨o', ho', hoi', hoc'⟩ := pack.selected_overlay hp hi'
    have heq : o = o' := eq_of_key_eq (·.id) hw.overlayIds ho ho' (hoi.trans hoi'.symm)
    exact hne (by rw [← hoc, ← hoc', heq])

/-- The selection restricted to one class is that class's own list. -/
theorem selection_filter_class (pack : OverlayPack) (profile : Profile) {c : OverlayClass}
    (hc : c ∈ pack.classes) :
    ((pack.selection profile).filter (·.1 = c.id)).length = (profile.selected c.id).length := by
  have hids := pack.wellFormed.classIds
  rw [OverlayPack.selection]
  revert hc hids
  induction pack.classes with
  | nil => intro hc; cases hc
  | cons a rest ih =>
      intro hc hids
      rw [List.map_cons, List.nodup_cons] at hids
      rw [List.flatMap_cons, List.filter_append, List.length_append]
      have hrest : ∀ k, k ∉ rest.map (·.id) →
          ((rest.flatMap fun c => (profile.selected c.id).map fun i => (c.id, i)).filter
            (·.1 = k)) = [] := by
        intro k hk
        refine List.filter_eq_nil_iff.mpr fun e he => ?_
        simp only [List.mem_flatMap, List.mem_map] at he
        obtain ⟨c', hc', i, _, rfl⟩ := he
        simp only [decide_eq_true_eq]
        intro heq
        exact hk (heq ▸ List.mem_map_of_mem hc')
      rcases List.mem_cons.mp hc with rfl | hc'
      · simp [hrest c.id hids.1, List.filter_map, Function.comp_def]
      · have hne : a.id ≠ c.id := fun heq => hids.1 (heq ▸ List.mem_map_of_mem hc')
        simp [ih hc' hids.2, List.filter_map, Function.comp_def, hne]

/-- A successful composition, field by field. -/
structure Describes (pack : OverlayPack) (profile : Profile) (source : OverlaySource)
    (limits : CompositionLimits) (c : Composition) : Prop where
  pack_id : c.manifest.pack = pack.id
  schemaFamily : c.manifest.schemaFamily = pack.schemaFamily
  profile_id : c.manifest.profile = profile.id
  classes_increasing : pack.classes.Pairwise (fun a b => a.order < b.order)
  selection : c.segments.map (fun s => (s.classId, s.overlay)) = pack.selection profile
  loaded : ∀ s ∈ c.segments, ∃ o ∈ pack.overlays,
    s = segmentOf o s.bytes ∧ source o.source limits.maximumOverlayBytes = .ok s.bytes
  distinct : (c.segments.map (·.overlay)).Nodup
  cardinality : ∀ k ∈ pack.classes,
    k.cardinality.accepts (c.segments.filter (·.classId = k.id)).length = true
  entries : c.manifest.entries = c.segments.map ResolvedSegment.entry
  context : c.normalizedContext = joined (c.segments.map (·.bytes))
  sourceBytes : c.manifest.sourceBytes = (c.segments.map (·.bytes.length)).sum
  outputBytes : c.manifest.outputBytes = c.normalizedContext.length

theorem map_zipWith_segmentOf {β : Type} (f : Overlay → β) (g : ResolvedSegment → β)
    (hfg : ∀ o b, g (segmentOf o b) = f o) {overlays : List Overlay} {contents : List Bytes}
    (h : overlays.length = contents.length) :
    (List.zipWith segmentOf overlays contents).map g = overlays.map f := by
  induction overlays generalizing contents with
  | nil => simp
  | cons o rest ih =>
      cases contents with
      | nil => simp at h
      | cons b contents => simp [hfg, ih (Nat.succ.inj h)]

theorem mem_zipWith_segmentOf {source : OverlaySource} {limits : CompositionLimits}
    {overlays : List Overlay} {contents : List Bytes}
    (h : List.Forall₂ (Loads source limits) overlays contents) {s : ResolvedSegment}
    (hs : s ∈ List.zipWith segmentOf overlays contents) :
    ∃ o ∈ overlays, s = segmentOf o s.bytes ∧ Loads source limits o s.bytes := by
  induction h with
  | nil => simp at hs
  | cons hload _ ih =>
      rcases List.mem_cons.mp hs with rfl | hs'
      · exact ⟨_, List.mem_cons_self, rfl, hload⟩
      · obtain ⟨o, ho, hrest⟩ := ih hs'
        exact ⟨o, List.mem_cons_of_mem _ ho, hrest⟩

theorem Composes.describes {pack : OverlayPack} {profileId : Identifier} {source : OverlaySource}
    {limits : CompositionLimits} {profile : Profile} {contents : List Bytes}
    (h : Composes pack profileId source limits profile contents) :
    Describes pack profile source limits (.of pack profile contents) := by
  have hlen := h.loads.length_eq
  have hselection : (List.zipWith segmentOf (pack.selectedOverlays profile) contents).map
      (fun s => (s.classId, s.overlay)) = pack.selection profile := by
    rw [map_zipWith_segmentOf (fun o => (o.classId, o.id)) _ (fun _ _ => rfl) hlen,
      selectedOverlays_selection pack h.declared]
  exact {
    pack_id := rfl
    schemaFamily := rfl
    profile_id := rfl
    classes_increasing := pack.wellFormed.classes_sorted
    selection := hselection
    loaded := fun s hs => by
      obtain ⟨o, ho, heq, hload⟩ := mem_zipWith_segmentOf h.loads hs
      exact ⟨o, mem_selectedOverlays ho, heq, hload.1⟩
    distinct := by
      have hnodup := selection_nodup pack h.declared
      rw [← hselection, List.map_map] at hnodup
      exact hnodup
    cardinality := fun k hk => by
      have hcount := selection_filter_class pack profile hk
      rw [← hselection, List.filter_map, List.length_map] at hcount
      have haccepts := pack.wellFormed.cardinality profile h.declared k hk
      rw [← hcount] at haccepts
      exact haccepts
    entries := rfl
    context := rfl
    sourceBytes := by simp [Composition.of, segmentBytes]
    outputBytes := rfl }

/-! ## Errors -/

/-- Loading and size errors; none of them names a missing overlay. -/
theorem assembleStep_ne_missing {source : OverlaySource} {limits : CompositionLimits}
    {state : Assembly} {overlay : Overlay} {i : Identifier} :
    assembleStep source limits state overlay ≠ .error (.missingOverlay i) := by
  have hsize : ∀ {a b : Nat} {m : UInt64},
      checkedOutputSize a b m ≠ .error (.missingOverlay i) := by
    intro a b m
    simp [checkedOutputSize, bind_eq_error, pure, Except.pure]
  simp [assembleStep, loadSegment, bind_eq_error, hsize, pure, Except.pure]

theorem assembleLoop_ne_missing {source : OverlaySource} {limits : CompositionLimits}
    {overlays : List Overlay} {state : Assembly} {i : Identifier} :
    assembleLoop source limits state overlays ≠ .error (.missingOverlay i) := by
  induction overlays generalizing state with
  | nil => simp [assembleLoop]
  | cons overlay rest ih =>
      rw [assembleLoop, ne_eq, bind_eq_error, not_or]
      refine ⟨assembleStep_ne_missing, ?_⟩
      rintro ⟨_, _, hrest⟩
      exact ih hrest

theorem compose_ne_missing (pack : OverlayPack) (profileId : Identifier) (source : OverlaySource)
    (limits : CompositionLimits) (i : Identifier) :
    compose pack profileId source limits ≠ .error (.missingOverlay i) := by
  intro h
  rcases bind_eq_error.mp h with h | ⟨profile, hprofile, h⟩
  · simp at h
  have hmem := ((find_profile_iff pack).mp (okOr_eq_ok.mp hprofile)).1
  rcases bind_eq_error.mp h with h | ⟨selected, _, h⟩
  · simp [resolveSelected_eq pack hmem] at h
  rcases bind_eq_error.mp h with h | ⟨_, _, h⟩
  · simp at h
  rcases bind_eq_error.mp h with h | ⟨_, _, h⟩
  · obtain ⟨o, _, h⟩ := forEach_eq_error h
    obtain ⟨o', _, h⟩ := forEach_eq_error h
    simp at h
  rcases bind_eq_error.mp h with h | ⟨_, _, h⟩
  · exact assembleLoop_ne_missing h
  · cases h

/-- Composition contract: exactly when `compose` succeeds, what its result
contains, and that a validated profile never references a missing overlay. -/
theorem compose_contract (pack : OverlayPack) (profileId : Identifier) (source : OverlaySource)
    (limits : CompositionLimits) :
    ((∃ c, compose pack profileId source limits = .ok c) ↔
      ∃ profile contents, Composes pack profileId source limits profile contents) ∧
    (∀ c, compose pack profileId source limits = .ok c →
      ∃ profile ∈ pack.profiles, profile.id = profileId ∧
        Describes pack profile source limits c) ∧
    ∀ overlay, compose pack profileId source limits ≠ .error (.missingOverlay overlay) := by
  refine ⟨?_, ?_, ?_⟩
  · simp only [compose_eq_ok]
    constructor
    · rintro ⟨_, profile, contents, h, _⟩
      exact ⟨profile, contents, h⟩
    · rintro ⟨profile, contents, h⟩
      exact ⟨_, profile, contents, h, rfl⟩
  · intro c hc
    obtain ⟨profile, contents, h, rfl⟩ := compose_eq_ok.mp hc
    exact ⟨profile, h.declared, h.named, h.describes⟩
  · exact compose_ne_missing pack profileId source limits

end Invokrum.Core
