import Invokrum.Core.Model

/-!
# The pack aggregate and its constructor

`PackParts.Declared` is the order-insensitive well-formedness of the declared
parts; `PackParts.normalize` is the order the constructor stores them in. The
constructor body `checkPack` accepts exactly the declared parts and returns
their normal form, and an `OverlayPack` carries both facts.
-/

namespace Invokrum.Core

open Outcome Ordered

/-- The six fields of a pack aggregate, before or after validation. -/
structure PackParts where
  id : Identifier
  schemaFamily : String
  classes : List OverlayClass
  overlays : List Overlay
  profiles : List Profile
  «variables» : List Variable
deriving DecidableEq

/-! ## Well-formed declarations -/

/-- What makes a pack well formed, whatever order its parts are declared in. -/
structure PackParts.Declared (p : PackParts) : Prop where
  schemaFamily_ne : p.schemaFamily ≠ ""
  classIds : (p.classes.map (·.id)).Nodup
  overlayIds : (p.overlays.map (·.id)).Nodup
  profileIds : (p.profiles.map (·.id)).Nodup
  variableNames : (p.variables.map (·.name)).Nodup
  classOrders : (p.classes.map (·.order)).Nodup
  overlayClass : ∀ o ∈ p.overlays, ∃ c ∈ p.classes, c.id = o.classId
  incompatible : ∀ o ∈ p.overlays, ∀ i ∈ o.incompatibleWith, ∃ o' ∈ p.overlays, o'.id = i
  profileClass : ∀ q ∈ p.profiles, ∀ k ∈ q.selections.keys, ∃ c ∈ p.classes, c.id = k
  selectionClass : ∀ q ∈ p.profiles, ∀ e ∈ q.selections.entries, ∀ i ∈ e.2,
    ∃ o ∈ p.overlays, o.id = i ∧ o.classId = e.1
  cardinality : ∀ q ∈ p.profiles, ∀ c ∈ p.classes,
    c.cardinality.accepts (q.selected c.id).length = true
  selectionNodup : ∀ q ∈ p.profiles, (q.selections.entries.flatMap (·.2)).Nodup

/-- The comparison key of the class sort: `order`, then `id`. -/
def classKey (c : OverlayClass) : Nat ×ₗ Identifier := toLex (c.order.toNat, c.id)

/-- Classes by numeric order; overlays, profiles and variables by identifier. -/
def PackParts.normalize (p : PackParts) : PackParts where
  id := p.id
  schemaFamily := p.schemaFamily
  classes := sortByKey classKey p.classes
  overlays := sortByKey (·.id) p.overlays
  profiles := sortByKey (·.id) p.profiles
  «variables» := sortByKey (·.name) p.variables

/-! ## The constructor body -/

def ensureUnique (identifiers : List Identifier) (kind : String) : Except DomainError Unit :=
  rejectDuplicatesFrom id (.duplicateIdentifier kind) [] identifiers

def checkOverlay (classes : List OverlayClass) (overlays : List Overlay) (overlay : Overlay) :
    Except DomainError Unit := do
  rejectIf (overlay.classId ∉ classes.map (·.id)) (.unknownClass overlay.id overlay.classId)
  forEach
    (fun i => rejectIf (i ∉ overlays.map (·.id)) (.unknownOverlayReference i))
    overlay.incompatibleWith.toList

/-- The inner selection loop of one class, with the overlays it has seen so far. -/
def checkSelections (overlays : List Overlay) (classId : Identifier) (seen : List Identifier) :
    List Identifier → Except DomainError Unit
  | [] => .ok ()
  | overlayId :: rest => do
      rejectIf (overlayId ∈ seen) (.duplicateProfileSelection overlayId)
      let overlay ← okOr (overlays.find? (·.id == overlayId)) (.unknownOverlayReference overlayId)
      rejectIf (overlay.classId ≠ classId)
        (.overlayClassMismatch overlay.id classId overlay.classId)
      checkSelections overlays classId (overlayId :: seen) rest

def checkProfile (classes : List OverlayClass) (overlays : List Overlay) (profile : Profile) :
    Except DomainError Unit := do
  forEach
    (fun k => rejectIf (k ∉ classes.map (·.id)) (.unknownProfileClass profile.id k))
    profile.selections.keys
  forEach
    (fun c => do
      let selected := profile.selected c.id
      rejectIf (¬ c.cardinality.accepts selected.length)
        (.cardinalityViolation profile.id c.id selected.length)
      checkSelections overlays c.id [] selected)
    classes

/-- The body of `OverlayPack::new`: every check in source order, then the sorted parts. -/
def checkPack (p : PackParts) : Except DomainError PackParts := do
  rejectIf (p.schemaFamily = "") .emptySchemaFamily
  ensureUnique (p.classes.map (·.id)) "class"
  ensureUnique (p.overlays.map (·.id)) "overlay"
  ensureUnique (p.profiles.map (·.id)) "profile"
  ensureUnique (p.variables.map (·.name)) "variable"
  let classes := sortByKey classKey p.classes
  let overlays := sortByKey (·.id) p.overlays
  let profiles := sortByKey (·.id) p.profiles
  let «variables» := sortByKey (·.name) p.variables
  forEach
    (fun pair => rejectIf (pair.1.order = pair.2.order) (.duplicateClassOrder pair.1.order))
    (windows classes)
  forEach (checkOverlay classes overlays) overlays
  forEach (checkProfile classes overlays) profiles
  pure ⟨p.id, p.schemaFamily, classes, overlays, profiles, «variables»⟩

/-! ## What each check accepts -/

@[simp] theorem ensureUnique_eq_ok {ids : List Identifier} {kind : String} {u : Unit} :
    ensureUnique ids kind = .ok u ↔ ids.Nodup := by
  simp [ensureUnique, rejectDuplicatesFrom_eq_ok]

theorem checkOverlay_eq_ok {classes : List OverlayClass} {overlays : List Overlay}
    {overlay : Overlay} {u : Unit} :
    checkOverlay classes overlays overlay = .ok u ↔
      (∃ c ∈ classes, c.id = overlay.classId) ∧
        ∀ i ∈ overlay.incompatibleWith, ∃ o ∈ overlays, o.id = i := by
  simp [checkOverlay, SortedSet.mem_def]

theorem checkSelections_eq_ok {overlays : List Overlay} {classId : Identifier}
    {seen ids : List Identifier} {u : Unit} :
    checkSelections overlays classId seen ids = .ok u ↔
      (∀ i ∈ ids, i ∉ seen) ∧ ids.Nodup ∧
        ∀ i ∈ ids, ∃ o, overlays.find? (·.id == i) = some o ∧ o.classId = classId := by
  induction ids generalizing seen with
  | nil => simp [checkSelections]
  | cons i rest ih =>
      simp only [checkSelections, bind_eq_ok, rejectIf_eq_ok, okOr_eq_ok, ih, List.mem_cons,
        not_or, forall_eq_or_imp, List.nodup_cons, ne_eq, not_not]
      constructor
      · rintro ⟨_, hi, o, hfind, _, hclass, hseen, hnodup, hrest⟩
        exact ⟨⟨hi, fun j hj => (hseen j hj).2⟩, ⟨fun hmem => (hseen i hmem).1 rfl, hnodup⟩,
          ⟨o, hfind, hclass⟩, hrest⟩
      · rintro ⟨⟨hi, hseen⟩, ⟨hnot, hnodup⟩, ⟨o, hfind, hclass⟩, hrest⟩
        exact ⟨(), hi, o, hfind, (), hclass,
          fun j hj => ⟨fun h => hnot (h ▸ hj), hseen j hj⟩, hnodup, hrest⟩

/-- With distinct identifiers the linear search finds exactly the overlay of that identifier. -/
theorem find_overlay_iff {overlays : List Overlay} (h : (overlays.map (·.id)).Nodup)
    {i : Identifier} {o : Overlay} :
    overlays.find? (·.id == i) = some o ↔ o ∈ overlays ∧ o.id = i := by
  constructor
  · intro hfind
    exact ⟨List.mem_of_find?_eq_some hfind, by simpa using List.find?_some hfind⟩
  · rintro ⟨hmem, rfl⟩
    cases hfind : overlays.find? (·.id == o.id) with
    | none => exact absurd (List.find?_eq_none.mp hfind o hmem) (by simp)
    | some o' =>
        have hid : o'.id = o.id := by simpa using List.find?_some hfind
        rw [eq_of_key_eq (·.id) h (List.mem_of_find?_eq_some hfind) hmem hid]

theorem checkProfile_eq_ok {classes : List OverlayClass} {overlays : List Overlay}
    (h : (overlays.map (·.id)).Nodup) {profile : Profile} {u : Unit} :
    checkProfile classes overlays profile = .ok u ↔
      (∀ k ∈ profile.selections.keys, ∃ c ∈ classes, c.id = k) ∧
        ∀ c ∈ classes, c.cardinality.accepts (profile.selected c.id).length = true ∧
          (profile.selected c.id).Nodup ∧
            ∀ i ∈ profile.selected c.id, ∃ o ∈ overlays, o.id = i ∧ o.classId = c.id := by
  simp [checkProfile, checkSelections_eq_ok, find_overlay_iff h, and_assoc]

/-- Neighbour comparison after the class sort detects every repeated order. -/
theorem classOrders_iff {classes : List OverlayClass} :
    (∀ w ∈ windows (sortByKey classKey classes), ¬ w.1.order = w.2.order) ↔
      (classes.map (·.order)).Nodup := by
  have hle : (sortByKey classKey classes).Pairwise
      (fun a b => a.order.toNat ≤ b.order.toNat) := by
    refine (sortByKey_sorted classKey classes).imp fun hab => ?_
    rcases Prod.Lex.toLex_le_toLex.mp hab with h | h
    · exact le_of_lt h
    · exact le_of_eq h.1
  have hwindows := windows_ne_iff (fun c : OverlayClass => c.order.toNat) hle
  have hperm := ((sortByKey_perm classKey classes).map (·.order)).nodup_iff
  simp only [ne_eq, UInt32.toNat_inj] at hwindows
  rw [hwindows, ← hperm]
  constructor
  · intro hlt
    exact List.pairwise_map.mpr (hlt.imp fun hab heq => absurd hab (by rw [heq]; exact lt_irrefl _))
  · intro hnodup
    exact (hle.and (List.pairwise_map.mp hnodup)).imp fun hab =>
      lt_of_le_of_ne hab.1 fun heq => hab.2 (UInt32.toNat_inj.mp heq)

/-! ## Selections -/

theorem Profile.selected_of_mem {q : Profile} {e : Identifier × List Identifier}
    (h : e ∈ q.selections.entries) : q.selected e.1 = e.2 := by
  have hget : q.selections.get e.1 = some e.2 := SortedMap.get_eq_some_iff.mpr h
  simp [Profile.selected, hget]

theorem Profile.selected_of_not_key {q : Profile} {k : Identifier}
    (h : k ∉ q.selections.keys) : q.selected k = [] := by
  simp [Profile.selected, SortedMap.get_eq_none_iff.mpr h]

/-- A selected overlay stands in the entry of its class key. -/
theorem Profile.entry_of_mem_selected {q : Profile} {k i : Identifier}
    (h : i ∈ q.selected k) : (k, q.selected k) ∈ q.selections.entries := by
  cases hget : q.selections.get k with
  | none => simp [Profile.selected, hget] at h
  | some ids =>
      have hsel : q.selected k = ids := by simp [Profile.selected, hget]
      rw [hsel]
      exact SortedMap.get_eq_some_iff.mp hget

/-- Overlays of one class never occur under another class key, so a repeated
selection is a repetition within one class. -/
theorem selections_nodup_iff {overlays : List Overlay} (hids : (overlays.map (·.id)).Nodup)
    {q : Profile}
    (hclass : ∀ e ∈ q.selections.entries, ∀ i ∈ e.2, ∃ o ∈ overlays, o.id = i ∧ o.classId = e.1) :
    (q.selections.entries.flatMap (·.2)).Nodup ↔ ∀ e ∈ q.selections.entries, e.2.Nodup := by
  rw [List.nodup_flatMap]
  refine ⟨And.left, fun h => ⟨h, ?_⟩⟩
  refine q.selections.sorted.imp_of_mem fun {a b} ha hb hlt i hia hib => ?_
  obtain ⟨o, ho, hoi, hoa⟩ := hclass a ha i hia
  obtain ⟨o', ho', hoi', hob⟩ := hclass b hb i hib
  have heq : o = o' := eq_of_key_eq (·.id) hids ho ho' (hoi.trans hoi'.symm)
  exact ne_of_lt hlt (by rw [← hoa, ← hob, heq])

/-! ## What the constructor body accepts -/

/-- The profile loop accepts exactly the profile clauses of `PackParts.Declared`. -/
theorem checkProfile_iff {p : PackParts} (hids : (p.overlays.map (·.id)).Nodup)
    {q : Profile} :
    ((∀ k ∈ q.selections.keys, ∃ c ∈ p.classes, c.id = k) ∧
        ∀ c ∈ p.classes, c.cardinality.accepts (q.selected c.id).length = true ∧
          (q.selected c.id).Nodup ∧
            ∀ i ∈ q.selected c.id, ∃ o ∈ p.overlays, o.id = i ∧ o.classId = c.id) ↔
      (∀ k ∈ q.selections.keys, ∃ c ∈ p.classes, c.id = k) ∧
        (∀ e ∈ q.selections.entries, ∀ i ∈ e.2, ∃ o ∈ p.overlays, o.id = i ∧ o.classId = e.1) ∧
          (∀ c ∈ p.classes, c.cardinality.accepts (q.selected c.id).length = true) ∧
            (q.selections.entries.flatMap (·.2)).Nodup := by
  refine and_congr_right fun hkeys => ?_
  have hclassOf : ∀ e ∈ q.selections.entries, ∃ c ∈ p.classes, c.id = e.1 := fun e he =>
    hkeys e.1 (List.mem_map_of_mem he)
  constructor
  · intro h
    have hentry : ∀ e ∈ q.selections.entries, ∀ i ∈ e.2,
        ∃ o ∈ p.overlays, o.id = i ∧ o.classId = e.1 := by
      intro e he i hi
      obtain ⟨c, hc, hce⟩ := hclassOf e he
      have hsel := Profile.selected_of_mem he
      rw [← hce] at hsel ⊢
      exact (h c hc).2.2 i (hsel ▸ hi)
    refine ⟨hentry, fun c hc => (h c hc).1, (selections_nodup_iff hids hentry).mpr ?_⟩
    intro e he
    obtain ⟨c, hc, hce⟩ := hclassOf e he
    rw [← Profile.selected_of_mem he, ← hce]
    exact (h c hc).2.1
  · rintro ⟨hentry, hcard, hnodup⟩ c hc
    refine ⟨hcard c hc, ?_, fun i hi => hentry _ (Profile.entry_of_mem_selected hi) i hi⟩
    by_cases hk : c.id ∈ q.selections.keys
    · obtain ⟨e, he, hek⟩ := List.mem_map.mp hk
      rw [← hek, Profile.selected_of_mem he]
      exact (selections_nodup_iff hids hentry).mp hnodup e he
    · simp [Profile.selected_of_not_key hk]

/-- The constructor body accepts exactly the well-formed declarations and
returns their normal form. -/
theorem checkPack_eq_ok {p q : PackParts} :
    checkPack p = .ok q ↔ p.Declared ∧ p.normalize = q := by
  simp only [checkPack, bind_eq_ok, rejectIf_eq_ok, ensureUnique_eq_ok, forEach_eq_ok,
    classOrders_iff, mem_sortByKey, exists_const, pure, Except.pure, Except.ok.injEq]
  constructor
  · rintro ⟨hschema, hclasses, hoverlays, hprofiles, hvariables, horders, hov, hpr, rfl⟩
    have hids : ((sortByKey (·.id) p.overlays).map (·.id)).Nodup :=
      ((sortByKey_perm (·.id) p.overlays).map (·.id)).nodup_iff.mpr hoverlays
    have hov' := fun o ho => checkOverlay_eq_ok.mp (hov o ho)
    have hpr' := fun q hq => (checkProfile_eq_ok hids).mp (hpr q hq)
    simp only [mem_sortByKey] at hov' hpr'
    have hclauses := fun q hq => (checkProfile_iff hoverlays).mp (hpr' q hq)
    refine ⟨?_, rfl⟩
    exact {
      schemaFamily_ne := hschema
      classIds := hclasses
      overlayIds := hoverlays
      profileIds := hprofiles
      variableNames := hvariables
      classOrders := horders
      overlayClass := fun o ho => (hov' o ho).1
      incompatible := fun o ho => (hov' o ho).2
      profileClass := fun q hq => (hclauses q hq).1
      selectionClass := fun q hq => (hclauses q hq).2.1
      cardinality := fun q hq => (hclauses q hq).2.2.1
      selectionNodup := fun q hq => (hclauses q hq).2.2.2 }
  · rintro ⟨h, rfl⟩
    have hids : ((sortByKey (·.id) p.overlays).map (·.id)).Nodup :=
      ((sortByKey_perm (·.id) p.overlays).map (·.id)).nodup_iff.mpr h.overlayIds
    refine ⟨h.schemaFamily_ne, h.classIds, h.overlayIds, h.profileIds, h.variableNames,
      h.classOrders, fun o ho => ?_, fun q hq => ?_, rfl⟩
    · exact checkOverlay_eq_ok.mpr (by
        simpa only [mem_sortByKey] using And.intro (h.overlayClass o ho) (h.incompatible o ho))
    · refine (checkProfile_eq_ok hids).mpr ?_
      simp only [mem_sortByKey]
      exact (checkProfile_iff h.overlayIds).mpr ⟨h.profileClass q hq, h.selectionClass q hq,
        h.cardinality q hq, h.selectionNodup q hq⟩

/-! ## Normal form -/

/-- Well-formedness does not depend on the order of any of the four lists. -/
theorem PackParts.Declared.of_perm {p q : PackParts} (h : p.Declared)
    (hschema : p.schemaFamily = q.schemaFamily) (hc : p.classes.Perm q.classes)
    (ho : p.overlays.Perm q.overlays) (hp : p.profiles.Perm q.profiles)
    (hv : p.variables.Perm q.variables) : q.Declared where
  schemaFamily_ne := hschema ▸ h.schemaFamily_ne
  classIds := (hc.map _).nodup_iff.mp h.classIds
  overlayIds := (ho.map _).nodup_iff.mp h.overlayIds
  profileIds := (hp.map _).nodup_iff.mp h.profileIds
  variableNames := (hv.map _).nodup_iff.mp h.variableNames
  classOrders := (hc.map _).nodup_iff.mp h.classOrders
  overlayClass := by simpa only [← hc.mem_iff, ← ho.mem_iff] using h.overlayClass
  incompatible := by simpa only [← ho.mem_iff] using h.incompatible
  profileClass := by simpa only [← hc.mem_iff, ← hp.mem_iff] using h.profileClass
  selectionClass := by simpa only [← ho.mem_iff, ← hp.mem_iff] using h.selectionClass
  cardinality := by simpa only [← hc.mem_iff, ← hp.mem_iff] using h.cardinality
  selectionNodup := by simpa only [← hp.mem_iff] using h.selectionNodup

/-- Declared class orders are distinct, so the class sort is by order alone. -/
theorem normalize_classes_strict {p : PackParts} (h : p.Declared) :
    p.normalize.classes.Pairwise (fun a b => a.order < b.order) := by
  have hkeys : (p.classes.map classKey).Nodup := by
    refine List.Nodup.of_map (fun k => (ofLex k).2) ?_
    simpa [List.map_map, Function.comp_def, classKey] using h.classIds
  have horders : (p.normalize.classes.map (·.order)).Nodup :=
    ((sortByKey_perm classKey p.classes).map (·.order)).nodup_iff.mpr h.classOrders
  refine ((sortByKey_strict classKey hkeys).and (List.pairwise_map.mp horders)).imp ?_
  rintro a b ⟨hlt, hne⟩
  rcases Prod.Lex.toLex_lt_toLex.mp hlt with hab | hab
  · exact hab
  · exact absurd (UInt32.toNat_inj.mp hab.1) hne

/-- What the stored parts of a pack satisfy. -/
structure PackParts.WellFormed (p : PackParts) : Prop extends p.Declared where
  classes_sorted : p.classes.Pairwise (fun a b => a.order < b.order)
  overlays_sorted : p.overlays.Pairwise (fun a b => a.id < b.id)
  profiles_sorted : p.profiles.Pairwise (fun a b => a.id < b.id)
  variables_sorted : p.variables.Pairwise (fun a b => a.name < b.name)

theorem PackParts.Declared.normalize {p : PackParts} (h : p.Declared) :
    p.normalize.WellFormed where
  toDeclared := h.of_perm rfl (sortByKey_perm _ _).symm (sortByKey_perm _ _).symm
    (sortByKey_perm _ _).symm (sortByKey_perm _ _).symm
  classes_sorted := normalize_classes_strict h
  overlays_sorted := sortByKey_strict _ h.overlayIds
  profiles_sorted := sortByKey_strict _ h.profileIds
  variables_sorted := sortByKey_strict _ h.variableNames

/-- Sorting the stored parts again changes nothing. -/
theorem PackParts.WellFormed.normalize_eq {p : PackParts} (h : p.WellFormed) :
    p.normalize = p := by
  have hclasses : sortByKey classKey p.classes = p.classes :=
    sortByKey_of_strict classKey (h.classes_sorted.imp fun hab =>
      Prod.Lex.toLex_lt_toLex.mpr (Or.inl hab))
  simp only [PackParts.normalize, hclasses, sortByKey_of_strict _ h.overlays_sorted,
    sortByKey_of_strict _ h.profiles_sorted, sortByKey_of_strict _ h.variables_sorted]

/-- Permuted declarations have one normal form. -/
theorem PackParts.Declared.normalize_eq_of_perm {p q : PackParts} (h : p.Declared)
    (hid : p.id = q.id) (hschema : p.schemaFamily = q.schemaFamily)
    (hc : p.classes.Perm q.classes) (ho : p.overlays.Perm q.overlays)
    (hp : p.profiles.Perm q.profiles) (hv : p.variables.Perm q.variables) :
    p.normalize = q.normalize := by
  have hkeys : (p.classes.map classKey).Nodup := by
    refine List.Nodup.of_map (fun k => (ofLex k).2) ?_
    simpa [List.map_map, Function.comp_def, classKey] using h.classIds
  simp only [PackParts.normalize, hid, hschema, sortByKey_eq_of_perm classKey hc hkeys,
    sortByKey_eq_of_perm _ ho h.overlayIds, sortByKey_eq_of_perm _ hp h.profileIds,
    sortByKey_eq_of_perm _ hv h.variableNames]

/-! ## The aggregate -/

/-- A pack is its stored parts together with their well-formedness. -/
structure OverlayPack extends PackParts where
  wellFormed : toPackParts.WellFormed
deriving DecidableEq

theorem OverlayPack.ext_parts {p q : OverlayPack} (h : p.toPackParts = q.toPackParts) :
    p = q := by
  cases p; cases q; cases h; rfl

theorem checkPack_wellFormed {p q : PackParts} (h : checkPack p = .ok q) : q.WellFormed := by
  obtain ⟨hp, rfl⟩ := checkPack_eq_ok.mp h
  exact hp.normalize

/-- `OverlayPack::new` on its six arguments. -/
def OverlayPack.new (p : PackParts) : Except DomainError OverlayPack :=
  match h : checkPack p with
  | .ok q => .ok ⟨q, checkPack_wellFormed h⟩
  | .error e => .error e

theorem OverlayPack.new_eq_ok {p : PackParts} {q : OverlayPack} :
    OverlayPack.new p = .ok q ↔ p.Declared ∧ p.normalize = q.toPackParts := by
  rw [← checkPack_eq_ok]
  unfold OverlayPack.new
  constructor
  · intro h
    split at h
    · next q' hq =>
        cases h
        exact hq
    · cases h
  · intro h
    split
    · next q' hq =>
        have : q' = q.toPackParts := by rw [h] at hq; exact (Except.ok.inj hq).symm
        exact congrArg Except.ok (OverlayPack.ext_parts this)
    · next e he => rw [h] at he; cases he

theorem OverlayPack.exists_new_iff {p : PackParts} :
    (∃ q, OverlayPack.new p = .ok q) ↔ p.Declared := by
  constructor
  · rintro ⟨q, hq⟩
    exact (OverlayPack.new_eq_ok.mp hq).1
  · intro h
    exact ⟨⟨p.normalize, h.normalize⟩, OverlayPack.new_eq_ok.mpr ⟨h, rfl⟩⟩

/-- Declaration order decides neither acceptance nor the resulting pack. -/
theorem OverlayPack.new_perm {p q : PackParts} (hid : p.id = q.id)
    (hschema : p.schemaFamily = q.schemaFamily) (hc : p.classes.Perm q.classes)
    (ho : p.overlays.Perm q.overlays) (hp : p.profiles.Perm q.profiles)
    (hv : p.variables.Perm q.variables) (r : OverlayPack) :
    OverlayPack.new p = .ok r ↔ OverlayPack.new q = .ok r := by
  simp only [OverlayPack.new_eq_ok]
  constructor
  · rintro ⟨h, hr⟩
    exact ⟨h.of_perm hschema hc ho hp hv,
      (h.normalize_eq_of_perm hid hschema hc ho hp hv).symm.trans hr⟩
  · rintro ⟨h, hr⟩
    have h' := h.of_perm hschema.symm hc.symm ho.symm hp.symm hv.symm
    exact ⟨h', (h'.normalize_eq_of_perm hid hschema hc ho hp hv).trans hr⟩

/-- A pack rebuilt from its own parts is the same pack. -/
theorem OverlayPack.new_self (p : OverlayPack) : OverlayPack.new p.toPackParts = .ok p :=
  OverlayPack.new_eq_ok.mpr ⟨p.wellFormed.toDeclared, p.wellFormed.normalize_eq⟩

end Invokrum.Core
