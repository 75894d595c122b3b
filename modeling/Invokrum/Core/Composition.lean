import Invokrum.Base.BinarySearch
import Invokrum.Base.Machine
import Invokrum.Core.Pack

/-!
# Deterministic composition of one profile

`compose` resolves the selected overlays, checks limits and incompatibilities,
loads each source and joins the bytes. Every stage has one exact success
condition; the assembly loop is carried by `Assembly.Sound`, which fixes all
four accumulators as functions of the segments loaded so far.
-/

namespace Invokrum.Core

open Outcome Ordered Machine
open Text (Bytes)

/-! ## Limits, sources and results -/

structure CompositionLimits where
  maximumOverlays : UInt64
  maximumOverlayBytes : UInt64
  maximumOutputBytes : UInt64
deriving DecidableEq

def CompositionLimits.default : CompositionLimits := ⟨256, 1048576, 8388608⟩

inductive SourceFailureKind where
  | notFound
  | notRegularFile
  | symbolicLink
  | hardLink
  | deviceBoundary
  | rootEscape
  | changedDuringRead
  | tooLarge
  | permissionDenied
  | unsupportedPlatform
  | io
deriving DecidableEq

structure SourceFailure where
  path : PackRelativePath
  kind : SourceFailureKind
deriving DecidableEq

/-- The port that loads one source under a byte maximum. -/
abbrev OverlaySource := PackRelativePath → UInt64 → Except SourceFailure Bytes

structure ResolvedEntry where
  classId : Identifier
  overlay : Identifier
  source : PackRelativePath
  byteLength : Nat
deriving DecidableEq

structure ResolvedManifest where
  pack : Identifier
  schemaFamily : String
  profile : Identifier
  entries : List ResolvedEntry
  sourceBytes : Nat
  outputBytes : Nat
deriving DecidableEq

structure ResolvedSegment where
  classId : Identifier
  overlay : Identifier
  source : PackRelativePath
  bytes : Bytes
deriving DecidableEq

structure Composition where
  manifest : ResolvedManifest
  segments : List ResolvedSegment
  normalizedContext : Bytes
deriving DecidableEq

inductive CompositionError where
  | unknownProfile (profile : Identifier)
  | missingOverlay (overlay : Identifier)
  | tooManyOverlays (count maximum : Nat)
  | incompatibleOverlays (overlay other : Identifier)
  | overlayTooLarge (overlay : Identifier) (size maximum : Nat)
  | outputTooLarge (size maximum : Nat)
  | source (failure : SourceFailure)
deriving DecidableEq

/-! ## The use case -/

def findOverlay (pack : OverlayPack) (overlayId : Identifier) : Except CompositionError Overlay :=
  okOr (BinarySearch.search (·.id) overlayId pack.overlays) (.missingOverlay overlayId)

def resolveSelected (pack : OverlayPack) (profile : Profile) :
    Except CompositionError (List Overlay) := do
  let groups ← collect
    (fun c => match profile.selections.get c.id with
      | some overlayIds => collect (findOverlay pack) overlayIds
      | none => .ok [])
    pack.classes
  pure groups.flatten

def rejectIncompatibilities (selected : List Overlay) : Except CompositionError Unit :=
  forEach
    (fun overlay => forEach
      (fun other => rejectIf (other.id ∈ overlay.incompatibleWith)
        (.incompatibleOverlays overlay.id other.id))
      selected)
    selected

def loadSegment (overlay : Overlay) (source : OverlaySource) (maximumBytes : UInt64) :
    Except CompositionError ResolvedSegment := do
  let bytes ← (source overlay.source maximumBytes).mapError .source
  rejectIf (maximumBytes.toNat < bytes.length)
    (.overlayTooLarge overlay.id bytes.length maximumBytes.toNat)
  pure ⟨overlay.classId, overlay.id, overlay.source, bytes⟩

def checkedOutputSize (current additional : Nat) (maximum : UInt64) :
    Except CompositionError Nat := do
  let size ← okOr (checkedAdd current additional) (.outputTooLarge (wordSize - 1) maximum.toNat)
  rejectIf (maximum.toNat < size) (.outputTooLarge size maximum.toNat)
  pure size

/-- The local variables of `assemble`. -/
structure Assembly where
  entries : List ResolvedEntry
  segments : List ResolvedSegment
  normalizedContext : Bytes
  sourceBytes : Nat
deriving DecidableEq

def Assembly.empty : Assembly := ⟨[], [], [], 0⟩

/-- The separator between adjacent sources: two line feeds. -/
def separator : Bytes := [10, 10]

def ResolvedSegment.entry (segment : ResolvedSegment) : ResolvedEntry :=
  ⟨segment.classId, segment.overlay, segment.source, segment.bytes.length⟩

def assembleStep (source : OverlaySource) (limits : CompositionLimits) (state : Assembly)
    (overlay : Overlay) : Except CompositionError Assembly := do
  let segment ← loadSegment overlay source limits.maximumOverlayBytes
  let sourceBytes ← checkedOutputSize state.sourceBytes segment.bytes.length
    limits.maximumOutputBytes
  let separatorBytes := if state.entries.isEmpty then 0 else 2
  let framedBytes ← checkedOutputSize separatorBytes segment.bytes.length
    limits.maximumOutputBytes
  let _required ← checkedOutputSize state.normalizedContext.length framedBytes
    limits.maximumOutputBytes
  pure {
    entries := state.entries ++ [segment.entry]
    segments := state.segments ++ [segment]
    normalizedContext := state.normalizedContext
      ++ (if separatorBytes ≠ 0 then separator else []) ++ segment.bytes
    sourceBytes := sourceBytes }

def assembleLoop (source : OverlaySource) (limits : CompositionLimits) :
    Assembly → List Overlay → Except CompositionError Assembly
  | state, [] => .ok state
  | state, overlay :: rest => do
      let state' ← assembleStep source limits state overlay
      assembleLoop source limits state' rest

def assemble (pack : OverlayPack) (profile : Profile) (selected : List Overlay)
    (source : OverlaySource) (limits : CompositionLimits) :
    Except CompositionError Composition := do
  let state ← assembleLoop source limits .empty selected
  pure {
    manifest := {
      pack := pack.id
      schemaFamily := pack.schemaFamily
      profile := profile.id
      entries := state.entries
      sourceBytes := state.sourceBytes
      outputBytes := state.normalizedContext.length }
    segments := state.segments
    normalizedContext := state.normalizedContext }

def compose (pack : OverlayPack) (profileId : Identifier) (source : OverlaySource)
    (limits : CompositionLimits) : Except CompositionError Composition := do
  let profile ← okOr (pack.profiles.find? (·.id == profileId)) (.unknownProfile profileId)
  let selected ← resolveSelected pack profile
  rejectIf (limits.maximumOverlays.toNat < selected.length)
    (.tooManyOverlays selected.length limits.maximumOverlays.toNat)
  rejectIncompatibilities selected
  assemble pack profile selected source limits

/-! ## Resolution -/

/-- The selected overlays: each class's selections in profile order, classes in pack order. -/
def OverlayPack.selectedOverlays (pack : OverlayPack) (profile : Profile) : List Overlay :=
  pack.classes.flatMap fun c =>
    (profile.selected c.id).flatMap fun i => pack.overlays.filter (·.id = i)

theorem filter_overlay_eq {overlays : List Overlay} (h : (overlays.map (·.id)).Nodup)
    {o : Overlay} (ho : o ∈ overlays) : overlays.filter (·.id = o.id) = [o] := by
  induction overlays with
  | nil => cases ho
  | cons a rest ih =>
      rw [List.map_cons, List.nodup_cons] at h
      rcases List.mem_cons.mp ho with rfl | ho'
      · have hnone : rest.filter (·.id = o.id) = [] := by
          refine List.filter_eq_nil_iff.mpr fun x hx => ?_
          simp only [decide_eq_true_eq]
          intro hid
          exact h.1 (hid ▸ List.mem_map_of_mem hx)
        simp [hnone]
      · have hne : a.id ≠ o.id := fun hid => h.1 (hid ▸ List.mem_map_of_mem ho')
        simpa [hne] using ih h.2 ho'

theorem findOverlay_eq_ok {pack : OverlayPack} {i : Identifier} {o : Overlay} :
    findOverlay pack i = .ok o ↔ o ∈ pack.overlays ∧ o.id = i := by
  rw [findOverlay, okOr_eq_ok, BinarySearch.search_eq_some pack.wellFormed.overlays_sorted]

/-- In a pack, every overlay a profile selects under a class exists and belongs to that class. -/
theorem OverlayPack.selected_overlay (pack : OverlayPack) {profile : Profile}
    (hp : profile ∈ pack.profiles) {k i : Identifier} (hi : i ∈ profile.selected k) :
    ∃ o ∈ pack.overlays, o.id = i ∧ o.classId = k :=
  pack.wellFormed.selectionClass profile hp _ (Profile.entry_of_mem_selected hi) i hi

theorem findOverlays_eq (pack : OverlayPack) {profile : Profile} (hp : profile ∈ pack.profiles)
    (k : Identifier) : collect (findOverlay pack) (profile.selected k) =
      .ok ((profile.selected k).flatMap fun i => pack.overlays.filter (·.id = i)) := by
  have hfound : ∀ i ∈ profile.selected k, ∃ o, findOverlay pack i = .ok o ∧
      pack.overlays.filter (·.id = i) = [o] := by
    intro i hi
    obtain ⟨o, ho, rfl, -⟩ := pack.selected_overlay hp hi
    exact ⟨o, findOverlay_eq_ok.mpr ⟨ho, rfl⟩, filter_overlay_eq pack.wellFormed.overlayIds ho⟩
  revert hfound
  induction profile.selected k with
  | nil => intro _; rfl
  | cons i rest ih =>
      intro hfound
      obtain ⟨o, hok, hfilter⟩ := hfound i List.mem_cons_self
      simp [collect, hok, hfilter, ih fun j hj => hfound j (List.mem_cons_of_mem i hj),
        pure, Except.pure]

/-- Resolution never fails on a profile of the pack. -/
theorem resolveSelected_eq (pack : OverlayPack) {profile : Profile}
    (hp : profile ∈ pack.profiles) :
    resolveSelected pack profile = .ok (pack.selectedOverlays profile) := by
  have hgroup : ∀ c ∈ pack.classes,
      (match profile.selections.get c.id with
        | some overlayIds => collect (findOverlay pack) overlayIds
        | none => .ok []) =
      .ok ((profile.selected c.id).flatMap fun i => pack.overlays.filter (·.id = i)) := by
    intro c _
    have hfind := findOverlays_eq pack hp c.id
    unfold Profile.selected at hfind ⊢
    cases hget : profile.selections.get c.id with
    | none => rfl
    | some ids => simpa only [hget, Option.getD_some] using hfind
  simp [resolveSelected, collect_eq_map hgroup, OverlayPack.selectedOverlays, List.flatMap_def,
    pure, Except.pure]

theorem rejectIncompatibilities_eq_ok {selected : List Overlay} {u : Unit} :
    rejectIncompatibilities selected = .ok u ↔
      ∀ o ∈ selected, ∀ o' ∈ selected, o'.id ∉ o.incompatibleWith := by
  simp [rejectIncompatibilities]

/-! ## Assembly -/

/-- The segment that loading `bytes` for an overlay yields. -/
def segmentOf (overlay : Overlay) (bytes : Bytes) : ResolvedSegment :=
  ⟨overlay.classId, overlay.id, overlay.source, bytes⟩

/-- The source answers with bytes within the per-overlay maximum. -/
def Loads (source : OverlaySource) (limits : CompositionLimits) (overlay : Overlay)
    (bytes : Bytes) : Prop :=
  source overlay.source limits.maximumOverlayBytes = .ok bytes ∧
    bytes.length ≤ limits.maximumOverlayBytes.toNat

theorem loadSegment_eq_ok {source : OverlaySource} {limits : CompositionLimits}
    {overlay : Overlay} {segment : ResolvedSegment} :
    loadSegment overlay source limits.maximumOverlayBytes = .ok segment ↔
      ∃ bytes, Loads source limits overlay bytes ∧ segment = segmentOf overlay bytes := by
  simp only [loadSegment, bind_eq_ok, mapError_eq_ok, rejectIf_eq_ok, not_lt, exists_const, pure,
    Except.pure, Except.ok.injEq, Loads, segmentOf, and_assoc, eq_comm (b := segment)]

theorem checkedOutputSize_eq_ok {current additional : Nat} {maximum : UInt64} {size : Nat} :
    checkedOutputSize current additional maximum = .ok size ↔
      current + additional ≤ maximum.toNat ∧ current + additional = size := by
  have hmax := toNat_lt_wordSize maximum
  simp only [checkedOutputSize, bind_eq_ok, okOr_eq_ok, checkedAdd_eq_some, rejectIf_eq_ok,
    not_lt, exists_const, pure, Except.pure, Except.ok.injEq]
  constructor
  · rintro ⟨_, ⟨_, rfl⟩, hle, rfl⟩
    exact ⟨hle, rfl⟩
  · rintro ⟨hle, rfl⟩
    exact ⟨_, ⟨lt_of_le_of_lt hle hmax, rfl⟩, hle, rfl⟩

/-- Byte sequences joined by exactly one separator between neighbours. -/
def joined (contents : List Bytes) : Bytes := List.intercalate separator contents

theorem joined_append_singleton (contents : List Bytes) (bytes : Bytes) :
    joined (contents ++ [bytes]) =
      joined contents ++ (if contents.isEmpty then [] else separator) ++ bytes := by
  induction contents with
  | nil => simp [joined, List.intercalate]
  | cons first rest ih =>
      cases rest with
      | nil => simp [joined, List.intercalate]
      | cons second rest =>
          simp only [joined, List.intercalate, List.cons_append, List.intersperse_cons_cons,
            List.flatten_cons, List.isEmpty_cons, Bool.false_eq_true, if_false,
            List.append_assoc] at ih ⊢
          rw [ih]

theorem joined_length_append (contents : List Bytes) (bytes : Bytes) :
    (joined (contents ++ [bytes])).length =
      (joined contents).length + ((if contents.isEmpty then 0 else 2) + bytes.length) := by
  rw [joined_append_singleton, List.length_append, List.length_append, Nat.add_assoc]
  cases contents <;> rfl

theorem sum_length_le_joined (contents : List Bytes) :
    (contents.map List.length).sum ≤ (joined contents).length := by
  induction contents using List.reverseRecOn with
  | nil => simp
  | append_singleton contents bytes ih =>
      rw [joined_length_append, List.map_append, List.sum_append]
      simp only [List.map_cons, List.map_nil, List.sum_cons, List.sum_nil]
      omega

theorem joined_length_mono (contents more : List Bytes) :
    (joined contents).length ≤ (joined (contents ++ more)).length := by
  induction more generalizing contents with
  | nil => simp
  | cons bytes more ih =>
      calc
        (joined contents).length ≤ (joined (contents ++ [bytes])).length := by
          rw [joined_length_append]
          omega
        _ ≤ (joined (contents ++ [bytes] ++ more)).length := ih _
        _ = (joined (contents ++ bytes :: more)).length := by simp

def segmentBytes (segments : List ResolvedSegment) : List Bytes := segments.map (·.bytes)

/-- The accumulators are functions of the segments, and the output so far fits. -/
structure Assembly.Sound (limits : CompositionLimits) (state : Assembly) : Prop where
  entries_eq : state.entries = state.segments.map ResolvedSegment.entry
  context_eq : state.normalizedContext = joined (segmentBytes state.segments)
  source_eq : state.sourceBytes = ((segmentBytes state.segments).map List.length).sum
  fits : state.normalizedContext.length ≤ limits.maximumOutputBytes.toNat

@[simp] theorem Assembly.empty_segments : Assembly.empty.segments = [] := rfl

theorem Assembly.empty_sound (limits : CompositionLimits) : Assembly.empty.Sound limits where
  entries_eq := rfl
  context_eq := rfl
  source_eq := rfl
  fits := Nat.zero_le _

theorem Assembly.Sound.eq_of_segments {limits : CompositionLimits} {state state' : Assembly}
    (h : state.Sound limits) (h' : state'.Sound limits) (hs : state.segments = state'.segments) :
    state = state' := by
  obtain ⟨hentries, hcontext, hsource, -⟩ := h
  obtain ⟨hentries', hcontext', hsource', -⟩ := h'
  cases state; cases state'
  simp_all

/-- One more segment: what an iteration does once its checks have passed. -/
def Assembly.push (state : Assembly) (segment : ResolvedSegment) : Assembly where
  entries := state.entries ++ [segment.entry]
  segments := state.segments ++ [segment]
  normalizedContext := state.normalizedContext
    ++ (if state.entries.isEmpty then [] else separator) ++ segment.bytes
  sourceBytes := state.sourceBytes + segment.bytes.length

theorem Assembly.Sound.push_context {limits : CompositionLimits} {state : Assembly}
    (h : state.Sound limits) (segment : ResolvedSegment) :
    (state.push segment).normalizedContext = joined (segmentBytes (state.segments ++ [segment])) := by
  simp [Assembly.push, segmentBytes, h.context_eq, h.entries_eq, joined_append_singleton]

theorem Assembly.Sound.push {limits : CompositionLimits} {state : Assembly}
    (h : state.Sound limits) {segment : ResolvedSegment}
    (hfits : (state.push segment).normalizedContext.length ≤ limits.maximumOutputBytes.toNat) :
    (state.push segment).Sound limits where
  entries_eq := by simp [Assembly.push, h.entries_eq]
  context_eq := h.push_context segment
  source_eq := by simp [Assembly.push, segmentBytes, h.source_eq]
  fits := hfits

/-- One iteration succeeds exactly when the source loads and the extended output fits. -/
theorem assembleStep_eq_ok {source : OverlaySource} {limits : CompositionLimits}
    {state : Assembly} (hs : state.Sound limits) {overlay : Overlay} {state' : Assembly} :
    assembleStep source limits state overlay = .ok state' ↔
      ∃ bytes, Loads source limits overlay bytes ∧
        state' = state.push (segmentOf overlay bytes) ∧
          state'.normalizedContext.length ≤ limits.maximumOutputBytes.toNat := by
  have hsource : state.sourceBytes ≤ state.normalizedContext.length := by
    rw [hs.source_eq, hs.context_eq]
    exact sum_length_le_joined _
  simp only [assembleStep, bind_eq_ok, loadSegment_eq_ok, checkedOutputSize_eq_ok, pure,
    Except.pure, Except.ok.injEq]
  constructor
  · rintro ⟨_, ⟨bytes, hload, rfl⟩, _, ⟨_, rfl⟩, _, ⟨_, rfl⟩, _, ⟨hle, rfl⟩, rfl⟩
    refine ⟨bytes, hload, ?_, ?_⟩
    · cases hempty : state.entries.isEmpty <;> simp [Assembly.push, hempty]
    · cases hempty : state.entries.isEmpty <;>
        simp [hempty, segmentOf, separator] at hle ⊢ <;> omega
  · rintro ⟨bytes, hload, rfl, hfits⟩
    refine ⟨_, ⟨bytes, hload, rfl⟩, _, ⟨?_, rfl⟩, _, ⟨?_, rfl⟩, _, ⟨?_, rfl⟩, ?_⟩
    all_goals cases hempty : state.entries.isEmpty <;>
      simp [Assembly.push, hempty, segmentOf, separator] at hfits ⊢ <;> omega

/-- The loop appends one loaded segment per overlay and stops at the first failure. -/
theorem assembleLoop_eq_ok {source : OverlaySource} {limits : CompositionLimits}
    {state : Assembly} (hs : state.Sound limits) {overlays : List Overlay} {state' : Assembly} :
    assembleLoop source limits state overlays = .ok state' ↔
      ∃ contents, List.Forall₂ (Loads source limits) overlays contents ∧
        state'.segments = state.segments ++ List.zipWith segmentOf overlays contents ∧
          state'.Sound limits := by
  induction overlays generalizing state with
  | nil =>
      simp only [assembleLoop, Except.ok.injEq, List.forall₂_nil_left_iff, exists_eq_left,
        List.zipWith_nil_left, List.append_nil]
      constructor
      · rintro rfl
        exact ⟨rfl, hs⟩
      · rintro ⟨hseg, hs'⟩
        exact hs.eq_of_segments hs' hseg.symm
  | cons overlay rest ih =>
      simp only [assembleLoop, bind_eq_ok, assembleStep_eq_ok hs]
      constructor
      · rintro ⟨_, ⟨bytes, hload, rfl, hfits⟩, hrest⟩
        obtain ⟨contents, hloads, hseg, hs'⟩ := (ih (hs.push hfits)).mp hrest
        refine ⟨bytes :: contents, .cons hload hloads, ?_, hs'⟩
        simpa [Assembly.push] using hseg
      · rintro ⟨contents, hloads, hseg, hs'⟩
        cases hloads with
        | cons hload hloads =>
            rename_i bytes contents
            have hfits : (state.push (segmentOf overlay bytes)).normalizedContext.length ≤
                limits.maximumOutputBytes.toNat := by
              refine le_trans ?_ hs'.fits
              rw [hs.push_context, hs'.context_eq, hseg]
              simpa [segmentBytes] using joined_length_mono
                (segmentBytes (state.segments ++ [segmentOf overlay bytes]))
                (segmentBytes (List.zipWith segmentOf rest contents))
            refine ⟨_, ⟨bytes, hload, rfl, hfits⟩,
              (ih (hs.push hfits)).mpr ⟨contents, hloads, ?_, hs'⟩⟩
            simpa [Assembly.push] using hseg

/-! ## The whole use case -/

/-- The composition of a profile whose selected overlays load the given contents. -/
def Composition.of (pack : OverlayPack) (profile : Profile) (contents : List Bytes) :
    Composition :=
  let segments := List.zipWith segmentOf (pack.selectedOverlays profile) contents
  { manifest := {
      pack := pack.id
      schemaFamily := pack.schemaFamily
      profile := profile.id
      entries := segments.map ResolvedSegment.entry
      sourceBytes := ((segmentBytes segments).map List.length).sum
      outputBytes := (joined (segmentBytes segments)).length }
    segments := segments
    normalizedContext := joined (segmentBytes segments) }

/-- Every condition under which a profile composes, with the contents it loads. -/
structure Composes (pack : OverlayPack) (profileId : Identifier) (source : OverlaySource)
    (limits : CompositionLimits) (profile : Profile) (contents : List Bytes) : Prop where
  declared : profile ∈ pack.profiles
  named : profile.id = profileId
  count : (pack.selectedOverlays profile).length ≤ limits.maximumOverlays.toNat
  compatible : ∀ o ∈ pack.selectedOverlays profile, ∀ o' ∈ pack.selectedOverlays profile,
    o'.id ∉ o.incompatibleWith
  loads : List.Forall₂ (Loads source limits) (pack.selectedOverlays profile) contents
  fits : (joined contents).length ≤ limits.maximumOutputBytes.toNat

theorem segmentBytes_zipWith {overlays : List Overlay} {contents : List Bytes}
    (h : overlays.length = contents.length) :
    segmentBytes (List.zipWith segmentOf overlays contents) = contents := by
  induction overlays generalizing contents with
  | nil => cases contents <;> simp_all [segmentBytes]
  | cons o rest ih =>
      cases contents with
      | nil => simp at h
      | cons bytes contents =>
          have hrest := ih (Nat.succ.inj h)
          simp only [segmentBytes, List.zipWith_cons_cons, List.map_cons] at hrest ⊢
          rw [hrest]
          rfl

theorem assemble_eq_ok {pack : OverlayPack} {profile : Profile} {source : OverlaySource}
    {limits : CompositionLimits} {c : Composition} :
    assemble pack profile (pack.selectedOverlays profile) source limits = .ok c ↔
      ∃ contents,
        List.Forall₂ (Loads source limits) (pack.selectedOverlays profile) contents ∧
          (joined contents).length ≤ limits.maximumOutputBytes.toNat ∧
            c = .of pack profile contents := by
  simp only [assemble, bind_eq_ok, assembleLoop_eq_ok (Assembly.empty_sound limits),
    Assembly.empty_segments, List.nil_append, pure, Except.pure, Except.ok.injEq]
  constructor
  · rintro ⟨state, ⟨contents, hloads, hseg, hs⟩, rfl⟩
    have hcontext := hs.context_eq
    have hfits := hs.fits
    rw [hseg] at hcontext
    rw [hcontext, segmentBytes_zipWith hloads.length_eq] at hfits
    refine ⟨contents, hloads, hfits, ?_⟩
    simp only [Composition.of, hs.entries_eq, hs.source_eq, hs.context_eq, hseg]
  · rintro ⟨contents, hloads, hfits, rfl⟩
    rw [← segmentBytes_zipWith hloads.length_eq] at hfits
    exact ⟨⟨_, _, _, _⟩, ⟨contents, hloads, rfl, ⟨rfl, rfl, rfl, hfits⟩⟩, rfl⟩

theorem find_profile_iff (pack : OverlayPack) {i : Identifier} {q : Profile} :
    pack.profiles.find? (·.id == i) = some q ↔ q ∈ pack.profiles ∧ q.id = i := by
  constructor
  · intro hfind
    exact ⟨List.mem_of_find?_eq_some hfind, by simpa using List.find?_some hfind⟩
  · rintro ⟨hmem, rfl⟩
    cases hfind : pack.profiles.find? (·.id == q.id) with
    | none => exact absurd (List.find?_eq_none.mp hfind q hmem) (by simp)
    | some q' =>
        have hid : q'.id = q.id := by simpa using List.find?_some hfind
        rw [eq_of_key_eq (·.id) pack.wellFormed.profileIds (List.mem_of_find?_eq_some hfind)
          hmem hid]

/-- `compose` succeeds exactly under the conditions of `Composes`, and its
result is determined by the profile and the loaded contents. -/
theorem compose_eq_ok {pack : OverlayPack} {profileId : Identifier} {source : OverlaySource}
    {limits : CompositionLimits} {c : Composition} :
    compose pack profileId source limits = .ok c ↔
      ∃ profile contents, Composes pack profileId source limits profile contents ∧
        c = .of pack profile contents := by
  simp only [compose, bind_eq_ok, okOr_eq_ok, find_profile_iff, rejectIf_eq_ok,
    rejectIncompatibilities_eq_ok, not_lt, exists_const]
  constructor
  · rintro ⟨profile, ⟨hmem, hid⟩, selected, hselected, hcount, hcompat, hassemble⟩
    rw [resolveSelected_eq pack hmem, Except.ok.injEq] at hselected
    subst hselected
    obtain ⟨contents, hloads, hfits, rfl⟩ := assemble_eq_ok.mp hassemble
    exact ⟨profile, contents, ⟨hmem, hid, hcount, hcompat, hloads, hfits⟩, rfl⟩
  · rintro ⟨profile, contents, h, rfl⟩
    exact ⟨profile, ⟨h.declared, h.named⟩, _, resolveSelected_eq pack h.declared, h.count,
      h.compatible, assemble_eq_ok.mpr ⟨contents, h.loads, h.fits, rfl⟩⟩

end Invokrum.Core
