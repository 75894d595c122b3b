import Invokrum.Base.JsonReader
import Invokrum.Core.Composition

/-!
# Canonical JSON of packs and profiles

The digested mirror of a pack. It omits no field, so equal trees mean equal
packs, and its text determines the tree.
-/

namespace Invokrum.Integrity

open Invokrum.Core Ordered
open Text (Bytes)

/-! ## The mirror -/

def identifierJson (id : Identifier) : Json := .string id.text

def maximumJson : Option UInt32 → Json
  | none => .null
  | some maximum => .unsigned maximum.toNat

def canonicalClass (c : OverlayClass) : Json :=
  .object [
    ("id", identifierJson c.id),
    ("order", .unsigned c.order.toNat),
    ("minimum", .unsigned c.cardinality.minimum.toNat),
    ("maximum", maximumJson c.cardinality.maximum)]

def canonicalOverlay (o : Overlay) : Json :=
  .object [
    ("id", identifierJson o.id),
    ("class", identifierJson o.classId),
    ("source", .string o.source.text),
    ("incompatible_with", .array (o.incompatibleWith.toList.map identifierJson))]

def canonicalSelection (selection : Identifier × List Identifier) : Json :=
  .object [
    ("class", identifierJson selection.1),
    ("overlays", .array (selection.2.map identifierJson))]

def canonicalProfile (profile : Profile) : Json :=
  .object [
    ("id", identifierJson profile.id),
    ("selections", .array (profile.selections.entries.map canonicalSelection))]

def sensitivityName : Sensitivity → String
  | .public => "public"
  | .secret => "secret"

def canonicalVariable (v : Variable) : Json :=
  .object [
    ("name", identifierJson v.name),
    ("sensitivity", .string (sensitivityName v.sensitivity))]

def canonicalPack (pack : OverlayPack) : Json :=
  .object [
    ("schema", .string pack.schemaFamily),
    ("id", identifierJson pack.id),
    ("classes", .array (pack.classes.map canonicalClass)),
    ("overlays", .array (pack.overlays.map canonicalOverlay)),
    ("profiles", .array (pack.profiles.map canonicalProfile)),
    ("variables", .array (pack.variables.map canonicalVariable))]

def packBytes (pack : OverlayPack) : Bytes := (canonicalPack pack).toVec

def profileBytes (profile : Profile) : Bytes := (canonicalProfile profile).toVec

/-! ## The mirror is faithful -/

theorem identifierJson_injective : Function.Injective identifierJson := by
  intro a b h
  exact Identifier.text_injective (Json.string.inj h)

theorem maximumJson_injective : Function.Injective maximumJson := by
  intro a b h
  cases a <;> cases b <;> simp_all [maximumJson, UInt32.toNat_inj]

theorem canonicalClass_injective : Function.Injective canonicalClass := by
  rintro ⟨id, order, minimum, maximum, _⟩ ⟨id', order', minimum', maximum', _⟩ h
  simp only [canonicalClass, Json.object.injEq, List.cons.injEq, Prod.mk.injEq, true_and,
    and_true, Json.unsigned.injEq, UInt32.toNat_inj, identifierJson_injective.eq_iff,
    maximumJson_injective.eq_iff] at h
  obtain ⟨rfl, rfl, rfl, rfl⟩ := h
  rfl

theorem canonicalOverlay_injective : Function.Injective canonicalOverlay := by
  rintro ⟨id, classId, source, incompatible⟩ ⟨id', classId', source', incompatible'⟩ h
  simp only [canonicalOverlay, Json.object.injEq, List.cons.injEq, Prod.mk.injEq, true_and,
    and_true, Json.string.injEq, Json.array.injEq, PackRelativePath.text_inj,
    identifierJson_injective.eq_iff,
    (List.map_injective_iff.mpr identifierJson_injective).eq_iff] at h
  obtain ⟨rfl, rfl, rfl, hset⟩ := h
  rw [SortedSet.ext hset]

theorem canonicalSelection_injective : Function.Injective canonicalSelection := by
  rintro ⟨classId, overlays⟩ ⟨classId', overlays'⟩ h
  simp only [canonicalSelection, Json.object.injEq, List.cons.injEq, Prod.mk.injEq, true_and,
    and_true, Json.array.injEq, identifierJson_injective.eq_iff,
    (List.map_injective_iff.mpr identifierJson_injective).eq_iff] at h
  obtain ⟨rfl, rfl⟩ := h
  rfl

theorem canonicalProfile_injective : Function.Injective canonicalProfile := by
  rintro ⟨id, selections⟩ ⟨id', selections'⟩ h
  simp only [canonicalProfile, Json.object.injEq, List.cons.injEq, Prod.mk.injEq, true_and,
    and_true, Json.array.injEq, identifierJson_injective.eq_iff,
    (List.map_injective_iff.mpr canonicalSelection_injective).eq_iff] at h
  obtain ⟨rfl, hselections⟩ := h
  rw [SortedMap.ext hselections]

theorem canonicalVariable_injective : Function.Injective canonicalVariable := by
  rintro ⟨name, sensitivity⟩ ⟨name', sensitivity'⟩ h
  simp only [canonicalVariable, Json.object.injEq, List.cons.injEq, Prod.mk.injEq, true_and,
    and_true, Json.string.injEq, identifierJson_injective.eq_iff] at h
  obtain ⟨rfl, hname⟩ := h
  cases sensitivity <;> cases sensitivity' <;> first | rfl | simp [sensitivityName] at hname

/-- The canonical tree loses no field of a pack. -/
theorem canonicalPack_injective : Function.Injective canonicalPack := by
  intro p q h
  simp only [canonicalPack, Json.object.injEq, List.cons.injEq, Prod.mk.injEq, true_and,
    and_true, Json.string.injEq, Json.array.injEq, identifierJson_injective.eq_iff,
    (List.map_injective_iff.mpr canonicalClass_injective).eq_iff,
    (List.map_injective_iff.mpr canonicalOverlay_injective).eq_iff,
    (List.map_injective_iff.mpr canonicalProfile_injective).eq_iff,
    (List.map_injective_iff.mpr canonicalVariable_injective).eq_iff] at h
  obtain ⟨hschema, hid, hclasses, hoverlays, hprofiles, hvariables⟩ := h
  apply OverlayPack.ext_parts
  obtain ⟨⟨_, _, _, _, _, _⟩, _⟩ := p
  obtain ⟨⟨_, _, _, _, _, _⟩, _⟩ := q
  simp_all

/-! ## The text is faithful -/

@[simp] theorem identifierJson_printable (id : Identifier) (depth : Nat) :
    (identifierJson id).printable depth = true :=
  Json.printable_string depth id.text

@[simp] theorem uint32_printable (n : UInt32) (depth : Nat) :
    (Json.unsigned n.toNat).printable depth = true := by
  have := n.toNat_lt
  simp only [Json.printable, decide_eq_true_eq]
  omega

@[simp] theorem maximumJson_printable (maximum : Option UInt32) (depth : Nat) :
    (maximumJson maximum).printable depth = true := by
  cases maximum with
  | none => simp [maximumJson, Json.printable]
  | some m => exact uint32_printable m depth

@[simp] theorem canonicalClass_printable (c : OverlayClass) (depth : Nat) :
    (canonicalClass c).printable (depth + 1) = true := by
  simp [canonicalClass]

@[simp] theorem canonicalOverlay_printable (o : Overlay) (depth : Nat) :
    (canonicalOverlay o).printable (depth + 2) = true := by
  simp [canonicalOverlay]

@[simp] theorem canonicalSelection_printable (selection : Identifier × List Identifier)
    (depth : Nat) : (canonicalSelection selection).printable (depth + 2) = true := by
  simp [canonicalSelection]

@[simp] theorem canonicalProfile_printable (profile : Profile) (depth : Nat) :
    (canonicalProfile profile).printable (depth + 4) = true := by
  simp [canonicalProfile]

@[simp] theorem canonicalVariable_printable (v : Variable) (depth : Nat) :
    (canonicalVariable v).printable (depth + 1) = true := by
  simp [canonicalVariable]

theorem canonicalPack_printable (pack : OverlayPack) :
    (canonicalPack pack).printable 6 = true := by
  simp [canonicalPack]

theorem packBytes_injective : Function.Injective packBytes := fun p q h =>
  canonicalPack_injective
    (Json.toVec_injective (canonicalPack_printable p) (canonicalPack_printable q) h)

theorem profileBytes_injective : Function.Injective profileBytes := fun p q h =>
  canonicalProfile_injective
    (Json.toVec_injective (canonicalProfile_printable p 0) (canonicalProfile_printable q 0) h)

end Invokrum.Integrity
