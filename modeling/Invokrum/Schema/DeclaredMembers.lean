import Invokrum.Schema.Document
import Invokrum.Schema.Preflight

/-!
# What the preflight protects

A document that passes the walk repeats no key, so reading it again into maps
and structures loses no member: every member of every object is there under its
own name, and every selection list of a profile is in the decoded profile.
-/

namespace Invokrum.Schema

open Ordered

/-! ## Values within values -/

theorem Within.trans {a b c : Json} (hab : Within a b) (hbc : Within b c) : Within a c := by
  induction hbc with
  | refl => exact hab
  | item hitem _ ih => exact .item hitem ih
  | member hmember _ ih => exact .member hmember ih

theorem DistinctKeys.of_within {j inner : Json} (h : DistinctKeys j) (hinner : Within inner j) :
    DistinctKeys inner :=
  fun members hmembers => h members (hmembers.trans hinner)

theorem within_of_record {required optional : List String} {j value : Json}
    {values : List (Option Json)} (h : j.record required optional = some values)
    (hvalue : some value ∈ values) : Within value j := by
  have hmem := Json.mem_of_record_value h hvalue
  rcases hmem with ⟨items, rfl, hitem⟩ | ⟨members, member, rfl, hmember, rfl⟩
  · exact .item hitem (.refl _)
  · exact .member hmember (.refl _)

/-! ## Profiles -/

/-- The selection members a profile value declares. -/
def declaredSelections (value : Json) : Option (List (String × Json)) := do
  match ← value.record ["id", "selections"] [] with
  | [_, some selections] => selections.asObject
  | _ => none

/-- The profile values a pack document declares. -/
def declaredProfiles (j : Json) : Option (List Json) := do
  match ← j.record ["schema", "id", "classes"] ["overlays", "profiles", "variables"] with
  | [_, _, _, _, profiles, _] => Json.asDefaultArray profiles
  | _ => none

/-- A profile holds the list of every selection member, and nothing else. -/
def KeepsSelections (value : Json) (profile : ProfileDocument) : Prop :=
  ∃ members entries, declaredSelections value = some members ∧
    List.Forall₂ (fun member entry => readSelection member = some entry) members entries ∧
    profile.selections.entries.Perm entries

theorem readSelection_key {member : String × Json} {entry : String × List String}
    (h : readSelection member = some entry) : member.1 = entry.1 := by
  unfold readSelection at h
  simp only [Option.bind_eq_bind, Option.bind_eq_some_iff, Option.some.injEq] at h
  obtain ⟨_, _, rfl⟩ := h
  rfl

theorem readSelections_keys {members : List (String × Json)} {entries : List (String × List String)}
    (h : List.Forall₂ (fun member entry => readSelection member = some entry) members entries) :
    members.map Prod.fst = entries.map Prod.fst := by
  induction h with
  | nil => rfl
  | cons hmember _ ih => rw [List.map_cons, List.map_cons, readSelection_key hmember, ih]

theorem keepsSelections_of_ofJson {value : Json} {profile : ProfileDocument}
    (hdistinct : DistinctKeys value) (h : ProfileDocument.ofJson value = some profile) :
    KeepsSelections value profile := by
  obtain ⟨id, selections, hrecord, _, hselections⟩ := ProfileDocument.ofJson_eq_some.mp h
  unfold readSelections at hselections
  simp only [Option.bind_eq_bind, Option.bind_eq_some_iff, Option.some.injEq] at hselections
  obtain ⟨members, hobject, entries, hentries, hprofile⟩ := hselections
  have hmembers := Json.mapM_eq_some.mp hentries
  have hwithin : Within selections value := within_of_record hrecord (by simp)
  have hjson : selections = .object members := by
    cases selections with
    | object found => rw [Json.asObject, Option.some.injEq] at hobject; rw [hobject]
    | _ => cases hobject
  have hnodup : (entries.map Prod.fst).Nodup := by
    rw [← readSelections_keys hmembers]
    exact hdistinct members (hjson ▸ hwithin)
  refine ⟨members, entries, ?_, hmembers, hprofile ▸ SortedMap.ofEntries_perm hnodup⟩
  simp [declaredSelections, hrecord, hobject]

theorem keepsSelections_of_forall {values : List Json} {profiles : List ProfileDocument}
    (hdistinct : ∀ value ∈ values, DistinctKeys value)
    (h : List.Forall₂ (fun value profile => ProfileDocument.ofJson value = some profile) values
      profiles) :
    List.Forall₂ KeepsSelections values profiles := by
  induction h with
  | nil => exact .nil
  | cons hhead _ ih =>
      exact .cons (keepsSelections_of_ofJson (hdistinct _ List.mem_cons_self) hhead)
        (ih fun value hvalue => hdistinct value (List.mem_cons_of_mem _ hvalue))

theorem keeps_of_ofJson {j : Json} {document : PackDocument} (hdistinct : DistinctKeys j)
    (h : PackDocument.ofJson j = some document) :
    ∃ values, declaredProfiles j = some values ∧
      List.Forall₂ KeepsSelections values document.profiles := by
  obtain ⟨schema, id, classes, overlays, profiles, «variables», _, _, values, _, hrecord, _, _, _, _,
    _, _, hvalues, hprofiles, _, _⟩ := PackDocument.ofJson_eq_some.mp h
  refine ⟨values, by simp [declaredProfiles, hrecord, hvalues], ?_⟩
  refine keepsSelections_of_forall ?_ (Json.mapM_eq_some.mp hprofiles)
  intro value hvalue
  cases profiles with
  | none =>
      rw [Json.asDefaultArray, Option.some.injEq] at hvalues
      rw [← hvalues] at hvalue
      cases hvalue
  | some profiles =>
      have hwithin : Within profiles j := within_of_record hrecord (by simp)
      cases profiles with
      | array items =>
          rw [Json.asDefaultArray, Json.asArray, Option.some.injEq] at hvalues
          rw [← hvalues] at hvalue
          exact hdistinct.of_within (.trans (.item hvalue (.refl _)) hwithin)
      | _ => cases hvalues

/-! ## The preflight is exact -/

theorem strictSeed_eq_ok (j : Json) (maximumDepth : UInt64) :
    StrictSeed.deserialize false (.root maximumDepth) [] (.ofJson j) = .ok () ↔
      DistinctKeys j ∧ j.nesting ≤ maximumDepth.toNat := by
  rw [StrictSeed.root, deserialize_ofJson j 0 [] (Nat.zero_le _), Nat.zero_add]

/-- The walk accepts a document exactly when no object repeats a key and
containers nest within the maximum. Inserting the members of any object of an
accepted document into a map then keeps each of them, a structure read from it
holds each of them at its name, and the profiles of a decoded pack hold every
declared selection list. -/
theorem strictSeed_exact (j : Json) (maximumDepth : UInt64) :
    (StrictSeed.deserialize false (.root maximumDepth) [] (.ofJson j) = .ok () ↔
      DistinctKeys j ∧ j.nesting ≤ maximumDepth.toNat) ∧
    (StrictSeed.deserialize false (.root maximumDepth) [] (.ofJson j) = .ok () →
      (∀ members, Within (.object members) j →
        (SortedMap.ofEntries members).entries.Perm members ∧
        ∀ required optional values,
          (Json.object members).record required optional = some values →
          ∀ member ∈ members, (member.1, some member.2) ∈ (required ++ optional).zip values) ∧
      ∀ document, PackDocument.ofJson j = some document →
        ∃ values, declaredProfiles j = some values ∧
          List.Forall₂ KeepsSelections values document.profiles) := by
  refine ⟨strictSeed_eq_ok j maximumDepth, ?_⟩
  intro haccepted
  have hdistinct := ((strictSeed_eq_ok j maximumDepth).mp haccepted).1
  constructor
  · intro members hmembers
    constructor
    · exact SortedMap.ofEntries_perm (hdistinct members hmembers)
    · intro required optional values hrecord member hmember
      exact Json.mem_of_record hrecord hmember
  · intro document hdocument
    exact keeps_of_ofJson hdistinct hdocument

end Invokrum.Schema
