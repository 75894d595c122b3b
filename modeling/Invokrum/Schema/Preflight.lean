import Invokrum.Base.Json
import Invokrum.Base.Machine
import Invokrum.Schema.Strict

/-!
# The structural preflight

Before anything is decoded a visitor walks the whole document, counting the
containers it is in and collecting the keys of each mapping. Over a JSON
document the walk is exact: it passes when no object repeats a key and the
containers nest within the maximum. A walk that passes under one maximum fails
under a smaller one at the first container that is too deep, and only there.
-/

namespace Invokrum.Schema

open Outcome Machine

/-! ## What a deserializer presents -/

/-- A document as a visitor of any value meets it, in reading order. What the
deserializer cannot read or the visitor has no method for carries a message. -/
inductive Presented where
  | scalar
  | present (value : Presented)
  | sequence (items : List Presented)
  | mapping (members : List (Except String String × Presented))
  | unreadable (message : String)

/-- A step from a container to a value in it. -/
inductive Step where
  | index (index : Nat)
  | key (name : String)
deriving DecidableEq

abbrev Position := List Step

/-- A visitor's own error stands at the container it is raised in. -/
inductive WalkError where
  | custom (position : Position) (marker : String)
  | unreadable (message : String)
deriving DecidableEq

def duplicateMappingKeyMarker : String := "__invokrum_duplicate_mapping_key__"

def mergeMappingKeyMarker : String := "__invokrum_merge_mapping_key__"

def nestingDepthMarker : String := "__invokrum_nesting_depth_exceeded__"

/-! ## The walk -/

structure StrictSeed where
  containerDepth : Nat
  maximumDepth : UInt64

def StrictSeed.root (maximumDepth : UInt64) : StrictSeed := ⟨0, maximumDepth⟩

def StrictSeed.enterContainer (seed : StrictSeed) (position : Position) :
    Except WalkError StrictSeed := do
  let containerDepth ← okOr (checkedAdd seed.containerDepth 1) (.custom position nestingDepthMarker)
  rejectIf (seed.maximumDepth.toNat < containerDepth) (.custom position nestingDepthMarker)
  pure ⟨containerDepth, seed.maximumDepth⟩

mutual

/-- `StrictSeed::deserialize`, the visitor's methods inlined. -/
def StrictSeed.deserialize (rejectMergeKey : Bool) (seed : StrictSeed) (position : Position) :
    Presented → Except WalkError Unit
  | .scalar => .ok ()
  | .present value => StrictSeed.deserialize rejectMergeKey seed position value
  | .sequence items => do
      let child ← seed.enterContainer position
      visitSeq rejectMergeKey child position 0 items
  | .mapping members => do
      let child ← seed.enterContainer position
      visitMap rejectMergeKey child position [] members
  | .unreadable message => .error (.unreadable message)

/-- The loop of `visit_seq`, with the index of the next item. -/
def visitSeq (rejectMergeKey : Bool) (child : StrictSeed) (position : Position) (index : Nat) :
    List Presented → Except WalkError Unit
  | [] => .ok ()
  | item :: rest => do
      StrictSeed.deserialize rejectMergeKey child (position ++ [.index index]) item
      visitSeq rejectMergeKey child position (index + 1) rest

/-- The loop of `visit_map`, with the keys seen so far. -/
def visitMap (rejectMergeKey : Bool) (child : StrictSeed) (position : Position)
    (keys : List String) : List (Except String String × Presented) → Except WalkError Unit
  | [] => .ok ()
  | (.error message, _) :: _ => .error (.unreadable message)
  | (.ok key, value) :: rest => do
      rejectIf (rejectMergeKey = true ∧ key = "<<") (.custom position mergeMappingKeyMarker)
      rejectIf (key ∈ keys) (.custom position duplicateMappingKeyMarker)
      StrictSeed.deserialize rejectMergeKey child (position ++ [.key key]) value
      visitMap rejectMergeKey child position (key :: keys) rest

end

theorem StrictSeed.enterContainer_of_lt {seed : StrictSeed} (position : Position)
    (h : seed.containerDepth < seed.maximumDepth.toNat) :
    seed.enterContainer position = .ok ⟨seed.containerDepth + 1, seed.maximumDepth⟩ := by
  have hword := seed.maximumDepth.toNat_lt
  have hadd : checkedAdd seed.containerDepth 1 = some (seed.containerDepth + 1) := by
    rw [checkedAdd_eq_some]
    exact ⟨by unfold wordSize; omega, rfl⟩
  rw [StrictSeed.enterContainer, hadd, okOr, ok_bind, rejectIf_of_not _ (by omega), ok_bind]
  rfl

theorem StrictSeed.enterContainer_of_le {seed : StrictSeed} (position : Position)
    (h : seed.maximumDepth.toNat ≤ seed.containerDepth) :
    seed.enterContainer position = .error (.custom position nestingDepthMarker) := by
  unfold StrictSeed.enterContainer
  cases hadd : checkedAdd seed.containerDepth 1 with
  | none => rfl
  | some depth =>
      have hdepth := (checkedAdd_eq_some.mp hadd).2
      rw [okOr, ok_bind, rejectIf_of _ (by omega), error_bind]

/-! ## JSON documents -/

mutual

/-- How a JSON deserializer presents a document. -/
def Presented.ofJson : Json → Presented
  | .array items => .sequence (Presented.ofItems items)
  | .object members => .mapping (Presented.ofMembers members)
  | _ => .scalar

def Presented.ofItems : List Json → List Presented
  | [] => []
  | item :: rest => Presented.ofJson item :: Presented.ofItems rest

def Presented.ofMembers : List (String × Json) → List (Except String String × Presented)
  | [] => []
  | (name, value) :: rest => (.ok name, Presented.ofJson value) :: Presented.ofMembers rest

end

/-- A value somewhere in a document, the document itself included. -/
inductive Within : Json → Json → Prop where
  | refl (j : Json) : Within j j
  | item {j item : Json} {items : List Json} : item ∈ items → Within j item →
      Within j (.array items)
  | member {j : Json} {member : String × Json} {members : List (String × Json)} :
      member ∈ members → Within j member.2 → Within j (.object members)

/-- No object at any depth repeats a key. -/
def DistinctKeys (j : Json) : Prop :=
  ∀ members, Within (.object members) j → (members.map Prod.fst).Nodup

theorem distinctKeys_array {items : List Json} :
    DistinctKeys (.array items) ↔ ∀ item ∈ items, DistinctKeys item := by
  constructor
  · intro h item hitem members hwithin
    exact h members (.item hitem hwithin)
  · intro h members hwithin
    cases hwithin with
    | item hitem hwithin => exact h _ hitem members hwithin

theorem distinctKeys_object {members : List (String × Json)} :
    DistinctKeys (.object members) ↔
      (members.map Prod.fst).Nodup ∧ ∀ member ∈ members, DistinctKeys member.2 := by
  constructor
  · intro h
    exact ⟨h members (.refl _), fun member hmember inner hwithin =>
      h inner (.member hmember hwithin)⟩
  · intro h inner hwithin
    cases hwithin with
    | refl => exact h.1
    | member hmember hwithin => exact h.2 _ hmember inner hwithin

/-- A value without containers has no keys to repeat. -/
theorem distinctKeys_of_scalar {j : Json} (harray : ∀ items, j ≠ .array items)
    (hobject : ∀ members, j ≠ .object members) : DistinctKeys j := by
  intro members hwithin
  cases hwithin with
  | refl => exact absurd rfl (hobject members)
  | item _ _ => exact absurd rfl (harray _)
  | member _ _ => exact absurd rfl (hobject _)

section Exact

variable {maximumDepth : UInt64}

mutual

theorem deserialize_ofJson (j : Json) (depth : Nat) (position : Position)
    (hdepth : depth ≤ maximumDepth.toNat) :
    StrictSeed.deserialize false ⟨depth, maximumDepth⟩ position (.ofJson j) = .ok () ↔
      DistinctKeys j ∧ depth + j.nesting ≤ maximumDepth.toNat := by
  have hscalar : (∀ items, j ≠ .array items) → (∀ members, j ≠ .object members) →
      j.nesting = 0 → Presented.ofJson j = .scalar →
      (StrictSeed.deserialize false ⟨depth, maximumDepth⟩ position (.ofJson j) = .ok () ↔
        DistinctKeys j ∧ depth + j.nesting ≤ maximumDepth.toNat) := by
    intro harray hobject hnesting hpresented
    rw [hpresented, StrictSeed.deserialize, hnesting]
    exact iff_of_true rfl ⟨distinctKeys_of_scalar harray hobject, hdepth⟩
  match j with
  | .null => exact hscalar (by simp) (by simp) rfl rfl
  | .bool _ => exact hscalar (by simp) (by simp) rfl rfl
  | .unsigned _ => exact hscalar (by simp) (by simp) rfl rfl
  | .negative _ => exact hscalar (by simp) (by simp) rfl rfl
  | .real _ => exact hscalar (by simp) (by simp) rfl rfl
  | .string _ => exact hscalar (by simp) (by simp) rfl rfl
  | .array items =>
      rw [Presented.ofJson, StrictSeed.deserialize, Json.nesting, distinctKeys_array]
      by_cases hlt : depth < maximumDepth.toNat
      · rw [StrictSeed.enterContainer_of_lt position hlt, ok_bind,
          visitSeq_ofItems items (depth + 1) position 0 hlt, Nat.add_assoc]
      · rw [StrictSeed.enterContainer_of_le position (Nat.not_lt.mp hlt), error_bind]
        exact iff_of_false (by simp) (by omega)
  | .object members =>
      rw [Presented.ofJson, StrictSeed.deserialize, Json.nesting, distinctKeys_object]
      by_cases hlt : depth < maximumDepth.toNat
      · rw [StrictSeed.enterContainer_of_lt position hlt, ok_bind,
          visitMap_ofMembers members (depth + 1) position [] hlt, Nat.add_assoc]
        simp [and_assoc]
      · rw [StrictSeed.enterContainer_of_le position (Nat.not_lt.mp hlt), error_bind]
        exact iff_of_false (by simp) (by omega)

theorem visitSeq_ofItems (items : List Json) (depth : Nat) (position : Position) (index : Nat)
    (hdepth : depth ≤ maximumDepth.toNat) :
    visitSeq false ⟨depth, maximumDepth⟩ position index (Presented.ofItems items) = .ok () ↔
      (∀ item ∈ items, DistinctKeys item) ∧
        depth + Json.nestingItems items ≤ maximumDepth.toNat := by
  match items with
  | [] => simp [Presented.ofItems, visitSeq, Json.nestingItems, hdepth]
  | item :: rest =>
      have hitem := deserialize_ofJson item depth (position ++ [.index index]) hdepth
      have hrest := visitSeq_ofItems rest depth position (index + 1) hdepth
      rw [Presented.ofItems, visitSeq, bind_eq_ok, Json.nestingItems, List.forall_mem_cons]
      constructor
      · intro h
        obtain ⟨_, hfirst, hlater⟩ := h
        have hf := hitem.mp hfirst
        have hl := hrest.mp hlater
        exact ⟨⟨hf.1, hl.1⟩, by omega⟩
      · intro h
        exact ⟨(), hitem.mpr ⟨h.1.1, by omega⟩, hrest.mpr ⟨h.1.2, by omega⟩⟩

theorem visitMap_ofMembers (members : List (String × Json)) (depth : Nat) (position : Position)
    (keys : List String) (hdepth : depth ≤ maximumDepth.toNat) :
    visitMap false ⟨depth, maximumDepth⟩ position keys (Presented.ofMembers members) = .ok () ↔
      ((∀ member ∈ members, member.1 ∉ keys) ∧ (members.map Prod.fst).Nodup ∧
        ∀ member ∈ members, DistinctKeys member.2) ∧
      depth + Json.nestingMembers members ≤ maximumDepth.toNat := by
  match members with
  | [] => simp [Presented.ofMembers, visitMap, Json.nestingMembers, hdepth]
  | (name, value) :: rest =>
      have hvalue := deserialize_ofJson value depth (position ++ [.key name]) hdepth
      have hrest := visitMap_ofMembers rest depth position (name :: keys) hdepth
      rw [Presented.ofMembers, visitMap]
      simp only [Bool.false_eq_true, false_and, rejectIf_of_not _ not_false, ok_bind, bind_eq_ok,
        rejectIf_eq_ok, exists_const, hvalue, hrest, Json.nestingMembers, forall_eq_or_imp,
        List.map_cons, List.nodup_cons, List.mem_cons, not_or]
      constructor
      · intro h
        obtain ⟨hname, ⟨hv, hvd⟩, ⟨hkeys, hnodup, hdistinct⟩, hd⟩ := h
        have hnot : name ∉ rest.map Prod.fst := by
          intro hmem
          obtain ⟨member, hmember, hfst⟩ := List.mem_map.mp hmem
          exact (hkeys member hmember).1 hfst
        exact ⟨⟨⟨hname, fun member hmember => (hkeys member hmember).2⟩, ⟨hnot, hnodup⟩, hv,
          hdistinct⟩, by omega⟩
      · intro h
        obtain ⟨⟨⟨hname, hkeys⟩, ⟨hnot, hnodup⟩, hv, hdistinct⟩, hd⟩ := h
        have hne : ∀ member ∈ rest, member.1 ≠ name := fun member hmember heq =>
          hnot (heq ▸ List.mem_map_of_mem hmember)
        exact ⟨hname, ⟨hv, by omega⟩,
          ⟨fun member hmember => ⟨hne member hmember, hkeys member hmember⟩, hnodup, hdistinct⟩,
          by omega⟩

end

end Exact

/-! ## Two maxima -/

mutual

/-- How deep sequences and mappings nest. -/
def Presented.nesting : Presented → Nat
  | .scalar => 0
  | .present value => Presented.nesting value
  | .sequence items => 1 + Presented.nestingItems items
  | .mapping members => 1 + Presented.nestingMembers members
  | .unreadable _ => 0

def Presented.nestingItems : List Presented → Nat
  | [] => 0
  | item :: rest => max (Presented.nesting item) (Presented.nestingItems rest)

def Presented.nestingMembers : List (Except String String × Presented) → Nat
  | [] => 0
  | (_, value) :: rest => max (Presented.nesting value) (Presented.nestingMembers rest)

end

mutual

/-- The first container in reading order that is in `budget` others. -/
def firstTooDeep (budget : Nat) (position : Position) : Presented → Option Position
  | .scalar => none
  | .present value => firstTooDeep budget position value
  | .sequence items =>
      if 0 < budget then firstTooDeepItem (budget - 1) position 0 items else some position
  | .mapping members =>
      if 0 < budget then firstTooDeepMember (budget - 1) position members else some position
  | .unreadable _ => none

def firstTooDeepItem (budget : Nat) (position : Position) (index : Nat) :
    List Presented → Option Position
  | [] => none
  | item :: rest =>
      (firstTooDeep budget (position ++ [.index index]) item).or
        (firstTooDeepItem budget position (index + 1) rest)

def firstTooDeepMember (budget : Nat) (position : Position) :
    List (Except String String × Presented) → Option Position
  | [] => none
  | (.error _, _) :: _ => none
  | (.ok key, value) :: rest =>
      (firstTooDeep budget (position ++ [.key key]) value).or
        (firstTooDeepMember budget position rest)

end

/-- The outcome of a walk that nothing but the depth can stop. -/
def depthOutcome : Option Position → Except WalkError Unit
  | none => .ok ()
  | some position => .error (.custom position nestingDepthMarker)

theorem depthOutcome_or (first second : Option Position) :
    depthOutcome (first.or second) = (do depthOutcome first; depthOutcome second) := by
  cases first <;> rfl

section Tighter

variable {rejectMergeKey : Bool} {smaller larger : UInt64}

mutual

/-- A walk that passes under a maximum passes under a larger one. -/
theorem deserialize_larger (h : smaller.toNat ≤ larger.toNat) (value : Presented) (depth : Nat)
    (position : Position)
    (hpass : StrictSeed.deserialize rejectMergeKey ⟨depth, smaller⟩ position value = .ok ()) :
    StrictSeed.deserialize rejectMergeKey ⟨depth, larger⟩ position value = .ok () := by
  match value with
  | .scalar => rfl
  | .present value =>
      rw [StrictSeed.deserialize] at hpass ⊢
      exact deserialize_larger h value depth position hpass
  | .sequence items =>
      rw [StrictSeed.deserialize] at hpass ⊢
      by_cases hlt : depth < smaller.toNat
      · rw [StrictSeed.enterContainer_of_lt position hlt, ok_bind] at hpass
        rw [StrictSeed.enterContainer_of_lt position (by exact lt_of_lt_of_le hlt h), ok_bind]
        exact visitSeq_larger h items (depth + 1) position 0 hpass
      · rw [StrictSeed.enterContainer_of_le position (Nat.not_lt.mp hlt)] at hpass
        cases hpass
  | .mapping members =>
      rw [StrictSeed.deserialize] at hpass ⊢
      by_cases hlt : depth < smaller.toNat
      · rw [StrictSeed.enterContainer_of_lt position hlt, ok_bind] at hpass
        rw [StrictSeed.enterContainer_of_lt position (by exact lt_of_lt_of_le hlt h), ok_bind]
        exact visitMap_larger h members (depth + 1) position [] hpass
      · rw [StrictSeed.enterContainer_of_le position (Nat.not_lt.mp hlt)] at hpass
        cases hpass
  | .unreadable message => cases hpass

theorem visitSeq_larger (h : smaller.toNat ≤ larger.toNat) (items : List Presented) (depth : Nat)
    (position : Position) (index : Nat)
    (hpass : visitSeq rejectMergeKey ⟨depth, smaller⟩ position index items = .ok ()) :
    visitSeq rejectMergeKey ⟨depth, larger⟩ position index items = .ok () := by
  match items with
  | [] => rfl
  | item :: rest =>
      rw [visitSeq, bind_eq_ok] at hpass
      obtain ⟨_, hitem, hrest⟩ := hpass
      rw [visitSeq, deserialize_larger h item depth _ hitem]
      exact visitSeq_larger h rest depth position (index + 1) hrest

theorem visitMap_larger (h : smaller.toNat ≤ larger.toNat)
    (members : List (Except String String × Presented)) (depth : Nat) (position : Position)
    (keys : List String)
    (hpass : visitMap rejectMergeKey ⟨depth, smaller⟩ position keys members = .ok ()) :
    visitMap rejectMergeKey ⟨depth, larger⟩ position keys members = .ok () := by
  match members with
  | [] => rfl
  | (.error message, _) :: _ => cases hpass
  | (.ok key, value) :: rest =>
      simp only [visitMap, bind_eq_ok, rejectIf_eq_ok, exists_const] at hpass
      obtain ⟨hmerge, hkeys, _, hvalue, hrest⟩ := hpass
      rw [visitMap, rejectIf_of_not _ hmerge, ok_bind, rejectIf_of_not _ hkeys, ok_bind,
        deserialize_larger h value depth _ hvalue]
      exact visitMap_larger h rest depth position (key :: keys) hrest

end

mutual

/-- Under a smaller maximum a walk that passes can only meet the depth. -/
theorem deserialize_smaller (h : smaller.toNat ≤ larger.toNat) (value : Presented) (depth : Nat)
    (position : Position) (hdepth : depth ≤ smaller.toNat)
    (hpass : StrictSeed.deserialize rejectMergeKey ⟨depth, larger⟩ position value = .ok ()) :
    StrictSeed.deserialize rejectMergeKey ⟨depth, smaller⟩ position value =
      depthOutcome (firstTooDeep (smaller.toNat - depth) position value) := by
  match value with
  | .scalar => rfl
  | .present value =>
      rw [StrictSeed.deserialize] at hpass ⊢
      exact deserialize_smaller h value depth position hdepth hpass
  | .sequence items =>
      rw [StrictSeed.deserialize] at hpass ⊢
      rw [firstTooDeep]
      by_cases hlt : depth < smaller.toNat
      · rw [StrictSeed.enterContainer_of_lt position (by exact lt_of_lt_of_le hlt h), ok_bind]
          at hpass
        rw [StrictSeed.enterContainer_of_lt position hlt, ok_bind, if_pos (by omega),
          visitSeq_smaller h items (depth + 1) position 0 hlt hpass, Nat.sub_sub]
      · rw [StrictSeed.enterContainer_of_le position (Nat.not_lt.mp hlt), if_neg (by omega)]
        rfl
  | .mapping members =>
      rw [StrictSeed.deserialize] at hpass ⊢
      rw [firstTooDeep]
      by_cases hlt : depth < smaller.toNat
      · rw [StrictSeed.enterContainer_of_lt position (by exact lt_of_lt_of_le hlt h), ok_bind]
          at hpass
        rw [StrictSeed.enterContainer_of_lt position hlt, ok_bind, if_pos (by omega),
          visitMap_smaller h members (depth + 1) position [] hlt hpass, Nat.sub_sub]
      · rw [StrictSeed.enterContainer_of_le position (Nat.not_lt.mp hlt), if_neg (by omega)]
        rfl
  | .unreadable message => cases hpass

theorem visitSeq_smaller (h : smaller.toNat ≤ larger.toNat) (items : List Presented) (depth : Nat)
    (position : Position) (index : Nat) (hdepth : depth ≤ smaller.toNat)
    (hpass : visitSeq rejectMergeKey ⟨depth, larger⟩ position index items = .ok ()) :
    visitSeq rejectMergeKey ⟨depth, smaller⟩ position index items =
      depthOutcome (firstTooDeepItem (smaller.toNat - depth) position index items) := by
  match items with
  | [] => rfl
  | item :: rest =>
      rw [visitSeq, bind_eq_ok] at hpass
      obtain ⟨_, hitem, hrest⟩ := hpass
      rw [visitSeq, firstTooDeepItem, depthOutcome_or,
        deserialize_smaller h item depth _ hdepth hitem,
        visitSeq_smaller h rest depth position (index + 1) hdepth hrest]

theorem visitMap_smaller (h : smaller.toNat ≤ larger.toNat)
    (members : List (Except String String × Presented)) (depth : Nat) (position : Position)
    (keys : List String) (hdepth : depth ≤ smaller.toNat)
    (hpass : visitMap rejectMergeKey ⟨depth, larger⟩ position keys members = .ok ()) :
    visitMap rejectMergeKey ⟨depth, smaller⟩ position keys members =
      depthOutcome (firstTooDeepMember (smaller.toNat - depth) position members) := by
  match members with
  | [] => rfl
  | (.error message, _) :: _ => cases hpass
  | (.ok key, value) :: rest =>
      simp only [visitMap, bind_eq_ok, rejectIf_eq_ok, exists_const] at hpass
      obtain ⟨hmerge, hkeys, _, hvalue, hrest⟩ := hpass
      rw [visitMap, rejectIf_of_not _ hmerge, ok_bind, rejectIf_of_not _ hkeys, ok_bind,
        firstTooDeepMember, depthOutcome_or, deserialize_smaller h value depth _ hdepth hvalue,
        visitMap_smaller h rest depth position (key :: keys) hdepth hrest]

end

end Tighter

mutual

/-- A container too deep witnesses the nesting. -/
theorem lt_nesting_of_firstTooDeep (value : Presented) {budget : Nat} {position found : Position}
    (h : firstTooDeep budget position value = some found) : budget < value.nesting := by
  match value with
  | .scalar => cases h
  | .present value =>
      rw [firstTooDeep] at h
      exact lt_nesting_of_firstTooDeep value h
  | .sequence items =>
      rw [firstTooDeep] at h
      rw [Presented.nesting]
      by_cases hbudget : 0 < budget
      · rw [if_pos hbudget] at h
        have hitems := lt_nesting_of_firstTooDeepItem items h
        omega
      · omega
  | .mapping members =>
      rw [firstTooDeep] at h
      rw [Presented.nesting]
      by_cases hbudget : 0 < budget
      · rw [if_pos hbudget] at h
        have hmembers := lt_nesting_of_firstTooDeepMember members h
        omega
      · omega
  | .unreadable message => cases h

theorem lt_nesting_of_firstTooDeepItem (items : List Presented) {budget index : Nat}
    {position found : Position} (h : firstTooDeepItem budget position index items = some found) :
    budget < Presented.nestingItems items := by
  match items with
  | [] => cases h
  | item :: rest =>
      rw [firstTooDeepItem, Option.or_eq_some_iff] at h
      rw [Presented.nestingItems]
      rcases h with hitem | ⟨_, hrest⟩
      · have hlt := lt_nesting_of_firstTooDeep item hitem
        omega
      · have hlt := lt_nesting_of_firstTooDeepItem rest hrest
        omega

theorem lt_nesting_of_firstTooDeepMember (members : List (Except String String × Presented))
    {budget : Nat} {position found : Position}
    (h : firstTooDeepMember budget position members = some found) :
    budget < Presented.nestingMembers members := by
  match members with
  | [] => cases h
  | (.error _, _) :: _ => cases h
  | (.ok key, value) :: rest =>
      rw [firstTooDeepMember, Option.or_eq_some_iff] at h
      rw [Presented.nestingMembers]
      rcases h with hvalue | ⟨_, hrest⟩
      · have hlt := lt_nesting_of_firstTooDeep value hvalue
        omega
      · have hlt := lt_nesting_of_firstTooDeepMember rest hrest
        omega

end

end Invokrum.Schema
