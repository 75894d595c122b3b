import Invokrum.Base.JsonRecord
import Invokrum.Base.JsonSchema
import Invokrum.Host.Bundle

/-!
# Requests

A request is told apart by its tag. By name the tag stands anywhere in the
object, by position it is the first item of an array; everything else is read
as a structure whose fields depend on the tag.
-/

namespace Invokrum.Rpc

open Host (hostContractVersion)

inductive Request where
  | capabilities (protocol requestId : String)
  | resolve (protocol requestId pack profile : String)
  | verify (protocol requestId pack profile expectedLockBase64 : String)
deriving DecidableEq

namespace Request

def protocol : Request → String
  | .capabilities protocol _ | .resolve protocol _ _ _ | .verify protocol _ _ _ _ => protocol

def requestId : Request → String
  | .capabilities _ requestId | .resolve _ requestId _ _ | .verify _ requestId _ _ _ => requestId

/-- The tag of the variant. -/
def operation : Request → String
  | .capabilities .. => "capabilities"
  | .resolve .. => "resolve"
  | .verify .. => "verify"

/-! ## Reading -/

/-- A structure of texts. -/
def textFields (names : List String) (j : Json) : Option (List String) := do
  (← j.fields names).mapM Json.asString

/-- The fields of a variant, read from what stands beside its tag. -/
def ofVariant (operation : String) (j : Json) : Option Request :=
  if operation = "capabilities" then
    match textFields ["protocol", "request_id"] j with
    | some [protocol, requestId] => some (.capabilities protocol requestId)
    | _ => none
  else if operation = "resolve" then
    match textFields ["protocol", "request_id", "pack", "profile"] j with
    | some [protocol, requestId, pack, profile] => some (.resolve protocol requestId pack profile)
    | _ => none
  else if operation = "verify" then
    match textFields ["protocol", "request_id", "pack", "profile", "expected_lock_base64"] j with
    | some [protocol, requestId, pack, profile, expectedLockBase64] =>
        some (.verify protocol requestId pack profile expectedLockBase64)
    | _ => none
  else none

/-- The internally tagged enumeration: the tag is looked for first. -/
def ofJson : Json → Option Request
  | .array (.string operation :: rest) => ofVariant operation (.array rest)
  | .object members =>
      match members.filter (·.1 = "operation") with
      | [(_, .string operation)] =>
          ofVariant operation (.object (members.filter (·.1 ≠ "operation")))
      | _ => none
  | _ => none

/-! ## What is read -/

/-- The names of the fields beside the tag, in declared order. -/
def fieldNames : Request → List String
  | .capabilities .. => ["protocol", "request_id"]
  | .resolve .. => ["protocol", "request_id", "pack", "profile"]
  | .verify .. => ["protocol", "request_id", "pack", "profile", "expected_lock_base64"]

def fieldTexts : Request → List String
  | .capabilities protocol requestId => [protocol, requestId]
  | .resolve protocol requestId pack profile => [protocol, requestId, pack, profile]
  | .verify protocol requestId pack profile expectedLockBase64 =>
      [protocol, requestId, pack, profile, expectedLockBase64]

def fieldMembers (request : Request) : List (String × Json) :=
  request.fieldNames.zip (request.fieldTexts.map .string)

/-- The members of a request, the tag first. -/
def members (request : Request) : List (String × Json) :=
  ("operation", .string request.operation) :: request.fieldMembers

/-- A request by position: its values in the order of its members. -/
def positional (request : Request) : Json := .array (request.members.map Prod.snd)

variable {request : Request} {j : Json} {names texts : List String} {operation : String}

theorem mapM_asString {values : List Json} :
    values.mapM Json.asString = some texts ↔ values = texts.map .string := by
  rw [Json.mapM_eq_some]
  constructor
  · intro h
    induction h with
    | nil => rfl
    | cons hhead _ ih =>
        cases Json.asString_eq_some.mp hhead
        rw [ih, List.map_cons]
  · rintro rfl
    rw [List.forall₂_map_left_iff, List.forall₂_same]
    exact fun _ _ => rfl

theorem textFields_eq_some :
    textFields names j = some texts ↔ j.fields names = some (texts.map .string) := by
  unfold textFields
  cases j.fields names with
  | none => simp
  | some values => simp [mapM_asString]

theorem ofVariant_eq_some : ofVariant operation j = some request ↔
    operation = request.operation ∧ textFields request.fieldNames j = some request.fieldTexts := by
  constructor
  · intro h
    unfold ofVariant at h
    split at h
    · next hoperation =>
        split at h
        · next hfields =>
            cases h
            exact ⟨hoperation, hfields⟩
        · cases h
    · split at h
      · next hoperation =>
          split at h
          · next hfields =>
              cases h
              exact ⟨hoperation, hfields⟩
          · cases h
      · split at h
        · next hoperation =>
            split at h
            · next hfields =>
                cases h
                exact ⟨hoperation, hfields⟩
            · cases h
        · cases h
  · rintro ⟨rfl, hfields⟩
    cases request <;> simp only [fieldNames, fieldTexts] at hfields <;>
      simp [ofVariant, operation, hfields]

theorem fieldNames_nodup (request : Request) :
    ("operation" :: request.fieldNames).Nodup := by
  cases request <;> simp [fieldNames]

theorem length_fieldTexts (request : Request) :
    request.fieldTexts.length = request.fieldNames.length := by
  cases request <;> rfl

theorem ofVariant_iff : ofVariant operation j = some request ↔ operation = request.operation ∧
    (j = .array (request.fieldTexts.map .string) ∨
      ∃ all, j = .object all ∧ all.Perm request.fieldMembers) := by
  have hlength : (request.fieldTexts.map Json.string).length = request.fieldNames.length := by
    rw [List.length_map, length_fieldTexts]
  rw [ofVariant_eq_some, textFields_eq_some,
    Json.fields_eq_some (List.nodup_cons.mp request.fieldNames_nodup).2]
  simp only [hlength, true_and, fieldMembers]

/-- A tag that stands once in an object can be moved to its front. -/
theorem perm_of_filter {name : String} {value : Json} {all : List (String × Json)}
    (htag : all.filter (·.1 = name) = [(name, value)]) :
    all.Perm ((name, value) :: all.filter (·.1 ≠ name)) := by
  have hsplit := List.filter_append_perm (fun member => decide (member.1 = name)) all
  rw [htag, List.singleton_append] at hsplit
  simpa using hsplit.symm

/-- No field is named like the tag. -/
theorem fieldMembers_filter (request : Request) :
    request.fieldMembers.filter (·.1 ≠ "operation") = request.fieldMembers := by
  rw [List.filter_eq_self]
  rintro ⟨name, value⟩ hmember
  have hname : name ∈ request.fieldNames := (List.of_mem_zip hmember).1
  have hne : name ≠ "operation" := by
    rintro rfl
    exact (List.nodup_cons.mp request.fieldNames_nodup).1 hname
  simpa using hne

theorem members_filter (request : Request) :
    request.members.filter (·.1 = "operation") = [("operation", .string request.operation)] := by
  have hnone : request.fieldMembers.filter (·.1 = "operation") = [] := by
    rw [← fieldMembers_filter, List.filter_filter]
    simp
  rw [members, List.filter_cons_of_pos (by simp), hnone]

/-- A request is read from its values by position, or from its members in any order. -/
theorem ofJson_eq_some : ofJson j = some request ↔
    j = request.positional ∨ ∃ all, j = .object all ∧ all.Perm request.members := by
  cases j with
  | array items =>
      have hvalues : request.fieldMembers.map Prod.snd = request.fieldTexts.map Json.string := by
        apply List.map_snd_zip
        rw [List.length_map, length_fieldTexts]
      simp only [positional, members, List.map_cons, hvalues, Json.array.injEq, reduceCtorEq,
        false_and, exists_false, or_false]
      cases items with
      | nil => simp [ofJson]
      | cons item rest =>
          cases item with
          | string operation => simp [ofJson, ofVariant_iff]
          | _ => simp [ofJson]
  | object all =>
      simp only [positional, reduceCtorEq, Json.object.injEq, exists_eq_left', false_or]
      constructor
      · intro h
        rw [ofJson] at h
        split at h
        · next name operation htag =>
            obtain ⟨rfl, hfields⟩ := ofVariant_iff.mp h
            have hname : name = "operation" := by
              have hmember := List.mem_filter.mp (htag ▸ List.mem_singleton_self _)
              simpa using hmember.2
            subst hname
            simp only [reduceCtorEq, Json.object.injEq, exists_eq_left', false_or] at hfields
            exact (perm_of_filter htag).trans (hfields.cons _)
        · cases h
      · intro h
        have htag : all.filter (·.1 = "operation") =
            [("operation", .string request.operation)] := by
          have hperm := h.filter (fun member => decide (member.1 = "operation"))
          rw [members_filter] at hperm
          exact List.perm_singleton.mp hperm
        have hfields : (all.filter (·.1 ≠ "operation")).Perm request.fieldMembers := by
          have hperm := h.filter (fun member => decide (member.1 ≠ "operation"))
          rw [members, List.filter_cons_of_neg (by simp), fieldMembers_filter] at hperm
          exact hperm
        rw [ofJson, htag]
        exact ofVariant_iff.mpr ⟨rfl, .inr ⟨_, rfl, hfields⟩⟩
  | _ => simp [ofJson, positional]

end Request

end Invokrum.Rpc
