import Invokrum.Rpc.Exchange

/-!
# The published response schema

Every path of the adapter ends in a success or an error response. Both have the
published shape; the schema also bounds the identifier that is echoed, which
error responses echo before its length has been checked.
-/

namespace Invokrum.Rpc

open Host Outcome
open Invokrum.Integrity (DriftKind)
open JsonSchema hiding all
open Text (Bytes)

/-! ## The schema -/

/-- Every error code an error response may name. -/
def errorCodes : List String :=
  ["request", "input", "validation", "composition", "integrity", "internal"]

def operations : List String := ["capabilities", "resolve", "verify"]

def responseSchema : JsonSchema :=
  .all [
    .closed ["format", "ok", "request_id"] [
      ("format", .enum [hostContractVersion]),
      ("ok", .type [.boolean]),
      ("request_id", .both (.type [.string, .null]) (.maxLength 128)),
      ("operation", .enum operations),
      ("result", .type [.object]),
      ("error", .closed ["code", "message"] [
        ("code", .enum errorCodes),
        ("message", .type [.string])])],
    .implies (.property "ok" (.truth true))
      (.all [.required "operation", .required "result", .not (.required "error")]),
    .implies (.property "ok" (.truth false))
      (.both (.required "error") (.not (.any [.required "operation", .required "result"])))]

/-- The output is one response of the published schema. -/
def Conforms (stdout : Bytes) : Prop :=
  ∃ response, Holds stdout response ∧ responseSchema.Valid response

/-! ## The two responses -/

/-- An error response is published exactly when the identifier it echoes is short. -/
theorem valid_errorResponse (requestId : Option String) (error : RpcError) :
    responseSchema.Valid (errorResponse requestId error) ↔
      ∀ s, requestId = some s → s.toList.length ≤ 128 := by
  have hcode : error.kind.code ∈ errorCodes := by
    cases error.kind <;> decide
  unfold responseSchema errorResponse
  cases requestId with
  | none => simp [valid_closed, hcode, Json.type, Valid]
  | some s => simp [valid_closed, hcode, valid_type, Json.type]

theorem valid_successResponse {requestId operation : String} {result : List (String × Json)}
    (hoperation : operation ∈ operations) (hid : requestId.toList.length ≤ 128) :
    responseSchema.Valid (successResponse requestId operation (.object result)) := by
  unfold responseSchema successResponse
  simp [valid_closed, hoperation, hid, valid_type, Json.type]

/-! ## Results -/

/-- A result is an object that can be printed below the members of a response. -/
structure IsResult (result : Json) : Prop where
  object : ∃ members, result = .object members
  printable : result.printable 126 = true

theorem bundleJson_printable (bundle : ResolvedBundle) {depth : Nat}
    (h : depth = 126 ∨ depth = 125) : (bundleJson bundle).printable depth = true := by
  rcases h with rfl | rfl <;> simp [bundleJson, entryJson, sizeJson, Json.printable]

theorem driftJson_printable (drift : DriftKind) : (driftJson drift).printable 124 = true := by
  cases drift <;> simp [driftJson, sizeJson, Json.printable]

theorem executeRequest_isResult {adapter : Adapter} {request : Request} {result : Json}
    (h : executeRequest adapter request = .ok result) : IsResult result := by
  cases request with
  | capabilities protocol requestId =>
      cases h
      exact ⟨⟨_, rfl⟩, by decide⟩
  | resolve protocol requestId pack profile =>
      simp only [executeRequest, executeResolve, bind_eq_ok, pure, Except.pure,
        Except.ok.injEq] at h
      obtain ⟨_, _, _, _, bundle, _, rfl⟩ := h
      exact ⟨⟨_, rfl⟩, bundleJson_printable bundle (.inl rfl)⟩
  | verify protocol requestId pack profile expectedLockBase64 =>
      simp only [executeRequest, executeVerify, bind_eq_ok, pure, Except.pure,
        Except.ok.injEq] at h
      obtain ⟨_, _, _, _, _, _, _, _, _, _, verified, _, rfl⟩ := h
      refine ⟨⟨_, rfl⟩, ?_⟩
      have hbundle := bundleJson_printable verified.current (.inr rfl)
      simp [verifiedJson, Json.printable, hbundle, driftJson_printable]

theorem admitted_eq_ok {request : Request} {u : Unit} : admitted request = .ok u ↔
    request.protocol = hostContractVersion ∧ request.requestId ≠ "" ∧
      Text.byteLength request.requestId ≤ 128 := by
  simp only [admitted, bind_eq_ok, rejectIf_eq_ok, exists_const, not_not, not_or, not_lt, ne_eq]
  rfl

/-- An admitted identifier has no more characters than bytes. -/
theorem length_of_admit {request : Request} {u : Unit} (h : admitted request = .ok u) :
    request.requestId.toList.length ≤ 128 :=
  (Text.length_le_utf8 _).trans (admitted_eq_ok.mp h).2.2

theorem operation_mem (request : Request) : request.operation ∈ operations := by
  cases request <;> simp [Request.operation, operations]

/-! ## Every response -/

/-- Every response has the published shape, except that one naming a request with an
overlong identifier echoes it. -/
theorem execute_conforms_iff (adapter : Adapter) (stdin : Stdin) :
    Conforms (execute adapter stdin).stdout ↔
      ∀ request, receive adapter stdin = .ok request →
        request.requestId.toList.length ≤ 128 := by
  have herror : ∀ requestId error, Conforms (errorExecution requestId error).stdout ↔
      ∀ s, requestId = some s → s.toList.length ≤ 128 := by
    intro requestId error
    rw [← valid_errorResponse requestId error]
    constructor
    · rintro ⟨response, hholds, hvalid⟩
      rwa [← hholds.unique (holds_error requestId error)]
    · exact fun hvalid => ⟨_, holds_error requestId error, hvalid⟩
  unfold execute
  cases hreceive : receive adapter stdin with
  | error error => simp [herror]
  | ok request =>
      simp only [Except.ok.injEq, forall_eq']
      cases hrun : (do admitted request; executeRequest adapter request) with
      | error error => simp [herror]
      | ok result =>
          obtain ⟨_, hadmitted, hresult⟩ := bind_eq_ok.mp hrun
          obtain ⟨⟨members, rfl⟩, hprintable⟩ := executeRequest_isResult hresult
          have hshort := length_of_admit hadmitted
          exact iff_of_true ⟨_, holds_success _ _ hprintable,
            valid_successResponse (operation_mem request) hshort⟩ hshort

/-- A request for the capabilities under an identifier of 129 letters. -/
def overlongRequest : Request :=
  .capabilities hostContractVersion (String.ofList (List.replicate 129 'a'))

theorem execute_overlong : ¬ Conforms (execute (compactAdapter fun _ => .error .rootUnavailable)
    (compactStdin overlongRequest)).stdout := by
  intro h
  have hreceive := receive_of_sends (sends_compactStdin (fun _ => .error .rootUnavailable)
    overlongRequest)
  have hlength : (compactStdin overlongRequest).bytes.length ≤ maxRequestBytes := by
    decide +kernel
  rw [if_pos hlength] at hreceive
  have hshort := (execute_conforms_iff _ _).mp h _ hreceive
  revert hshort
  decide +kernel

end Invokrum.Rpc
