import Invokrum.Base.JsonCompact
import Invokrum.Rpc.Execute

/-!
# What goes in and what comes out

A stream sends a request when it is a JSON text the library reads as one, and a
line of output holds a response when it is its compact text. A request that is
sent arrives exactly when it is within the byte limit.
-/

namespace Invokrum.Rpc

open Host Outcome
open JsonGrammar (Document document_compact document_ne_nil)
open Text (Bytes)

/-! ## Responses -/

/-- A line of output holds a response: its compact text and a line feed. -/
def Holds (stdout : Bytes) (response : Json) : Prop :=
  response.printable Json.readerDepth = true ∧ stdout = encodeResponse response

theorem Holds.unique {stdout : Bytes} {response other : Json} (h : Holds stdout response)
    (hother : Holds stdout other) : response = other := by
  have htext : response.toVec ++ [10] = other.toVec ++ [10] := h.2.symm.trans hother.2
  exact Json.toVec_injective h.1 hother.1 (List.append_cancel_right htext)

theorem holds_error (requestId : Option String) (error : RpcError) :
    Holds (errorExecution requestId error).stdout (errorResponse requestId error) := by
  refine ⟨?_, rfl⟩
  have hid : ((requestId.map Json.string).getD .null).printable 126 = true := by
    cases requestId <;> rfl
  simp [errorResponse, Json.readerDepth, Json.printable, hid]

theorem holds_success (requestId operation : String) {result : Json}
    (h : result.printable 126 = true) :
    Holds (successExecution requestId operation result).stdout
      (successResponse requestId operation result) := by
  refine ⟨?_, rfl⟩
  simp [successResponse, Json.readerDepth, Json.printable, h]

/-! ## Requests -/

/-- A stream is a JSON text that the library reads as a request. -/
def Sends (adapter : Adapter) (stdin : Stdin) (request : Request) : Prop :=
  ∃ text j, stdin = ⟨Text.bytes text, false⟩ ∧ Document text.toList j ∧
    adapter.fromSlice (Text.bytes text) = .ok j ∧ Request.ofJson j = some request

/-- A request has no more than one container. -/
theorem nesting_of_request {j : Json} {request : Request} (h : Request.ofJson j = some request) :
    j.nesting ≤ maxJsonDepth := by
  have hfields : ∀ member ∈ request.members, member.2.nesting ≤ 31 := by
    intro member hmember
    rw [Request.members, List.mem_cons] at hmember
    rcases hmember with rfl | hmember
    · exact Nat.zero_le _
    · obtain ⟨s, _, hs⟩ := List.mem_map.mp (List.of_mem_zip hmember).2
      rw [← hs]
      exact Nat.zero_le _
  rcases Request.ofJson_eq_some.mp h with rfl | ⟨all, rfl, hperm⟩
  · apply Json.nesting_array_le.mpr
    intro item hitem
    obtain ⟨member, hmember, rfl⟩ := List.mem_map.mp hitem
    exact hfields member hmember
  · exact Json.nesting_object_le.mpr fun member hmember =>
      hfields member (hperm.mem_iff.mp hmember)

/-- A request that is sent is received, if it is within the byte limit. -/
theorem receive_of_sends {adapter : Adapter} {stdin : Stdin} {request : Request}
    (h : Sends adapter stdin request) : receive adapter stdin =
      if stdin.bytes.length ≤ maxRequestBytes then .ok request
      else .error ⟨.request, "request exceeds the configured byte limit"⟩ := by
  obtain ⟨text, j, rfl, hdocument, hread, hrequest⟩ := h
  have hne : Text.bytes text ≠ [] := by
    intro hempty
    have hchars := Text.length_le_utf8 text.toList
    rw [show Text.utf8 text.toList = [] from hempty] at hchars
    exact document_ne_nil hdocument (List.length_eq_zero_iff.mp (Nat.le_zero.mp hchars))
  by_cases hlength : (Text.bytes text).length ≤ maxRequestBytes
  · have htake : (Text.bytes text).take (maxRequestBytes + 1) = Text.bytes text :=
      List.take_of_length_le (by omega)
    have hbounded : readBounded ⟨Text.bytes text, false⟩ maxRequestBytes =
        .ok (Text.bytes text) := by
      simp [readBounded, htake, hne, rejectIf, Nat.not_lt.mpr hlength, pure, Except.pure]
    have hdepth : validateJsonDepth (Text.bytes text) maxJsonDepth = .ok () := by
      have hword : (Text.bytes text).length < Machine.wordSize :=
        Nat.lt_of_le_of_lt hlength (by decide)
      exact (validateJsonDepth_eq_ok hdocument hword maxJsonDepth).mpr
        (nesting_of_request hrequest)
    have hparse : parseRequest adapter (Text.bytes text) = .ok request := by
      simp [parseRequest, hread, hrequest, okOr]
    rw [if_pos hlength, receive, hbounded]
    simp [hdepth, hparse, Except.mapError]
  · have htake : ((Text.bytes text).take (maxRequestBytes + 1)).length = maxRequestBytes + 1 := by
      rw [List.length_take]
      omega
    have hbounded : readBounded ⟨Text.bytes text, false⟩ maxRequestBytes =
        .error ⟨.request, "request exceeds the configured byte limit"⟩ := by
      simp [readBounded, htake, rejectIf]
    rw [if_neg hlength, receive, hbounded]
    rfl

/-- Compact text is read back by the adapter over compact documents. -/
theorem sends_compact (openRoot) {j : Json} {request : Request}
    (hprintable : j.printable Json.readerDepth = true) (h : Request.ofJson j = some request) :
    Sends (compactAdapter openRoot) ⟨j.toVec, false⟩ request := by
  have htext : Text.bytes (String.ofList j.compact) = j.toVec := by
    rw [Text.bytes, String.toList_ofList, Json.toVec]
  refine ⟨String.ofList j.compact, j, by rw [htext], ?_, ?_, h⟩
  · rw [String.toList_ofList]
    exact document_compact hprintable
  · rw [htext]
    exact compactAdapter_fromSlice hprintable

theorem members_printable (request : Request) (depth : Nat) :
    ∀ member ∈ request.members, member.2.printable depth = true := by
  intro member hmember
  rw [Request.members, List.mem_cons] at hmember
  rcases hmember with rfl | hmember
  · exact Json.printable_string _ _
  · obtain ⟨s, _, hs⟩ := List.mem_map.mp (List.of_mem_zip hmember).2
    rw [← hs]
    exact Json.printable_string _ _

/-- A request sent as the compact text of its members. -/
def compactStdin (request : Request) : Stdin :=
  ⟨(Json.object request.members).toVec, false⟩

theorem sends_compactStdin (openRoot) (request : Request) :
    Sends (compactAdapter openRoot) (compactStdin request) request :=
  sends_compact openRoot (Json.printable_object.mpr (members_printable request 126))
    (Request.ofJson_eq_some.mpr (.inr ⟨_, rfl, .refl _⟩))

theorem sends_positional (openRoot) (request : Request) :
    Sends (compactAdapter openRoot) ⟨request.positional.toVec, false⟩ request :=
  sends_compact openRoot (Json.printable_array_map.mpr (members_printable request 126))
    (Request.ofJson_eq_some.mpr (.inl rfl))

end Invokrum.Rpc
