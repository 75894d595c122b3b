import Invokrum.Rpc.ResponseSchema

/-!
# The published request schema

A request that is answered without an error has passed every check the schema
makes. Only its outer shape may differ: the library also takes a request by
position, as an array of the values the schema names.
-/

namespace Invokrum.Rpc

open Host Inodes Outcome
open Invokrum.Core (Identifier OverlayPack OverlaySource)
open JsonSchema hiding all
open Text (Bytes)

/-! ## The schema -/

/-- `[A-Za-z0-9+/]` -/
def isBase64Char (c : Char) : Bool :=
  c.isUpper || c.isLower || c.isDigit || c == '+' || c == '/'

/-- `^(?:[A-Za-z0-9+/]{4})*(?:[A-Za-z0-9+/]{2}==|[A-Za-z0-9+/]{3}=)?$` -/
def base64Pattern : Regex :=
  let char := Regex.chars isBase64Char
  .sequence [.start, .star (.sequence [char, char, char, char]),
    .optional (.alt (.sequence [char, char, .lit '=', .lit '='])
      (.sequence [char, char, char, .lit '='])),
    .stop]

def requestSchema : JsonSchema :=
  .all [
    .closed ["protocol", "request_id", "operation"] [
      ("protocol", .enum [hostContractVersion]),
      ("request_id", .all [.type [.string], .minLength 1, .maxLength 128]),
      ("operation", .enum operations),
      ("pack", .both (.type [.string]) (.minLength 1)),
      ("profile", .both (.type [.string]) (.minLength 1)),
      ("expected_lock_base64", .both (.type [.string]) (.pattern base64Pattern))],
    .implies (.property "operation" (.enum ["capabilities"]))
      (.not (.any [.required "pack", .required "profile", .required "expected_lock_base64"])),
    .implies (.property "operation" (.enum ["resolve"]))
      (.all [.required "pack", .required "profile", .not (.required "expected_lock_base64")]),
    .implies (.property "operation" (.enum ["verify"]))
      (.all [.required "pack", .required "profile", .required "expected_lock_base64"])]

/-! ## Encoded locks -/

theorem isBase64Char_symbol : ∀ n < 64, isBase64Char (Base64.symbol n) = true := by
  decide

/-- The characters of a chunk, the last two perhaps padding. -/
theorem encodeBase64Chunk_chars (chunk : Bytes) : ∃ a b c d,
    encodeBase64Chunk chunk = [a, b, if chunk.length > 1 then c else '=',
      if chunk.length > 2 then d else '='] ∧ isBase64Char a = true ∧ isBase64Char b = true ∧
        isBase64Char c = true ∧ isBase64Char d = true := by
  have h0 := (chunk.getD 0 0).toNat_lt
  have h1 := (chunk.getD 1 0).toNat_lt
  have h2 := (chunk.getD 2 0).toNat_lt
  exact ⟨_, _, _, _, encodeBase64Chunk_indices chunk, isBase64Char_symbol _ (by omega),
    isBase64Char_symbol _ (by omega), isBase64Char_symbol _ (by omega),
    isBase64Char_symbol _ (by omega)⟩

/-- What the pattern asks behind `^`. -/
theorem accepts_encodeBase64Chunks (bytes : Bytes) (before : List Char) :
    (Regex.sequence [
      .star (.sequence [.chars isBase64Char, .chars isBase64Char, .chars isBase64Char,
        .chars isBase64Char]),
      .optional (.alt
        (.sequence [.chars isBase64Char, .chars isBase64Char, .lit '=', .lit '='])
        (.sequence [.chars isBase64Char, .chars isBase64Char, .chars isBase64Char, .lit '='])),
      .stop]).Accepts before (encodeBase64Chunks bytes) := by
  induction bytes using encodeBase64Chunks.induct generalizing before with
  | case1 p q r rest ih =>
      obtain ⟨a, b, c, d, hchunk, ha, hb, hc, hd⟩ := encodeBase64Chunk_chars [p, q, r]
      rw [encodeBase64Chunks, hchunk]
      refine Regex.accepts_star_more ?_ (ih _)
      exact ⟨[a], [b, c, d], rfl, ⟨a, rfl, ha⟩, [b], [c, d], rfl, ⟨b, rfl, hb⟩, [c], [d], rfl,
        ⟨c, rfl, hc⟩, [d], [], rfl, ⟨d, rfl, hd⟩, rfl⟩
  | case2 =>
      apply Regex.accepts_star_done
      simp [Regex.optional, encodeBase64Chunks]
  | case3 chunk hlong hne =>
      have hshort := short_chunk hlong hne
      obtain ⟨a, b, c, d, hchunk, ha, hb, hc, _⟩ := encodeBase64Chunk_chars chunk
      rw [encodeBase64Chunks_short hshort, hchunk]
      apply Regex.accepts_star_done
      rcases hshort with hone | htwo
      · simp [Regex.optional, Regex.accepts_seq_assoc, hone, ha, hb]
      · simp [Regex.optional, Regex.accepts_seq_assoc, htwo, ha, hb, hc]

theorem test_encodeBase64 (bytes : Bytes) : base64Pattern.Test (encodeBase64 bytes).toList := by
  refine ⟨[], (encodeBase64 bytes).toList, rfl, ?_⟩
  rw [encodeBase64, String.toList_ofList]
  exact Regex.accepts_seq_start.mpr ⟨rfl, accepts_encodeBase64Chunks bytes []⟩

/-! ## Accepted requests -/

theorem one_le_length {s : String} (h : s ≠ "") : 1 ≤ s.toList.length :=
  List.length_pos_iff.mpr fun hnil => h (String.toList_eq_nil_iff.mp hnil)

/-- A pack is loaded from a path with some component. -/
theorem ne_of_loadPack {adapter : Adapter} {path : String}
    {loaded : OverlayPack × OverlaySource} (h : loadPack adapter (pathOf path) = .ok loaded) :
    path ≠ "" := by
  rintro rfl
  have hnone : pathFileName (pathOf "") = none := by decide
  rw [loadPack, hnone] at h
  cases h

theorem ne_of_parseProfile {value : String} {profile : Identifier}
    (h : parseProfile value = .ok profile) : value ≠ "" := by
  rintro rfl
  cases h

/-- The texts beside the header that the schema asks to be there. -/
def Request.Filled : Request → Prop
  | .capabilities .. => True
  | .resolve _ _ pack profile => pack ≠ "" ∧ profile ≠ ""
  | .verify _ _ pack profile expectedLockBase64 =>
      pack ≠ "" ∧ profile ≠ "" ∧ base64Pattern.Test expectedLockBase64.toList

theorem valid_members {request : Request} (hadmitted : admitted request = .ok ())
    (hfilled : request.Filled) : requestSchema.Valid (.object request.members) := by
  obtain ⟨hprotocol, hid, _⟩ := admitted_eq_ok.mp hadmitted
  have hlong := one_le_length hid
  have hshort := length_of_admit hadmitted
  have htexts : (∀ pack ∈ request.fieldTexts.drop 2 |>.take 2, 1 ≤ pack.toList.length) := by
    cases request with
    | capabilities => simp [Request.fieldTexts]
    | resolve => simpa [Request.fieldTexts] using ⟨one_le_length hfilled.1, one_le_length hfilled.2⟩
    | verify =>
        simpa [Request.fieldTexts] using ⟨one_le_length hfilled.1, one_le_length hfilled.2.1⟩
  cases request <;>
    simp_all [requestSchema, valid_closed, Request.members, Request.fieldMembers,
      Request.fieldNames, Request.fieldTexts, Request.operation, Request.protocol,
      Request.requestId, Request.Filled, operations, valid_type, Json.type]

/-- What is executed without an error is filled, and names a lock in canonical base64. -/
theorem filled_of_executeRequest {adapter : Adapter} {request : Request} {result : Json}
    (h : executeRequest adapter request = .ok result) : request.Filled ∧
      ∀ text, ("expected_lock_base64", .string text) ∈ request.members →
        ∃ lockBytes, encodeBase64 lockBytes = text := by
  cases request with
  | capabilities protocol requestId =>
      exact ⟨trivial, by simp [Request.members, Request.fieldMembers, Request.fieldNames,
        Request.fieldTexts]⟩
  | resolve protocol requestId pack profile =>
      simp only [executeRequest, executeResolve, bind_eq_ok] at h
      obtain ⟨_, hload, _, hprofile, _⟩ := h
      exact ⟨⟨ne_of_loadPack hload, ne_of_parseProfile hprofile⟩, by simp [Request.members,
        Request.fieldMembers, Request.fieldNames, Request.fieldTexts]⟩
  | verify protocol requestId pack profile expectedLockBase64 =>
      simp only [executeRequest, executeVerify, bind_eq_ok, mapError_eq_ok] at h
      obtain ⟨lockBytes, hdecode, _, _, _, _, _, hload, _, hprofile, _⟩ := h
      obtain rfl := decodeBase64_iff.mp hdecode
      refine ⟨⟨ne_of_loadPack hload, ne_of_parseProfile hprofile, test_encodeBase64 lockBytes⟩, ?_⟩
      intro text htext
      refine ⟨lockBytes, ?_⟩
      simpa [Request.members, Request.fieldMembers, Request.fieldNames, Request.fieldTexts,
        eq_comm] using htext

/-! ## Every answered request -/

/-- The output is a response without an error. -/
def Succeeds (stdout : Bytes) : Prop :=
  ∃ members, Holds stdout (.object members) ∧ ("ok", .bool true) ∈ members

theorem succeeds_execute {adapter : Adapter} {stdin : Stdin}
    (h : Succeeds (execute adapter stdin).stdout) : ∃ request result,
      receive adapter stdin = .ok request ∧ admitted request = .ok () ∧
        executeRequest adapter request = .ok result := by
  obtain ⟨members, hholds, hok⟩ := h
  have hnone : ∀ requestId error, ¬ Holds (errorExecution requestId error).stdout
      (.object members) := by
    intro requestId error herror
    have heq := herror.unique (holds_error requestId error)
    rw [Json.object.inj heq] at hok
    simp at hok
  unfold execute at hholds
  cases hreceive : receive adapter stdin with
  | error error =>
      rw [hreceive] at hholds
      exact absurd hholds (hnone none error)
  | ok request =>
      simp only [hreceive] at hholds
      cases hrun : (do admitted request; executeRequest adapter request) with
      | error error =>
          rw [hrun] at hholds
          exact absurd hholds (hnone _ error)
      | ok result =>
          obtain ⟨_, hadmitted, hresult⟩ := bind_eq_ok.mp hrun
          exact ⟨request, result, rfl, hadmitted, hresult⟩

/-- A received request is what the library reads of the whole stream. -/
theorem receive_eq_ok {adapter : Adapter} {stdin : Stdin} {request : Request}
    (h : receive adapter stdin = .ok request) :
    ∃ j, adapter.fromSlice stdin.bytes = .ok j ∧ Request.ofJson j = some request := by
  simp only [receive, readBounded, bind_eq_ok, rejectIf_eq_ok, mapError_eq_ok, parseRequest,
    okOr_eq_ok, exists_const, pure, Except.pure, Except.ok.injEq] at h
  obtain ⟨_, ⟨_, hlength, _, rfl⟩, _, _, j, hread, hrequest⟩ := h
  have hwhole : stdin.bytes.take (maxRequestBytes + 1) = stdin.bytes := by
    apply List.take_of_length_le
    rw [List.length_take] at hlength
    omega
  exact ⟨j, hwhole ▸ hread, hrequest⟩

/-- An answered request is an object of the published schema, or such an object by position. -/
theorem execute_request_valid {adapter : Adapter} {stdin : Stdin}
    (h : Succeeds (execute adapter stdin).stdout) : ∃ j members,
      adapter.fromSlice stdin.bytes = .ok j ∧
        (j = .object members ∨ ∃ request : Request, members = request.members ∧
          j = .array (members.map Prod.snd)) ∧
        requestSchema.Valid (.object members) ∧
        ∀ text, ("expected_lock_base64", .string text) ∈ members →
          ∃ lockBytes, encodeBase64 lockBytes = text := by
  obtain ⟨request, result, hreceive, hadmitted, hresult⟩ := succeeds_execute h
  obtain ⟨j, hread, hrequest⟩ := receive_eq_ok hreceive
  obtain ⟨hfilled, hlock⟩ := filled_of_executeRequest hresult
  have hvalid := valid_members hadmitted hfilled
  rcases Request.ofJson_eq_some.mp hrequest with rfl | ⟨all, rfl, hperm⟩
  · exact ⟨_, request.members, hread, .inr ⟨request, rfl, rfl⟩, hvalid, hlock⟩
  · refine ⟨_, all, hread, .inl rfl, (Valid.perm hperm).mpr hvalid, ?_⟩
    exact fun text htext => hlock text (hperm.mem_iff.mp htext)

/-- A request for the capabilities, by position. -/
def positionalStdin : Stdin :=
  ⟨(Request.capabilities hostContractVersion "a").positional.toVec, false⟩

theorem positional_received : receive (compactAdapter fun _ => .error .rootUnavailable)
    positionalStdin = .ok (.capabilities hostContractVersion "a") := by
  have hlength : positionalStdin.bytes.length ≤ maxRequestBytes := by
    decide
  exact (receive_of_sends (sends_positional _ _)).trans (if_pos hlength)

theorem positional_succeeds : Succeeds
    (execute (compactAdapter fun _ => .error .rootUnavailable) positionalStdin).stdout := by
  have hadmitted : admitted (.capabilities hostContractVersion "a") = .ok () :=
    admitted_eq_ok.mpr (by decide)
  rw [execute_eq_success positional_received hadmitted rfl]
  exact ⟨_, holds_success "a" "capabilities" (by decide), by simp⟩

/-- An answered request need not be an object. -/
theorem execute_request_positional : ¬ ∀ (adapter : Adapter) (stdin : Stdin),
    Succeeds (execute adapter stdin).stdout → ∃ members,
      adapter.fromSlice stdin.bytes = .ok (.object members) ∧
        requestSchema.Valid (.object members) := by
  intro hall
  obtain ⟨members, hread, _⟩ := hall _ _ positional_succeeds
  have harray : (compactAdapter fun _ => .error .rootUnavailable).fromSlice positionalStdin.bytes =
      .ok (Request.capabilities hostContractVersion "a").positional :=
    compactAdapter_fromSlice (by decide)
  rw [harray] at hread
  cases hread

end Invokrum.Rpc
