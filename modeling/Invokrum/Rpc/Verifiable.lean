import Invokrum.Base.JsonSize
import Invokrum.Integrity.PackBinding
import Invokrum.Rpc.RequestSchema
import Invokrum.Schema.Normalize

/-!
# A resolved lock can be verified

The lock of a resolve response, sent back in a verify request over the same
packs and sources, is decoded to the lock that was encoded and does not drift.
Nothing else can fail but the byte limit of requests, and a lock within its own
limit may need a request beyond that one.
-/

namespace Invokrum.Rpc

open Host Outcome
open Invokrum.Core Invokrum.Integrity
open Json (ReadsCompact)
open Text (Bytes)

/-! ## Resolving and verifying -/

section

variable {adapter : Adapter} {stdin : Stdin} {pack profile : String}

theorem executeResolve_eq_ok {result : Json} : executeResolve adapter pack profile = .ok result ↔
    ∃ loaded source profileId bundle, loadPack adapter (pathOf pack) = .ok (loaded, source) ∧
      parseProfile profile = .ok profileId ∧
        resolveBundle loaded profileId source .default = .ok bundle ∧
          result = bundleJson bundle := by
  simp only [executeResolve, bind_eq_ok, mapError_eq_ok, Prod.exists, pure, Except.pure,
    Except.ok.injEq]
  constructor
  · rintro ⟨loaded, source, hload, profileId, hprofile, bundle, hresolve, rfl⟩
    exact ⟨loaded, source, profileId, bundle, hload, hprofile, hresolve, rfl⟩
  · rintro ⟨loaded, source, profileId, bundle, hload, hprofile, hresolve, rfl⟩
    exact ⟨loaded, source, hload, profileId, hprofile, bundle, hresolve, rfl⟩

/-- The lock of a result, verified over the same packs and sources. -/
theorem executeVerify_of_resolve (hreader : ReadsCompact adapter.readJson) {loaded : OverlayPack}
    {source : OverlaySource} {profileId : Identifier} {bundle : ResolvedBundle}
    (hload : loadPack adapter (pathOf pack) = .ok (loaded, source))
    (hprofile : parseProfile profile = .ok profileId)
    (hresolve : resolveBundle loaded profileId source .default = .ok bundle) :
    executeVerify adapter pack profile (encodeBase64 bundle.lockBytes) =
      .ok (verifiedJson ⟨bundle, ⟨[]⟩⟩) := by
  obtain ⟨hsize, hdecode⟩ := decodeLockfile_lockBytes hreader hresolve
  have hbase64 : decodeBase64 (encodeBase64 bundle.lockBytes) = .ok bundle.lockBytes :=
    decodeBase64_iff.mpr rfl
  have hverify := verifyBundle_self hresolve
  simp [executeVerify, hbase64, hdecode, hload, hprofile, hverify, rejectIf,
    Nat.not_lt.mpr hsize, Except.mapError, pure, Except.pure]

end

/-- A resolve request is answered with this lock in its result. -/
def Resolves (adapter : Adapter) (stdin : Stdin) (pack profile lockBase64 : String) : Prop :=
  ∃ protocol requestId members result,
    receive adapter stdin = .ok (.resolve protocol requestId pack profile) ∧
      Holds (execute adapter stdin).stdout (.object members) ∧
        ("result", .object result) ∈ members ∧ ("lock_base64", .string lockBase64) ∈ result

/-- The answer is that nothing has drifted. -/
def Verifies (adapter : Adapter) (stdin : Stdin) : Prop :=
  ∃ members result, Holds (execute adapter stdin).stdout (.object members) ∧
    ("ok", .bool true) ∈ members ∧ ("result", .object result) ∈ members ∧
      ("verified", .bool true) ∈ result ∧ ("drifts", .array []) ∈ result

/-- A lock that a response returns is the lock of a bundle. -/
theorem bundle_of_resolves {adapter : Adapter} {stdin : Stdin} {pack profile lockBase64 : String}
    (h : Resolves adapter stdin pack profile lockBase64) :
    ∃ loaded source profileId bundle, loadPack adapter (pathOf pack) = .ok (loaded, source) ∧
      parseProfile profile = .ok profileId ∧
        resolveBundle loaded profileId source .default = .ok bundle ∧
          lockBase64 = encodeBase64 bundle.lockBytes := by
  obtain ⟨protocol, requestId, members, result, hreceive, hholds, hresult, hlock⟩ := h
  simp only [execute, hreceive] at hholds
  cases hrun : (do
      admitted (.resolve protocol requestId pack profile)
      executeRequest adapter (.resolve protocol requestId pack profile)) with
  | error error =>
      rw [hrun] at hholds
      have heq := hholds.unique (holds_error _ error)
      rw [Json.object.inj heq] at hresult
      simp at hresult
  | ok value =>
      rw [hrun] at hholds
      obtain ⟨_, _, hexecute⟩ := bind_eq_ok.mp hrun
      have heq := hholds.unique (holds_success _ _ (executeRequest_isResult hexecute).printable)
      obtain ⟨loaded, source, profileId, bundle, hload, hprofile, hbundle, rfl⟩ :=
        executeResolve_eq_ok.mp hexecute
      refine ⟨loaded, source, profileId, bundle, hload, hprofile, hbundle, ?_⟩
      rw [Json.object.inj heq] at hresult
      have hobject : Json.object result = bundleJson bundle := by simpa using hresult
      rw [Json.object.inj hobject] at hlock
      simpa using hlock

/-- A request with a resolved lock is answered with the bundle, if it fits the byte limit. -/
theorem holds_verified {adapter : Adapter} (hreader : ReadsCompact adapter.readJson)
    {stdin stdin' : Stdin} {pack profile lockBase64 requestId : String}
    (hresolves : Resolves adapter stdin pack profile lockBase64)
    (hid : requestId ≠ "" ∧ Text.byteLength requestId ≤ maxRequestIdBytes)
    (hsends : Sends adapter stdin' (.verify hostContractVersion requestId pack profile lockBase64))
    (hsize : stdin'.bytes.length ≤ maxRequestBytes) :
    ∃ bundle, Holds (execute adapter stdin').stdout
      (successResponse requestId "verify" (verifiedJson ⟨bundle, ⟨[]⟩⟩)) := by
  have hreceive := receive_of_sends hsends
  rw [if_pos hsize] at hreceive
  obtain ⟨loaded, source, profileId, bundle, hload, hprofile, hbundle, rfl⟩ :=
    bundle_of_resolves hresolves
  have hexecute := executeVerify_of_resolve hreader hload hprofile hbundle
  have hadmitted : admitted (.verify hostContractVersion requestId pack profile
      (encodeBase64 bundle.lockBytes)) = .ok () := admitted_eq_ok.mpr ⟨rfl, hid⟩
  have hresult : executeRequest adapter (.verify hostContractVersion requestId pack profile
      (encodeBase64 bundle.lockBytes)) = .ok (verifiedJson ⟨bundle, ⟨[]⟩⟩) := hexecute
  refine ⟨bundle, ?_⟩
  rw [execute_eq_success hreceive hadmitted hresult]
  exact holds_success _ _ (executeRequest_isResult hresult).printable

/-- A lock that was resolved is verified, if the request fits the byte limit. -/
theorem verifies_iff {adapter : Adapter} (hreader : ReadsCompact adapter.readJson)
    {stdin stdin' : Stdin} {pack profile lockBase64 requestId : String}
    (hresolves : Resolves adapter stdin pack profile lockBase64)
    (hid : requestId ≠ "" ∧ Text.byteLength requestId ≤ maxRequestIdBytes)
    (hsends : Sends adapter stdin' (.verify hostContractVersion requestId pack profile lockBase64)) :
    Verifies adapter stdin' ↔ stdin'.bytes.length ≤ maxRequestBytes := by
  by_cases hsize : stdin'.bytes.length ≤ maxRequestBytes
  · obtain ⟨bundle, hholds⟩ := holds_verified hreader hresolves hid hsends hsize
    refine iff_of_true ⟨_, [("bundle", bundleJson bundle), ("drifts", .array []),
      ("verified", .bool true)], hholds, ?_, ?_, ?_, ?_⟩ hsize
    · simp
    · simp [verifiedJson, VerifiedBundle.isVerified, VerificationReport.isVerified]
    · simp
    · simp
  · have hreceive := receive_of_sends hsends
    rw [if_neg hsize] at hreceive
    refine iff_of_false ?_ hsize
    rintro ⟨members, _, hholds, hok, _⟩
    obtain ⟨_, _, hreceived, _⟩ := succeeds_execute ⟨members, hholds, hok⟩
    rw [hreceive] at hreceived
    cases hreceived

/-! ## A lock beyond the byte limit of requests -/

open Schema (PackDocument SchemaLimits compactLong longParts longText longText_valid
  quoted_longText)

theorem filesId_valid : identifierValid "files" = true := by decide

theorem fileId_valid : identifierValid "file" = true := by decide

theorem allId_valid : identifierValid "all" = true := by decide

theorem farSelections_sorted (values : List Identifier) :
    ([(⟨"files", filesId_valid⟩, values)] : List (Identifier × List Identifier)).Pairwise
      (fun a b => a.1 < b.1) := by
  simp

def farProfile : Profile where
  id := ⟨"all", allId_valid⟩
  selections := ⟨[(⟨"files", filesId_valid⟩, [⟨"file", fileId_valid⟩])], farSelections_sorted _⟩

/-- The pack of one long source path, and a profile that selects it. -/
def farParts (n : Nat) : PackParts := { longParts n with profiles := [farProfile] }

theorem farParts_declared (n : Nat) : (farParts n).Declared where
  schemaFamily_ne := by simp [farParts, longParts, Schema.schemaFamily]
  classIds := by simp [farParts, longParts]
  overlayIds := by simp [farParts, longParts]
  profileIds := by simp [farParts]
  variableNames := by simp [farParts, longParts]
  classOrders := by simp [farParts, longParts]
  overlayClass := by simp [farParts, longParts]
  incompatible := by simp [farParts, longParts, Ordered.SortedSet.mem_def]
  profileClass := by simp [farParts, longParts, farProfile, Ordered.SortedMap.keys]
  selectionClass := by simp [farParts, longParts, farProfile]
  cardinality := by
    have haccepts : Cardinality.accepts ⟨0, none, Schema.zero_le_of_none⟩
        (farProfile.selected ⟨"files", filesId_valid⟩).length = true := by decide
    simpa [farParts, longParts] using haccepts
  selectionNodup := by simp [farParts, farProfile]

def farPack (n : Nat) : OverlayPack where
  toPackParts := farParts n
  wellFormed := {
    toDeclared := farParts_declared n
    classes_sorted := by simp [farParts, longParts]
    overlays_sorted := by simp [farParts, longParts]
    profiles_sorted := by simp [farParts]
    variables_sorted := by simp [farParts, longParts] }

def farJson (n : Nat) : Json := (PackDocument.ofPack (farPack n)).toJson

/-- The pack document is `pack.json`, and every other file holds one letter. -/
def farSource (n : Nat) : OverlaySource := fun path _ =>
  if path.text = "pack.json" then .ok (farJson n).toVec else .ok [97]

def farAdapter (n : Nat) : Adapter := compactAdapter fun _ => .ok (farSource n)

/-- The segment of the one overlay. -/
def farSegment (n : Nat) : ResolvedSegment :=
  ⟨⟨"files", filesId_valid⟩, ⟨"file", fileId_valid⟩,
    ⟨String.ofList (longText n), longText_valid n⟩, [97]⟩

def farComposition (n : Nat) : Composition := .of (farPack n) farProfile [[97]]

theorem farComposition_segments (n : Nat) : (farComposition n).segments = [farSegment n] := rfl

def farLock (n : Nat) : Lockfile :=
  lockMaterial sha256Digester (farPack n) farProfile (farComposition n)

theorem quoted_longText_utf8 (n : Nat) :
    (Text.utf8 (Json.quoted (String.ofList (longText n)))).length = n + 3 := by
  obtain ⟨hlength, hascii⟩ := quoted_longText n
  rw [Text.utf8_ascii (by simpa using hascii), List.length_map, hlength]

/-- The path is all that makes the lock longer. -/
theorem farLock_length (n : Nat) :
    (farLock n).toJson.toVec.length = (farLock 0).toJson.toVec.length + n := by
  have hid : ∀ n, (farPack n).id = (farPack 0).id := fun _ => rfl
  have hschema : ∀ n, (farPack n).schemaFamily = (farPack 0).schemaFamily := fun _ => rfl
  have hcontext : ∀ n, (farComposition n).normalizedContext = [97] := fun _ => rfl
  simp only [Json.toVec, farLock, lockMaterial, Lockfile.toJson, LockedManifest.toJson,
    LockedPack.toJson, LockedProfile.toJson, LockedOutput.toJson, digestEngineInputs,
    farComposition_segments, farSegment, lockedOverlay, LockedOverlay.toJson, List.map_cons,
    List.map_nil, Json.compact, Json.compactItems, Json.compactMembers, Text.utf8_append,
    Text.utf8_cons, Text.utf8_nil, List.length_append, List.length_nil,
    sha256Digester_hex.quoted_length, quoted_longText_utf8, hid n, hschema n, hcontext]
  omega

theorem farLock_zero : (farLock 0).toJson.toVec.length ≤ 2000 := by
  rw [farLock, lockMaterial_length_eq sha256Digester_hex zeroDigester_hex]
  decide +kernel

theorem farJson_eq (n : Nat) : farJson n = .object [
    ("schema", .string "invokrum.dev/v1"),
    ("id", .string "long"),
    ("classes", .array [.object [("id", .string "files"), ("order", .unsigned 0),
      ("minimum", .unsigned 0), ("maximum", .null)]]),
    ("overlays", .array [.object [("id", .string "file"), ("class", .string "files"),
      ("source", .string (String.ofList (longText n))), ("incompatible_with", .array [])]]),
    ("profiles", .array [.object [("id", .string "all"),
      ("selections", .object [("files", .array [.string "file"])])]]),
    ("variables", .array [])] := rfl

theorem farJson_length (n : Nat) :
    (farJson n).toVec.length = (farJson 0).toVec.length + n := by
  simp only [Json.toVec, farJson_eq, Json.compact, Json.compactItems, Json.compactMembers,
    Text.utf8_append, Text.utf8_cons, Text.utf8_nil, List.length_append, List.length_nil,
    quoted_longText_utf8]
  omega

theorem farJson_zero : (farJson 0).toVec.length ≤ 2000 := by decide +kernel

/-- The source path is not that of the pack document. -/
theorem longText_ne_pack (n : Nat) : String.ofList (longText n) ≠ "pack.json" := by
  intro h
  have hlist : longText n = "pack.json".toList := by rw [← h, String.toList_ofList]
  have hmem : 'p' ∈ longText n := by
    rw [hlist]
    decide
  exact absurd (List.eq_of_mem_replicate hmem) (by decide)

theorem farPack_compose (n : Nat) :
    compose (farPack n) farProfile.id (farSource n) .default = .ok (farComposition n) := by
  have hselected : (farPack n).selectedOverlays farProfile =
      [⟨⟨"file", fileId_valid⟩, ⟨"files", filesId_valid⟩,
        ⟨String.ofList (longText n), longText_valid n⟩, ⟨[], Schema.noIdentifiers_sorted⟩⟩] := rfl
  refine compose_eq_ok.mpr ⟨farProfile, [[97]], ?_, rfl⟩
  exact {
    declared := List.mem_singleton_self _
    named := rfl
    count := by
      rw [hselected]
      show 1 ≤ 256
      decide
    compatible := by simp [hselected, Ordered.SortedSet.mem_def]
    loads := by
      rw [hselected]
      exact .cons ⟨if_neg (longText_ne_pack n), by decide⟩ .nil
    fits := by decide }

theorem farPack_resolve {n : Nat} (h : n ≤ 1000000) :
    resolveBundle (farPack n) farProfile.id (farSource n) .default =
      .ok ⟨farComposition n, farLock n, (farLock n).toJson.toVec⟩ := by
  have hlength := farLock_length n
  have hzero := farLock_zero
  have hcount : (farComposition n).segments.length ≤ maxLockedOverlays := by
    rw [farComposition_segments]
    show 1 ≤ 256
    decide
  refine resolveBundle_of_build (farPack_compose n) (buildLockfile_eq_ok.mpr
    ⟨farProfile, ⟨hcount, rfl, rfl, rfl⟩, rfl, lockMaterial_valid sha256Digester_hex hcount, ?_⟩)
  show (farLock n).toJson.toVec.length ≤ 1048576
  omega

theorem farJson_printable (n : Nat) : (farJson n).printable Json.readerDepth = true := by
  simp [farJson_eq, Json.readerDepth, Json.printable, Json.printableItems, Json.printableMembers]

theorem compactReader_reads {text : String} {j : Json} (h : Json.read text.toList = some j) :
    compactReader.Reads text j where
  present := by simp only [compactReader, h]
  trailing := rfl
  envelope schema hschema := by simp only [compactReader, h, Option.bind_some, hschema, okOr]
  document document hdocument := by
    simp only [compactReader, h, Option.bind_some, hdocument, okOr]

/-- The document is read back as the pack. -/
theorem farPack_parse {n : Nat} (h : n ≤ 1000000) :
    Schema.parseJson compactReader (String.ofList (farJson n).compact) = .ok (farPack n) := by
  have hread : Json.read (String.ofList (farJson n).compact).toList = some (farJson n) := by
    rw [String.toList_ofList]
    exact Json.read_compact (farJson_printable n)
  have hlength := farJson_length n
  have hzero := farJson_zero
  have hbytes : Text.byteLength (String.ofList (farJson n).compact) = (farJson n).toVec.length := by
    rw [Text.byteLength, Text.bytes, String.toList_ofList, Json.toVec]
  refine Schema.parseJsonWithLimits_of_reads rfl (compactReader_reads hread) ?_
  exact {
    documentBytes := by
      show _ ≤ 1048576
      omega
    nestingDepth := by decide
    declarations := by
      intro kind
      have hselections : (Ordered.SortedMap.ofEntries [Schema.selectionTexts
          (⟨"files", filesId_valid⟩, [⟨"file", fileId_valid⟩])]).entries =
            [("files", ["file"])] := rfl
      cases kind <;> simp [hselections, PackDocument.count, PackDocument.ofPack, farPack, farParts,
        longParts, farProfile, PackDocument.selectionCounts, PackDocument.incompatibilityCounts,
        Schema.ProfileDocument.ofProfile, Schema.OverlayDocument.ofOverlay,
        SchemaLimits.default, Schema.DeclarationLimits.default,
        Schema.DeclarationLimits.maximum] }

theorem farPack_load {n : Nat} (h : n ≤ 1000000) :
    loadPack (farAdapter n) (pathOf "pack.json") = .ok (farPack n, farSource n) := by
  have hname : Inodes.pathFileName (pathOf "pack.json") = some (Text.bytes "pack.json") := by
    decide
  have hextension : Cli.pathExtension (pathOf "pack.json") = "json" := by
    have hbytes : Cli.extensionOf (Text.bytes "pack.json") = Text.bytes "json" := by decide
    rw [Cli.pathExtension, hname, Option.map_some, Option.bind_some, hbytes,
      Text.fromUtf8_eq_some.mpr rfl]
    decide +kernel
  have hvalid : packRelativePathValid "pack.json" = true := by decide
  have hrelative : PackRelativePath.parse "pack.json" = .ok ⟨"pack.json", hvalid⟩ :=
    PackRelativePath.parse_eq_ok.mpr rfl
  have htext : Text.fromUtf8 (farJson n).toVec = some (String.ofList (farJson n).compact) := by
    rw [Text.fromUtf8_eq_some, Text.bytes, String.toList_ofList, Json.toVec]
  have hparse : parseDocument (farAdapter n) "json" (String.ofList (farJson n).compact) =
      .ok (farPack n) := farPack_parse h
  rw [loadPack, hname, hextension, Option.bind_some, Text.fromUtf8_eq_some.mpr rfl]
  have hroot : ∀ root, (farAdapter n).openRoot root = .ok (farSource n) := fun _ => rfl
  have hsource : ∀ limit, farSource n ⟨"pack.json", hvalid⟩ limit = .ok (farJson n).toVec :=
    fun _ => if_pos rfl
  simp [okOr, hrelative, hroot, hsource, htext, hparse, Except.mapError]

theorem farPack_resolves {n : Nat} (h : n ≤ 1000000) : Resolves (farAdapter n)
    (compactStdin (.resolve hostContractVersion "a" "pack.json" "all")) "pack.json" "all"
      (encodeBase64 (farLock n).toJson.toVec) := by
  have hlength : (compactStdin (.resolve hostContractVersion "a" "pack.json" "all")).bytes.length ≤
      maxRequestBytes := by decide +kernel
  have hreceive : receive (farAdapter n)
      (compactStdin (.resolve hostContractVersion "a" "pack.json" "all")) =
        .ok (.resolve hostContractVersion "a" "pack.json" "all") :=
    (receive_of_sends (sends_compactStdin _ _)).trans (if_pos hlength)
  have hadmitted : admitted (.resolve hostContractVersion "a" "pack.json" "all") = .ok () :=
    admitted_eq_ok.mpr (by decide)
  have hid : Identifier.parse "all" = .ok farProfile.id := Identifier.parse_eq_ok.mpr rfl
  have hprofile : parseProfile "all" = .ok farProfile.id := by
    rw [parseProfile, hid]
    rfl
  have hresult : executeRequest (farAdapter n)
      (.resolve hostContractVersion "a" "pack.json" "all") = .ok (bundleJson
        ⟨farComposition n, farLock n, (farLock n).toJson.toVec⟩) :=
    executeResolve_eq_ok.mpr ⟨_, _, _, _, farPack_load h, hprofile, farPack_resolve h, rfl⟩
  have hholds := holds_success "a" "resolve" (executeRequest_isResult hresult).printable
  have hanswer := execute_eq_success hreceive hadmitted hresult
  refine ⟨_, "a", _, _, hreceive, hanswer ▸ hholds, .tail _ (.tail _ (.tail _ (.tail _ (.head _)))),
    .tail _ (.head _)⟩

theorem encodeBase64Chunks_length_ge (bytes : Bytes) :
    4 * bytes.length ≤ 3 * (encodeBase64Chunks bytes).length := by
  induction bytes using encodeBase64Chunks.induct with
  | case1 p q r rest ih =>
      rw [encodeBase64Chunks, List.length_append]
      simp only [encodeBase64Chunk, List.length_cons, List.length_nil]
      omega
  | case2 => exact Nat.le_refl _
  | case3 chunk hlong hne =>
      have hshort := short_chunk hlong hne
      rw [encodeBase64Chunks_short hshort]
      simp only [encodeBase64Chunk, List.length_cons, List.length_nil]
      omega

/-- The request is at least as long as the lock it names. -/
theorem lock_length_le (protocol requestId pack profile lockBase64 : String) :
    lockBase64.toList.length ≤
      (compactStdin (.verify protocol requestId pack profile lockBase64)).bytes.length := by
  have hmember : ("expected_lock_base64", Json.string lockBase64) ∈
      (Request.verify protocol requestId pack profile lockBase64).members := by
    simp [Request.members, Request.fieldMembers, Request.fieldNames, Request.fieldTexts]
  exact (Json.string_size_ge lockBase64).trans (Json.member_size_le hmember)

/-- A pack document within its limit may have a lock that no verify request can name. -/
theorem farLock_unverifiable : ¬ ∀ (adapter : Adapter), ReadsCompact adapter.readJson →
    ∀ (stdin stdin' : Stdin) (pack profile lockBase64 requestId : String),
      Resolves adapter stdin pack profile lockBase64 →
      requestId ≠ "" ∧ Text.byteLength requestId ≤ maxRequestIdBytes →
      Sends adapter stdin' (.verify hostContractVersion requestId pack profile lockBase64) →
      Verifies adapter stdin' := by
  intro hall
  have hsends := sends_compactStdin (fun _ => .ok (farSource 800000)) (.verify hostContractVersion
    "a" "pack.json" "all" (encodeBase64 (farLock 800000).toJson.toVec))
  have hreader : ReadsCompact (farAdapter 800000).readJson := compactAdapter_readsCompact
  have hid : "a" ≠ "" ∧ Text.byteLength "a" ≤ maxRequestIdBytes := by decide
  have hresolves := @farPack_resolves 800000 (by decide)
  have hfits := (verifies_iff hreader hresolves hid hsends).mp
    (hall _ hreader _ _ _ _ _ _ hresolves hid hsends)
  have hlock := lock_length_le hostContractVersion "a" "pack.json" "all"
    (encodeBase64 (farLock 800000).toJson.toVec)
  have hchars := encodeBase64Chunks_length_ge (farLock 800000).toJson.toVec
  have hbytes := farLock_length 800000
  rw [encodeBase64, String.toList_ofList] at hlock
  rw [encodeBase64] at hfits
  have hmaximum : maxRequestBytes = 1048576 := rfl
  omega

/-! ## A lock that is verified -/

theorem symbol_printable (n : Nat) : 32 ≤ (Base64.symbol n).toNat := by
  have hlow : ∀ k < 64, 32 ≤ (Base64.symbol k).toNat := by decide +kernel
  by_cases h : n < 64
  · exact hlow n h
  · unfold Base64.symbol
    rw [if_neg (by omega), if_neg (by omega), if_neg (by omega), if_neg (by omega)]
    decide

theorem encodeBase64Chunks_printable (bytes : Bytes) :
    ∀ c ∈ encodeBase64Chunks bytes, 32 ≤ c.toNat := by
  intro c hc
  rw [encodeBase64Chunks_eq, Base64.encode, List.mem_append] at hc
  rcases hc with hc | hc
  · obtain ⟨index, _, rfl⟩ := List.mem_map.mp hc
    exact symbol_printable _
  · rw [List.eq_of_mem_replicate hc]
    decide

theorem encodeBase64Chunks_length_le (bytes : Bytes) :
    (Text.utf8 (encodeBase64Chunks bytes)).length ≤ 2 * bytes.length + 4 := by
  induction bytes using encodeBase64Chunks.induct with
  | case1 p q r rest ih =>
      rw [encodeBase64Chunks, Text.utf8_append, utf8_encodeBase64Chunk, List.length_append]
      simp only [List.length_cons, List.length_nil]
      omega
  | case2 => exact Nat.zero_le _
  | case3 chunk hlong hne =>
      rw [encodeBase64Chunks_short (short_chunk hlong hne), utf8_encodeBase64Chunk]
      simp only [List.length_cons, List.length_nil]
      omega

/-- A verify request for the pack. -/
def farRequest (lockBase64 : String) : Request :=
  .verify hostContractVersion "a" "pack.json" "all" lockBase64

theorem farRequest_length_le {lockBase64 : String} (h : ∀ c ∈ lockBase64.toList, 32 ≤ c.toNat) :
    (compactStdin (farRequest lockBase64)).bytes.length ≤ 2 * Text.byteLength lockBase64 + 1000 := by
  have hfixed : ([("operation", Json.string "verify"), ("protocol", .string hostContractVersion),
      ("request_id", .string "a"), ("pack", .string "pack.json"),
      ("profile", .string "all")].map Json.memberSize).sum ≤ 900 := by decide +kernel
  have hname : (Text.utf8 (Json.quoted "expected_lock_base64")).length = 22 := by decide +kernel
  have hlock := Json.quoted_size_le h
  have hsize := Json.object_size_le (farRequest lockBase64).members
  have hmembers : (farRequest lockBase64).members = [("operation", Json.string "verify"),
      ("protocol", .string hostContractVersion), ("request_id", .string "a"),
      ("pack", .string "pack.json"), ("profile", .string "all")] ++
        [("expected_lock_base64", .string lockBase64)] := rfl
  rw [hmembers, List.map_append, List.sum_append, List.map_singleton, List.sum_singleton,
    Json.memberSize_mk, Json.string_size, hname] at hsize
  show (Json.object (farRequest lockBase64).members).toVec.length ≤ _
  rw [hmembers]
  omega

theorem farRequest_fits {bytes : Bytes} (h : bytes.length ≤ 2000) :
    (compactStdin (farRequest (encodeBase64 bytes))).bytes.length ≤ maxRequestBytes := by
  have hprintable := encodeBase64Chunks_printable bytes
  have hlength := encodeBase64Chunks_length_le bytes
  have hmaximum : maxRequestBytes = 1048576 := rfl
  unfold encodeBase64
  have hrequest := @farRequest_length_le (String.ofList (encodeBase64Chunks bytes))
    (by rwa [String.toList_ofList])
  rw [Text.byteLength, Text.bytes, String.toList_ofList] at hrequest
  omega

/-- The lock of the pack can be sent. -/
theorem farLock_sendable : ∃ lockBase64,
    Resolves (farAdapter 0) (compactStdin (.resolve hostContractVersion "a" "pack.json" "all"))
        "pack.json" "all" lockBase64 ∧
      (compactStdin (farRequest lockBase64)).bytes.length ≤ maxRequestBytes :=
  ⟨_, farPack_resolves (Nat.zero_le _), farRequest_fits farLock_zero⟩

theorem verifies_iff_sample :
    ∃ lockBase64, Verifies (farAdapter 0) (compactStdin (farRequest lockBase64)) := by
  obtain ⟨lockBase64, hresolves, hfits⟩ := farLock_sendable
  exact ⟨lockBase64, (verifies_iff compactAdapter_readsCompact hresolves (by decide)
    (sends_compactStdin _ _)).mpr hfits⟩

theorem execute_request_valid_sample : ∃ members lockBytes,
    (farAdapter 0).fromSlice (compactStdin (farRequest (encodeBase64 lockBytes))).bytes =
        .ok (.object members) ∧
      requestSchema.Valid (.object members) ∧
        ("expected_lock_base64", .string (encodeBase64 lockBytes)) ∈ members := by
  obtain ⟨lockBase64, hresolves, hfits⟩ := farLock_sendable
  have hread : (farAdapter 0).fromSlice (compactStdin (farRequest lockBase64)).bytes =
      .ok (.object (farRequest lockBase64).members) :=
    compactAdapter_fromSlice (Json.printable_object.mpr (members_printable _ 126))
  have hmember : ("expected_lock_base64", .string lockBase64) ∈ (farRequest lockBase64).members := by
    simp [farRequest, Request.members, Request.fieldMembers, Request.fieldNames,
      Request.fieldTexts]
  obtain ⟨_, hholds⟩ := holds_verified compactAdapter_readsCompact hresolves (by decide)
    (sends_compactStdin _ (farRequest lockBase64)) hfits
  obtain ⟨j, members, hread', hshape, hvalid, hlock⟩ := execute_request_valid ⟨_, hholds, by simp⟩
  obtain rfl := Except.ok.inj (hread.symm.trans hread')
  rcases hshape with hobject | ⟨_, _, harray⟩
  · obtain rfl := Json.object.inj hobject
    obtain ⟨lockBytes, rfl⟩ := hlock _ hmember
    exact ⟨_, lockBytes, hread, hvalid, hmember⟩
  · cases harray

end Invokrum.Rpc
