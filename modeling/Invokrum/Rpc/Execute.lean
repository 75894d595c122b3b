import Invokrum.Base.JsonReader
import Invokrum.Cli.RelativePaths
import Invokrum.Rpc.Base64
import Invokrum.Rpc.JsonDepth
import Invokrum.Rpc.Request
import Invokrum.Schema.Parse

/-!
# One request, one response

The adapter reads one request from its input, runs it against the host facade
and answers with one line of JSON. Reading packs goes through a port that is a
map, so a path and a file hold the same for every request.
-/

namespace Invokrum.Rpc

open Cli (maxPackBytes pathExtension)
open Fs (LocalPackSourceError)
open Host Inodes Outcome
open Invokrum.Core (CompositionError CompositionLimits Identifier OverlayPack OverlaySource
  PackRelativePath ResolvedEntry SourceFailureKind)
open Invokrum.Integrity (DriftKind IntegrityError decodeLockfile maxLockfileBytes)
open Invokrum.Schema (SchemaError)
open Text (Bytes)

/-! ## Ports -/

/-- The texts of the errors of other crates. -/
structure Wording where
  root : LocalPackSourceError → String
  schema : SchemaError → String
  composition : CompositionError → String
  integrity : IntegrityError → String

/-- What the adapter runs on: the JSON library on a byte string, its complaint about a
document of another shape, the two document libraries, and the local packs. -/
structure Adapter where
  fromSlice : Bytes → Except String Json
  mismatch : Json → String
  json : Schema.JsonReader
  yaml : Schema.YamlReader
  openRoot : PathBuf → Except LocalPackSourceError OverlaySource
  wording : Wording

/-- The bytes of the input, and whether reading on behind them fails. -/
structure Stdin where
  bytes : Bytes
  fails : Bool

structure Execution where
  code : Nat
  stdout : Bytes
deriving DecidableEq

/-! ## Errors -/

def exitSuccess : Nat := 0

def exitInput : Nat := 3

def exitValidation : Nat := 4

def exitInternal : Nat := 7

inductive RpcErrorKind where
  | request
  | input
  | validation
  | composition
  | integrity
deriving DecidableEq

def RpcErrorKind.code : RpcErrorKind → String
  | .request => "request"
  | .input => "input"
  | .validation => "validation"
  | .composition => "composition"
  | .integrity => "integrity"

def RpcErrorKind.exitCode : RpcErrorKind → Nat
  | .request | .input => exitInput
  | .validation | .composition => exitValidation
  | .integrity => exitInternal

structure RpcError where
  kind : RpcErrorKind
  message : String
deriving DecidableEq

def sourceFailureText : SourceFailureKind → String
  | .notFound => "not found"
  | .notRegularFile => "not a regular file"
  | .symbolicLink => "symbolic link rejected"
  | .hardLink => "hard link rejected"
  | .deviceBoundary => "filesystem device boundary rejected"
  | .rootEscape => "pack-root escape rejected"
  | .changedDuringRead => "source changed during read"
  | .tooLarge => "source exceeds configured size limit"
  | .permissionDenied => "permission denied"
  | .unsupportedPlatform => "unsupported platform"
  | .io => "I/O failure"

/-! ## Responses -/

def maxRequestBytes : Nat := 1048576

def maxJsonDepth : Nat := 32

def maxRequestIdBytes : Nat := 128

/-- A `usize` in a response. -/
def sizeJson (n : Nat) : Json := .ofUInt64 (UInt64.ofNat n)

def capabilities : Json :=
  let limits := CompositionLimits.default
  .object [
    ("capabilities", .array [.string "capabilities", .string "resolve", .string "verify"]),
    ("default_limits", .object [
      ("maximum_json_depth", sizeJson maxJsonDepth),
      ("maximum_output_bytes", .ofUInt64 limits.maximumOutputBytes),
      ("maximum_overlay_bytes", .ofUInt64 limits.maximumOverlayBytes),
      ("maximum_overlays", .ofUInt64 limits.maximumOverlays),
      ("maximum_pack_bytes", sizeJson maxPackBytes),
      ("maximum_request_bytes", sizeJson maxRequestBytes),
      ("maximum_request_id_bytes", sizeJson maxRequestIdBytes)]),
    ("network_access", .bool false),
    ("persistent_writes", .bool false),
    ("runtime_invocation", .bool false)]

def entryJson (entry : ResolvedEntry) : Json :=
  .object [("byte_length", sizeJson entry.byteLength), ("class", .string entry.classId.text),
    ("overlay", .string entry.overlay.text), ("source", .string entry.source.text)]

def bundleJson (bundle : ResolvedBundle) : Json :=
  let manifest := bundle.composition.manifest
  .object [
    ("context_base64", .string (encodeBase64 bundle.composition.normalizedContext)),
    ("lock_base64", .string (encodeBase64 bundle.lockBytes)),
    ("manifest", .object [
      ("entries", .array (manifest.entries.map entryJson)),
      ("output_bytes", sizeJson manifest.outputBytes),
      ("pack", .string manifest.pack.text),
      ("profile", .string manifest.profile.text),
      ("schema", .string manifest.schemaFamily),
      ("source_bytes", sizeJson manifest.sourceBytes)]),
    ("output_digest", .string bundle.lockfile.manifest.output.digest)]

def driftJson : DriftKind → Json
  | .packMetadata => .object [("kind", .string "pack_metadata")]
  | .profileSelection => .object [("kind", .string "profile_selection")]
  | .overlaySet => .object [("kind", .string "overlay_set")]
  | .overlayContent index =>
      .object [("index", sizeJson index), ("kind", .string "overlay_content")]
  | .renderedOutput => .object [("kind", .string "rendered_output")]

def verifiedJson (verified : VerifiedBundle) : Json :=
  .object [("bundle", bundleJson verified.current),
    ("drifts", .array (verified.report.drifts.map driftJson)),
    ("verified", .bool verified.isVerified)]

/-- Printing a tree does not fail, so the emergency response is never used. -/
def encodeResponse (value : Json) : Bytes := value.toVec ++ [10]

def successResponse (requestId operation : String) (result : Json) : Json :=
  .object [("format", .string hostContractVersion), ("ok", .bool true),
    ("operation", .string operation), ("request_id", .string requestId), ("result", result)]

def errorResponse (requestId : Option String) (error : RpcError) : Json :=
  .object [
    ("error", .object [("code", .string error.kind.code), ("message", .string error.message)]),
    ("format", .string hostContractVersion), ("ok", .bool false),
    ("request_id", (requestId.map Json.string).getD .null)]

def successExecution (requestId operation : String) (result : Json) : Execution :=
  ⟨exitSuccess, encodeResponse (successResponse requestId operation result)⟩

def errorExecution (requestId : Option String) (error : RpcError) : Execution :=
  ⟨error.kind.exitCode, encodeResponse (errorResponse requestId error)⟩

/-! ## Receiving -/

/-- At most one byte beyond the maximum is read. -/
def readBounded (stdin : Stdin) (maximumBytes : Nat) : Except RpcError Bytes := do
  let bytes := stdin.bytes.take (maximumBytes + 1)
  rejectIf (bytes.length ≤ maximumBytes ∧ stdin.fails = true)
    ⟨.input, "failed to read request from stdin"⟩
  rejectIf (maximumBytes < bytes.length) ⟨.request, "request exceeds the configured byte limit"⟩
  rejectIf (bytes = []) ⟨.request, "request is empty"⟩
  pure bytes

def boundedParserMessage (message : String) : String := String.ofList (message.toList.take 256)

def parseRequest (adapter : Adapter) (bytes : Bytes) : Except String Request := do
  let value ← adapter.fromSlice bytes
  okOr (Request.ofJson value) (adapter.mismatch value)

/-- The request a stream holds. Its errors cannot name a request. -/
def receive (adapter : Adapter) (stdin : Stdin) : Except RpcError Request := do
  let bytes ← readBounded stdin maxRequestBytes
  (validateJsonDepth bytes maxJsonDepth).mapError (RpcError.mk .request)
  (parseRequest adapter bytes).mapError fun message => ⟨.request, boundedParserMessage message⟩

/-- The protocol and the length of the identifier. -/
def admitted (request : Request) : Except RpcError Unit := do
  rejectIf (request.protocol ≠ hostContractVersion) ⟨.request, "unsupported protocol `" ++
    request.protocol ++ "`; expected `" ++ hostContractVersion ++ "`"⟩
  rejectIf (request.requestId = "" ∨ maxRequestIdBytes < Text.byteLength request.requestId)
    ⟨.request, "request_id must contain between 1 and 128 bytes"⟩

/-! ## Executing -/

/-- A path as its components: empty ones and `.` are left out, unless it begins with `.`. -/
def pathOf (text : String) : PathBuf :=
  let pieces := Text.split '/' text.toList
  let front := if text.toList.head? = some '/' then [.rootDir]
    else if pieces.head? = some ['.'] then [.curDir] else []
  front ++ pieces.filterMap component
where
  component (piece : List Char) : Option Component :=
    if piece = [] ∨ piece = ['.'] then none
    else if piece = ['.', '.'] then some .parentDir
    else some (.normal (Text.utf8 piece))

/-- The parser a document is given to. -/
def parseDocument (adapter : Adapter) (extension text : String) :
    Except SchemaError OverlayPack :=
  if extension = "json" then Schema.parseJson adapter.json text
  else if extension = "yaml" ∨ extension = "yml" then Schema.parseYaml adapter.yaml text
  else if (text.toList.dropWhile Schema.isWhitespace).head? = some '\x7b' then
    Schema.parseJson adapter.json text
  else Schema.parseYaml adapter.yaml text

def loadPack (adapter : Adapter) (path : PathBuf) :
    Except RpcError (OverlayPack × OverlaySource) := do
  let parent := (pathParent path).getD [.curDir]
  let fileName ← okOr ((pathFileName path).bind Text.fromUtf8)
    ⟨.input, "pack path must name a UTF-8 file"⟩
  let relative ← (PackRelativePath.parse fileName).mapError fun _ =>
    ⟨.input, "pack file name violates the portable path policy"⟩
  let source ← (adapter.openRoot parent).mapError fun error =>
    ⟨.input, adapter.wording.root error⟩
  let bytes ← (source relative (UInt64.ofNat maxPackBytes)).mapError fun failure =>
    ⟨.input, "pack input `" ++ failure.path.text ++ "` was rejected: " ++
      sourceFailureText failure.kind⟩
  let text ← okOr (Text.fromUtf8 bytes) ⟨.input, "pack document must be valid UTF-8"⟩
  let pack ← (parseDocument adapter (pathExtension path) text).mapError fun error =>
    ⟨.validation, adapter.wording.schema error⟩
  pure (pack, source)

def parseProfile (value : String) : Except RpcError Identifier :=
  (Identifier.parse value).mapError fun _ => ⟨.validation, "profile identifier is invalid"⟩

def mapHostError (adapter : Adapter) : HostError → RpcError
  | .composition error => ⟨.composition, adapter.wording.composition error⟩
  | .integrity error => ⟨.integrity, adapter.wording.integrity error⟩

/-- The JSON library as the lock decoder uses it. -/
def Adapter.readJson (adapter : Adapter) (bytes : Bytes) : Option Json :=
  (adapter.fromSlice bytes).toOption

def executeResolve (adapter : Adapter) (pack profile : String) : Except RpcError Json := do
  let (pack, source) ← loadPack adapter (pathOf pack)
  let profile ← parseProfile profile
  let bundle ← (resolveBundle pack profile source .default).mapError (mapHostError adapter)
  pure (bundleJson bundle)

def executeVerify (adapter : Adapter) (pack profile expectedLockBase64 : String) :
    Except RpcError Json := do
  let lockBytes ← (decodeBase64 expectedLockBase64).mapError (RpcError.mk .request)
  rejectIf (maxLockfileBytes < lockBytes.length)
    ⟨.integrity, "decoded expected lock exceeds the configured byte limit"⟩
  let expected ← (decodeLockfile adapter.readJson lockBytes).mapError fun error =>
    ⟨.integrity, adapter.wording.integrity error⟩
  let (pack, source) ← loadPack adapter (pathOf pack)
  let profile ← parseProfile profile
  let verified ← (verifyBundle expected pack profile source .default).mapError
    (mapHostError adapter)
  pure (verifiedJson verified)

/-- The result of a request, to be sent under the name of its operation. -/
def executeRequest (adapter : Adapter) : Request → Except RpcError Json
  | .capabilities .. => pure capabilities
  | .resolve _ _ pack profile => executeResolve adapter pack profile
  | .verify _ _ pack profile expectedLockBase64 =>
      executeVerify adapter pack profile expectedLockBase64

def execute (adapter : Adapter) (stdin : Stdin) : Execution :=
  match receive adapter stdin with
  | .error error => errorExecution none error
  | .ok request =>
      match (do admitted request; executeRequest adapter request) with
      | .error error => errorExecution (some request.requestId) error
      | .ok result => successExecution request.requestId request.operation result

theorem execute_eq_success {adapter : Adapter} {stdin : Stdin} {request : Request} {result : Json}
    (hreceive : receive adapter stdin = .ok request) (hadmitted : admitted request = .ok ())
    (hresult : executeRequest adapter request = .ok result) : execute adapter stdin =
      successExecution request.requestId request.operation result := by
  have hrun : (do admitted request; executeRequest adapter request) = .ok result := by
    rw [hadmitted]
    exact hresult
  simp only [execute, hreceive, hrun]

/-! ## An adapter over compact documents -/

/-- The document library on the texts that are compact JSON. -/
def compactReader : Schema.JsonReader where
  present text := match Json.read text.toList with
    | some j => .ofJson j
    | none => .unreadable "expected value at line 1 column 1"
  trailing _ := none
  report _ _ marker := marker ++ " at line 1 column 1"
  envelope text := okOr ((Json.read text.toList).bind Schema.readEnvelope) "missing field"
  document text := okOr ((Json.read text.toList).bind Schema.PackDocument.ofJson) "missing field"

/-- The adapter over local packs, as far as documents are compact JSON. -/
def compactAdapter (openRoot : PathBuf → Except LocalPackSourceError OverlaySource) : Adapter where
  fromSlice bytes := okOr (Json.readBytes bytes) "expected value at line 1 column 1"
  mismatch _ := "data did not match"
  json := compactReader
  yaml := ⟨fun _ => [], fun _ _ marker => marker, fun _ => .error "", fun _ => .error ""⟩
  openRoot := openRoot
  wording := ⟨fun _ => "", fun _ => "", fun _ => "", fun _ => ""⟩

variable {openRoot : PathBuf → Except LocalPackSourceError OverlaySource}

theorem compactAdapter_fromSlice {j : Json} (h : j.printable Json.readerDepth = true) :
    (compactAdapter openRoot).fromSlice j.toVec = .ok j := by
  show okOr (Json.readBytes j.toVec) _ = _
  rw [Json.readBytes_readsCompact.roundTrip j h]
  rfl

theorem compactAdapter_readsCompact : Json.ReadsCompact (compactAdapter openRoot).readJson where
  roundTrip j hj := by
    rw [Adapter.readJson, compactAdapter_fromSlice hj]
    rfl

end Invokrum.Rpc
