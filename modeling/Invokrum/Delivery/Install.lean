import Invokrum.Archive.UstarExact
import Invokrum.Cli.HumanOutput
import Invokrum.Delivery.Arguments
import Invokrum.Delivery.Store
import Invokrum.Delivery.Texts
import Invokrum.Install.Workflow
import Invokrum.Verifier.Ed25519

/-!
# The install command

The command reads its inputs, checks the subject and hands the verified bundle
to a store. Its ports are the signature adapter, the loader of the candidate
format and the store at the given path.
-/

namespace Invokrum.Delivery

open Programs Outcome Invokrum.Distribution Invokrum.Acquisition Invokrum.Install
open Archive (ArchiveCandidateError UstarCandidateSource parseUstar_returns)
open Slice (Halt Returns)
open Verifier (Ed25519 VerificationError identityKeySha256 publicKeyBytes signatureBytes)
open Cli (InstallOutcome PublisherOutcome joinPath)
open Text (Bytes)

/-! ## The host -/

structure FileMetadata where
  isFile : Bool
  length : Nat
deriving DecidableEq

/-- An opened file: its metadata and its contents, where they can be had. -/
structure InputFile where
  metadata : Option FileMetadata
  content : Option Bytes
deriving DecidableEq

/-- What the command finds outside the store: files and directories that stay as they are while
it runs, environment variables, the signature library and the JSON reader. -/
structure Host (Key : Type) where
  file : Bytes → Option InputFile
  directory : Bytes → Directory.Tree
  xdgDataHome : Option Bytes
  home : Option Bytes
  library : Ed25519 Key
  fromSlice : Bytes → Except Json Json

variable {Key : Type}

namespace InstallError

def input (message : String) : InstallError := ⟨.input, message⟩

def validation (message : String) : InstallError := ⟨.validation, message⟩

def output (message : String) : InstallError := ⟨.output, message⟩

def internal (message : String) : InstallError := ⟨.internal, message⟩

end InstallError

def maxCliArchiveBytes : Nat := 37748736

def readBoundedFile (host : Host Key) (path : Bytes) (maximumBytes : Nat) (label : String) :
    Except InstallError Bytes := do
  let file ← okOr (host.file path) (.input (label ++ " is unavailable: " ++ displayPath path))
  let metadata ← okOr file.metadata
    (.input (label ++ " metadata is unavailable: " ++ displayPath path))
  rejectIf (metadata.isFile = false)
    (.input (label ++ " must be a regular file: " ++ displayPath path))
  rejectIf (maximumBytes < metadata.length)
    (.input (label ++ " exceeds " ++ toString maximumBytes ++ " bytes"))
  let content ← okOr file.content (.input (label ++ " could not be read: " ++ displayPath path))
  let bytes := content.take (maximumBytes + 1)
  rejectIf (maximumBytes < bytes.length)
    (.input (label ++ " exceeds " ++ toString maximumBytes ++ " bytes"))
  pure bytes

def readExactFile (host : Host Key) (path : Bytes) (expectedBytes : Nat) (label : String) :
    Except InstallError Bytes := do
  let bytes ← readBoundedFile host path expectedBytes label
  rejectIf (bytes.length ≠ expectedBytes)
    (.validation (label ++ " must contain exactly " ++ toString expectedBytes ++ " bytes"))
  pure bytes

def digestPrefix : List Char := "sha256:".toList

/-- `value.strip_prefix("sha256:").unwrap_or(value)` -/
def digestText (value : String) : String :=
  if digestPrefix.isPrefixOf value.toList then
    String.ofList (value.toList.drop digestPrefix.length)
  else value

def parseDigestArgument (value option : String) : Except InstallError Sha256Digest :=
  (Sha256Digest.parse (digestText value)).mapError fun _ => .usage
    (option ++ " must be sha256:<64 lowercase hex> or the raw lowercase digest")

/-- A policy with one rule: the assertion names this key. -/
def singleEd25519Policy (keySha256 : Sha256Digest) : Except InstallError TrustPolicy := do
  let mechanism ← (VerificationMechanism.parse Verifier.verificationMechanism).mapError fun error =>
    .internal ("invalid built-in verifier identifier: " ++ error.text)
  let identity ← (PublisherIdentity.new [(identityKeySha256, keySha256.text)]).mapError fun error =>
    .internal ("invalid built-in trust identity: " ++ error.text)
  (TrustPolicy.new [⟨mechanism, identity⟩]).mapError fun error =>
    .internal ("invalid explicit trust policy: " ++ error.text)

/-! ## The default store -/

def isAbsolute (path : Bytes) : Bool := path.head? = some 47

def dataHomeFrom (xdgDataHome home : Option Bytes) : Except InstallError Bytes :=
  match xdgDataHome.filter isAbsolute with
  | some path => .ok path
  | none =>
      match home.filter isAbsolute with
      | some home => .ok (joinPath (joinPath home ".local") "share")
      | none => .error (.input ("cannot resolve default store: set an absolute XDG_DATA_HOME " ++
          "or HOME, or pass --store"))

def defaultStoreRoot (host : Host Key) : Except InstallError Bytes := do
  let dataHome ← dataHomeFrom host.xdgDataHome host.home
  pure (joinPath (joinPath dataHome "invokrum") "store")

/-! ## Ports -/

structure CliCandidateLoader where
  path : Bytes
  format : CandidateFormat
deriving DecidableEq

inductive CliCandidateLoadError where
  | directory (error : LocalCandidateError)
  | archiveInput (message : String)
  | archive (error : ArchiveCandidateError)
deriving DecidableEq

def CliCandidateLoadError.text : CliCandidateLoadError → String
  | .directory error => error.text
  | .archiveInput message => message
  | .archive error => error.text

def CliInstallStoreError.text : CliInstallStoreError → String
  | .prepare message => message
  | .store error => error.text

/-- The result of a body that neither panics nor runs forever. -/
def returned {ε α : Type} (x : Except (Halt ε) α) (h : Returns x) : Except ε α :=
  match x with
  | .ok a => .ok a
  | .error (.returned e) => .error e
  | .error .panic => False.elim (by obtain ⟨e, he⟩ := h _ rfl; cases he)
  | .error .diverge => False.elim (by obtain ⟨e, he⟩ := h _ rfl; cases he)

def CliCandidateLoader.load (loader : CliCandidateLoader) (host : Host Key)
    (manifest : BundleManifest) : Except CliCandidateLoadError (List CandidateFile) :=
  match loader.format with
  | .directory =>
      (Directory.loadCandidate (host.directory loader.path) manifest none).mapError .directory
  | .ustar => do
      let bytes ← (readBoundedFile host loader.path maxCliArchiveBytes "ustar candidate").mapError
        fun error => .archiveInput error.message
      let source ← (UstarCandidateSource.new bytes).mapError .archive
      (returned (source.load manifest) (parseUstar_returns source.bytes manifest)).mapError .archive

/-- Key and signature as the adapter gets them. -/
structure CliEd25519Verifier where
  publicKey : Bytes
  signature : Bytes
deriving DecidableEq

abbrev PortReply : PortCall → Type :=
  PortCall.Reply VerificationError CliCandidateLoadError CliInstallStoreError StoreReceipt

/-- The ports of the command: the store at `root` is the only one with effects. -/
def ports (host : Host Key) (verifier : CliEd25519Verifier) (loader : CliCandidateLoader)
    (root : Bytes) : Handler PortCall PortReply RootCall RootReply
  | .verify subject =>
      .done (Verifier.verify host.library subject verifier.publicKey verifier.signature)
  | .load manifest => .done (loader.load host manifest)
  | .install bundle => (installInto root bundle none).run
  | .installAuthenticated bundle publisher => (installInto root bundle (some publisher)).run

/-! ## Errors -/

def mapInstallError :
    InstallWorkflowError CliCandidateLoadError CliInstallStoreError → InstallError
  | .verification error => .validation ("candidate verification failed: " ++ error.text)
  | .load error => .input ("candidate loading failed: " ++ error.text)
  | .store error => .output ("bundle installation failed: " ++ error.text)

def mapAuthenticatedInstallError :
    AuthenticatedInstallWorkflowError VerificationError CliCandidateLoadError
      CliInstallStoreError → InstallError
  | .candidateVerification error => .validation ("candidate verification failed: " ++ error.text)
  | .publisherVerification error => .validation ("publisher verification failed: " ++ error.text)
  | .publisherAuthorization error => .validation ("publisher authorization failed: " ++ error.text)
  | .load error => .input ("candidate loading failed: " ++ error.text)
  | .store error => .output ("bundle installation failed: " ++ error.text)

/-! ## The command -/

def outcome (receipt : StoreReceipt) (installationFormat : String) (publisher : PublisherOutcome) :
    InstallOutcome :=
  Cli.outcome receipt.store receipt.installed installationFormat publisher

/-- No signature is asked for, so the ports need no key. -/
def installDigestOnly (host : Host Key) (loader : CliCandidateLoader) (root : Bytes)
    (manifest : BundleManifest) (manifestSubject expectedSubject : Sha256Digest) :
    RootProgram InstallError InstallOutcome := do
  let receipt ← Fallible.withError mapInstallError
    (Fallible.handle (ports host ⟨[], []⟩ loader root)
      (installCandidate manifest manifestSubject expectedSubject))
  pure (outcome receipt installationRecordFormat .notProvided)

def installAuthenticated (host : Host Key) (loader : CliCandidateLoader) (root : Bytes)
    (manifest : BundleManifest) (manifestSubject expectedSubject : Sha256Digest)
    (publisher : PublisherInputs) : RootProgram InstallError InstallOutcome := do
  let publicKey ← Fallible.ofExcept
    (readExactFile host publisher.publicKey publicKeyBytes "Ed25519 publisher public key")
  let signature ← Fallible.ofExcept
    (readExactFile host publisher.signature signatureBytes "Ed25519 publisher signature")
  let trustedKeySha256 ← Fallible.ofExcept
    (parseDigestArgument publisher.trustedKeySha256 "--trusted-key-sha256")
  let policy ← Fallible.ofExcept (singleEd25519Policy trustedKeySha256)
  let receipt ← Fallible.withError mapAuthenticatedInstallError
    (Fallible.handle (ports host ⟨publicKey, signature⟩ loader root)
      (installAuthenticatedCandidate policy manifest manifestSubject expectedSubject))
  pure (outcome receipt authenticatedInstallationRecordFormat
    (.verifiedAndAuthorized trustedKeySha256.text))

def subjectMismatch (manifestSubject expectedSubject : Sha256Digest) : String :=
  "bundle subject mismatch: manifest is sha256:" ++ manifestSubject.text ++
    " but --subject is sha256:" ++ expectedSubject.text

/-- The store that the arguments or the environment name. -/
def storeRoot (host : Host Key) (args : InstallArgs) : Except InstallError Bytes :=
  match args.store with
  | some root => .ok root
  | none => defaultStoreRoot host

/-- The manifest file, decoded. -/
def readManifest (host : Host Key) (args : InstallArgs) : Except InstallError BundleManifest := do
  let manifestBytes ← readBoundedFile host args.bundleManifest maxBundleManifestBytes
    "bundle manifest"
  (decodeBundleManifest host.fromSlice manifestBytes .default).mapError fun error =>
    .validation ("invalid canonical bundle manifest: " ++ error.text)

def install (host : Host Key) (args : InstallArgs) : RootProgram InstallError InstallOutcome := do
  let manifest ← Fallible.ofExcept (readManifest host args)
  let manifestSubject ← Fallible.ofExcept ((bundleSubjectDigest manifest).mapError fun error =>
    .internal ("could not derive canonical bundle subject: " ++ error.text))
  let expectedSubject ← Fallible.ofExcept (parseDigestArgument args.subject "--subject")
  Fallible.throwIf (manifestSubject ≠ expectedSubject)
    (.validation (subjectMismatch manifestSubject expectedSubject))
  let root ← Fallible.ofExcept (storeRoot host args)
  let loader : CliCandidateLoader := ⟨args.candidate, args.candidateFormat⟩
  match args.publisher with
  | none => installDigestOnly host loader root manifest manifestSubject expectedSubject
  | some publisher =>
      installAuthenticated host loader root manifest manifestSubject expectedSubject publisher

end Invokrum.Delivery
