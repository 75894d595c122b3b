import Invokrum.Archive.Source
import Invokrum.Distribution.ManifestJson
import Invokrum.Distribution.Trust
import Invokrum.Install.Record

/-!
# Texts of the errors

What the errors of an installation say, as they are displayed.
-/

namespace Invokrum

open Invokrum.Distribution

def Distribution.DistributionError.text : DistributionError → String
  | .invalidPath => "invalid bundle-relative path"
  | .invalidDigest => "invalid SHA-256 digest"
  | .unsupportedBundleFormat => "unsupported bundle format"
  | .unsupportedDigestAlgorithm => "unsupported bundle digest algorithm"
  | .emptyBundle => "bundle must contain at least one file"
  | .tooManyFiles => "bundle contains too many files"
  | .duplicatePath => "bundle contains a duplicate file path"
  | .fileTooLarge => "bundle file exceeds configured size limit"
  | .bundleTooLarge => "bundle expanded size exceeds configured limit"
  | .entryPointMissing => "bundle entry point is not an enumerated file"
  | .invalidVerificationMechanism => "invalid verification mechanism"
  | .emptyPublisherIdentity => "publisher identity must contain attributes"
  | .tooManyIdentityAttributes => "publisher identity has too many attributes"
  | .invalidIdentityAttributeName => "invalid publisher identity attribute name"
  | .invalidIdentityAttributeValue => "invalid publisher identity attribute value"
  | .duplicateIdentityAttribute => "duplicate publisher identity attribute"
  | .emptyTrustPolicy => "host trust policy must contain at least one rule"
  | .tooManyTrustRules => "host trust policy contains too many rules"

def Distribution.TrustError.text : TrustError → String
  | .subjectMismatch => "signed subject does not match expected bundle subject"
  | .publisherNotAllowed => "publisher identity is not allowed by host trust policy"

def Distribution.BundleJsonError.text : BundleJsonError → String
  | .inputTooLarge => "bundle manifest exceeds maximum input bytes"
  | .duplicateKey => "bundle manifest contains a duplicate JSON object key"
  | .malformedJson => "bundle manifest is malformed JSON or has unknown fields"
  | .validation _ => "bundle manifest violates distribution invariants"
  | .nonCanonical => "bundle manifest is not exact canonical JSON"
  | .canonicalization => "bundle manifest canonicalization failed"

def Acquisition.CandidateVerificationError.text : Acquisition.CandidateVerificationError → String
  | .subjectMismatch => "bundle subject does not match expected subject"
  | .tooManyFiles => "candidate contains too many files"
  | .fileTooLarge path => "candidate file exceeds v1 size limit: " ++ path.text
  | .bundleTooLarge => "candidate aggregate bytes exceed v1 size limit"
  | .duplicatePath path => "candidate contains duplicate path: " ++ path.text
  | .missingFile path => "candidate is missing declared file: " ++ path.text
  | .undeclaredFile path => "candidate contains undeclared file: " ++ path.text
  | .lengthMismatch path _ _ => "candidate byte length differs from manifest: " ++ path.text
  | .digestMismatch path => "candidate digest differs from manifest: " ++ path.text

def Archive.ArchiveCandidateError.text : Archive.ArchiveCandidateError → String
  | .archiveTooLarge => "archive exceeds the bounded ustar input limit"
  | .compressedArchiveUnsupported =>
      "compressed archives are unsupported by the initial bounded ustar profile"
  | .truncatedArchive => "archive is truncated"
  | .trailingData => "archive contains trailing or concatenated data"
  | .malformedHeader => "archive contains a malformed ustar header"
  | .headerChecksumMismatch => "archive header checksum does not match"
  | .unsupportedArchiveFormat => "archive is not the supported POSIX ustar profile"
  | .unsupportedMetadata => "archive contains unsupported or ambiguous metadata"
  | .unsupportedEntryType => "archive contains a prohibited entry type"
  | .invalidEntryName => "archive contains an invalid bundle entry name"
  | .logicalPathCollision path =>
      "archive contains a duplicate or case-colliding path: " ++ path.text
  | .undeclaredEntry path => "archive contains an undeclared entry: " ++ path.text
  | .missingDeclaredFile path => "archive is missing a declared file: " ++ path.text
  | .fileTooLarge path => "archive entry exceeds the v1 per-file bound: " ++ path.text
  | .tooManyEntries => "archive contains too many entries"
  | .metadataLimitExceeded => "archive metadata exceeds the deterministic bound"
  | .nestingLimitExceeded path => "archive entry exceeds the nesting bound: " ++ path.text
  | .expandedBytesLimitExceeded => "archive expanded bytes exceed the deterministic bound"

def Install.LocalCandidateError.text : Install.LocalCandidateError → String
  | .unsupportedPlatform => "local candidate loading is supported on Linux only"
  | .procUnavailable => "Linux procfs file-descriptor inspection is unavailable"
  | .rootUnavailable => "candidate root is unavailable"
  | .rootSymlink => "candidate root must not be a symbolic link"
  | .rootNotDirectory => "candidate root must be a directory"
  | .rootChanged => "candidate root identity changed"
  | .treeChanged => "candidate tree changed during inspection"
  | .traversalLimitExceeded => "candidate tree exceeds adapter traversal limits"
  | .invalidEntryName => "candidate tree contains an unsupported entry name"
  | .logicalPathCollision => "candidate tree contains colliding logical paths"
  | .deviceBoundary => "candidate tree crosses a filesystem device boundary"
  | .symbolicLink path => "symbolic link is prohibited: " ++ path.text
  | .hardLinkedFile path => "hard-linked file is prohibited: " ++ path.text
  | .nonRegularFile path => "non-regular entry is prohibited: " ++ path.text
  | .undeclaredEntry path => "undeclared candidate entry: " ++ path.text
  | .missingDeclaredFile path => "declared candidate file is missing: " ++ path.text
  | .fileTooLarge path => "candidate file exceeds permitted size limit: " ++ path.text
  | .openFailed path => "candidate file could not be opened safely: " ++ path.text
  | .readFailed path => "candidate file could not be read safely: " ++ path.text
  | .fileChanged path => "candidate file changed during read: " ++ path.text
  | .rootEscape path => "opened candidate file escaped the pinned root: " ++ path.text

def Install.LinuxInstallStoreError.text : Install.LinuxInstallStoreError → String
  | .unsupportedPlatform => "local installation is supported on Linux only"
  | .procUnavailable => "Linux procfs file-descriptor inspection is unavailable"
  | .rootUnavailable => "installation-store root is unavailable"
  | .rootSymbolicLink => "installation-store root must not be a symbolic link"
  | .rootNotDirectory => "installation-store root must be a directory"
  | .storeChanged => "installation-store root changed during installation"
  | .storePathUnsafe => "installation-store path or permissions are unsafe"
  | .reservedMetadataPath => "bundle collides with the reserved installation-record path"
  | .subjectLocked => "bundle subject is already being installed"
  | .stagingUnavailable => "no private quarantine directory could be created"
  | .materializationConflict path =>
      "verified bundle paths conflict during materialization: " ++ path.text
  | .manifestReconstruction => "verified bundle could not be reconstructed as a bundle manifest"
  | .recordSerialization => "installation record could not be serialized"
  | .recordTooLarge => "installation record exceeds its bounded evidence limit"
  | .publisherSubjectMismatch =>
      "authorized publisher subject does not match verified bundle subject"
  | .stageVerification error => "staged installation failed verification: " ++ error.text
  | .contentVerification error => "staged bundle content failed verification: " ++ error.text
  | .recordMismatch => "installation record differs from expected evidence"
  | .existingInstallationMismatch =>
      "existing subject installation is missing, unsafe, or does not match the verified bundle"
  | .io => "installation-store filesystem operation failed"

end Invokrum
