import Invokrum.Acquisition.Candidate
import Invokrum.Archive.ExpectedTree
import Invokrum.Base.Loop

/-!
# The ustar parser

One cursor loop over the blocks of an archive. Each step either meets the
trailer, or takes one header together with the data and the padding after it.
-/

namespace Invokrum.Archive

open Outcome Slice Machine Loop Invokrum.Distribution
open Acquisition (CandidateFile)
open Text (Bytes)

def maxUstarEntries : Nat := 1024

def maxUstarNesting : Nat := 64

def maxUstarMetadataBytes : Nat := (maxUstarEntries + 2) * ustarBlockBytes

structure ParserLimits where
  entries : Nat
  metadataBytes : Nat
  expandedBytes : Nat
  nesting : Nat

def ParserLimits.default : ParserLimits where
  entries := maxUstarEntries
  metadataBytes := maxUstarMetadataBytes
  expandedBytes := maxBundleExpandedBytes
  nesting := maxUstarNesting

/-- The variables of the loop. -/
structure ParserState where
  cursor : Nat
  collisionKeys : List (List Char)
  observedFiles : List BundlePath
  candidates : List CandidateFile
  entryCount : Nat
  metadataBytes : Nat
  expandedBytes : Nat

def ParserState.initial : ParserState := ⟨0, [], [], [], 0, 0, 0⟩

/-! ## One step -/

def isZeroBlock (block : Bytes) : Bool := block.all (· == 0)

def addMetadataBytes (metadataBytes additionalBytes limit : Nat) : Parse Nat := do
  let total ← okOr (checkedAdd metadataBytes additionalBytes) (.returned .metadataLimitExceeded)
  rejectIf (limit < total) (.returned .metadataLimitExceeded)
  pure total

/-- Whether the trailer starts at this block. -/
def archiveTerminated (archive block : Bytes) (blockEnd metadataBytes metadataLimit : Nat) :
    Parse Bool :=
  if isZeroBlock block = false then pure false
  else do
    let secondEnd ← okOr (checkedAdd blockEnd ustarBlockBytes) (.returned .truncatedArchive)
    let second ← okOr (getRange archive blockEnd secondEnd) (.returned .truncatedArchive)
    rejectIf (isZeroBlock second = false) (.returned .malformedHeader)
    let _ ← addMetadataBytes metadataBytes (ustarBlockBytes * 2) metadataLimit
    let rest ← indexRange archive secondEnd archive.length
    rejectIf (rest.any (· != 0) = true) (.returned .trailingData)
    pure true

/-- The number of slashes of a path. -/
def nesting (path : BundlePath) : Nat := (Text.bytes path.text).count 47

/-- Counts a header and checks it against the limits, the keys so far and the tree. -/
def acceptHeader (expected : ExpectedTree) (limits : ParserLimits) (state : ParserState)
    (block : Bytes) : Parse (ParsedHeader × ParserState) := do
  let entryCount ← okOr (checkedAdd state.entryCount 1) (.returned .tooManyEntries)
  rejectIf (limits.entries < entryCount) (.returned .tooManyEntries)
  let metadataBytes ← addMetadataBytes state.metadataBytes ustarBlockBytes limits.metadataBytes
  let header ← parseHeader block
  rejectIf (limits.nesting < nesting header.path) (.returned (.nestingLimitExceeded header.path))
  let key := logicalKey header.path
  rejectIf (key ∈ state.collisionKeys) (.returned (.logicalPathCollision header.path))
  rejectIf (expected.contains header.path header.kind = false)
    (.returned (.undeclaredEntry header.path))
  pure (header, { state with
    collisionKeys := key :: state.collisionKeys
    entryCount := entryCount
    metadataBytes := metadataBytes })

/-- The data and the padding of a file entry. -/
def takeFile (archive : Bytes) (limits : ParserLimits) (header : ParsedHeader)
    (state : ParserState) (blockEnd : Nat) : Parse ParserState := do
  rejectIf (maxBundleFileBytes < header.size) (.returned (.fileTooLarge header.path))
  let expandedBytes ← okOr (checkedAdd state.expandedBytes header.size)
    (.returned .expandedBytesLimitExceeded)
  rejectIf (limits.expandedBytes < expandedBytes) (.returned .expandedBytesLimitExceeded)
  let dataEnd ← okOr (checkedAdd blockEnd header.size) (.returned .truncatedArchive)
  let data ← okOr (getRange archive blockEnd dataEnd) (.returned .truncatedArchive)
  -- `div_ceil` times the block size is an unchecked multiplication
  let paddedLength ← okOr
    (checkedMul ((header.size + (ustarBlockBytes - 1)) / ustarBlockBytes) ustarBlockBytes) .panic
  let paddedEnd ← okOr (checkedAdd blockEnd paddedLength) (.returned .truncatedArchive)
  let padding ← okOr (getRange archive dataEnd paddedEnd) (.returned .truncatedArchive)
  rejectIf (padding.any (· != 0) = true) (.returned .unsupportedMetadata)
  let candidate ← (CandidateFile.new header.path data).mapError
    fun _ => .returned (.fileTooLarge header.path)
  pure { state with
    cursor := paddedEnd
    observedFiles := header.path :: state.observedFiles
    candidates := state.candidates ++ [candidate]
    expandedBytes := expandedBytes }

/-- The body of the loop. -/
def parseStep (archive : Bytes) (expected : ExpectedTree) (limits : ParserLimits)
    (state : ParserState) : Parse (Option ParserState) := do
  let blockEnd ← okOr (checkedAdd state.cursor ustarBlockBytes) (.returned .truncatedArchive)
  let block ← okOr (getRange archive state.cursor blockEnd) (.returned .truncatedArchive)
  if ← archiveTerminated archive block blockEnd state.metadataBytes limits.metadataBytes then
    pure none
  else do
    let (header, state) ← acceptHeader expected limits state block
    if header.kind = .directory then do
      rejectIf (header.size ≠ 0) (.returned .unsupportedMetadata)
      pure (some { state with cursor := blockEnd })
    else do
      let state ← takeFile archive limits header state blockEnd
      pure (some state)

/-! ## The whole archive -/

def ensureAllDeclaredFilesObserved (manifest : BundleManifest)
    (observedFiles : List BundlePath) : Parse Unit :=
  forEach (fun declared => rejectIf (declared.path ∉ observedFiles)
    (.returned (.missingDeclaredFile declared.path))) manifest.files

/-- The loop takes at least one block a step, so this fuel is never used up. -/
def parseUstar (archive : Bytes) (manifest : BundleManifest) (limits : ParserLimits) :
    Parse (List CandidateFile) := do
  rejectIf (archive.length < ustarBlockBytes * 2 ∨ archive.length % ustarBlockBytes ≠ 0)
    (.returned .truncatedArchive)
  let expected ← ExpectedTree.fromManifest manifest
  let final ← runLoop (parseStep archive expected limits) (archive.length / ustarBlockBytes + 1)
    .initial
  ensureAllDeclaredFilesObserved manifest final.observedFiles
  pure final.candidates

end Invokrum.Archive
