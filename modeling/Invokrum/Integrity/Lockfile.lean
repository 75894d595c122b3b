import Invokrum.Base.JsonFields
import Invokrum.Digest.Sha256
import Invokrum.Integrity.Canonical

/-!
# Lockfiles

Builder, encoder, decoder and verifier share one validation. `Lockfile.Valid`
states what it accepts; `buildLockfile_eq_ok` splits a successful build into the
lock material and the two checks made on it.
-/

namespace Invokrum.Integrity

open Invokrum.Core Outcome
open Text (Bytes)
open Digest (validSha256)

def lockfileFormat : String := "invokrum.lock/v1"

def canonicalizationFormat : String := "invokrum.canonical-json/v1"

def sha256Algorithm : String := "sha256"

def maxLockfileBytes : Nat := 1048576

def maxLockedOverlays : Nat := 256

/-- Injected content-digest capability. -/
structure Digester where
  algorithm : String
  digest : Bytes → String

def sha256Digester : Digester := ⟨sha256Algorithm, Digest.sha256LowerHex⟩

/-! ## Lock material -/

structure LockedPack where
  id : String
  schema : String
  digest : String
deriving DecidableEq

structure LockedProfile where
  id : String
  digest : String
deriving DecidableEq

structure LockedOverlay where
  classId : String
  id : String
  source : String
  byteLength : UInt64
  digest : String
deriving DecidableEq

structure LockedOutput where
  byteLength : UInt64
  digest : String
deriving DecidableEq

structure LockedManifest where
  engineInputsDigest : String
  pack : LockedPack
  profile : LockedProfile
  overlays : List LockedOverlay
  output : LockedOutput
deriving DecidableEq

structure Lockfile where
  format : String
  canonicalization : String
  digestAlgorithm : String
  manifest : LockedManifest
  manifestDigest : String
deriving DecidableEq

inductive IntegrityError where
  | unknownProfile
  | inconsistentComposition
  | encode
  | decode
  | lockfileTooLarge
  | tooManyOverlays
  | nonCanonicalEncoding
  | invalidIdentity
  | unsupportedFormat
  | unsupportedCanonicalization
  | unsupportedDigestAlgorithm
  | invalidDigest
  | lockfileIntegrityMismatch
deriving DecidableEq

/-! ## Serialized form -/

def LockedPack.toJson (p : LockedPack) : Json :=
  .object [("id", .string p.id), ("schema", .string p.schema), ("digest", .string p.digest)]

def LockedProfile.toJson (p : LockedProfile) : Json :=
  .object [("id", .string p.id), ("digest", .string p.digest)]

def LockedOverlay.toJson (o : LockedOverlay) : Json :=
  .object [("class", .string o.classId), ("id", .string o.id), ("source", .string o.source),
    ("byte_length", Json.ofUInt64 o.byteLength), ("digest", .string o.digest)]

def LockedOutput.toJson (o : LockedOutput) : Json :=
  .object [("byte_length", Json.ofUInt64 o.byteLength), ("digest", .string o.digest)]

def LockedManifest.toJson (m : LockedManifest) : Json :=
  .object [("engine_inputs_digest", .string m.engineInputsDigest), ("pack", m.pack.toJson),
    ("profile", m.profile.toJson), ("overlays", .array (m.overlays.map LockedOverlay.toJson)),
    ("output", m.output.toJson)]

def Lockfile.toJson (l : Lockfile) : Json :=
  .object [("format", .string l.format), ("canonicalization", .string l.canonicalization),
    ("digest_algorithm", .string l.digestAlgorithm), ("manifest", l.manifest.toJson),
    ("manifest_digest", .string l.manifestDigest)]

/-- The digested material of `EngineInputs`. -/
def engineInputsJson (packDigest profileDigest : String) (overlays : List LockedOverlay) : Json :=
  .object [("pack_digest", .string packDigest), ("profile_digest", .string profileDigest),
    ("overlays", .array (overlays.map LockedOverlay.toJson))]

/-! ## Validation -/

def digestEngineInputs (digester : Digester) (packDigest profileDigest : String)
    (overlays : List LockedOverlay) : String :=
  digester.digest (engineInputsJson packDigest profileDigest overlays).toVec

def validateOverlayIdentity (overlay : LockedOverlay) : Except IntegrityError Unit := do
  let _ ← (Identifier.parse overlay.classId).mapError fun _ => .invalidIdentity
  let _ ← (Identifier.parse overlay.id).mapError fun _ => .invalidIdentity
  let _ ← (PackRelativePath.parse overlay.source).mapError fun _ => .invalidIdentity
  pure ()

def validateIdentities (lockfile : Lockfile) : Except IntegrityError Unit := do
  let _ ← (Identifier.parse lockfile.manifest.pack.id).mapError fun _ => .invalidIdentity
  let _ ← (Identifier.parse lockfile.manifest.profile.id).mapError fun _ => .invalidIdentity
  forEach validateOverlayIdentity lockfile.manifest.overlays

def Lockfile.digests (lockfile : Lockfile) : List String :=
  [lockfile.manifest.engineInputsDigest, lockfile.manifest.pack.digest,
      lockfile.manifest.profile.digest]
    ++ lockfile.manifest.overlays.map (·.digest)
    ++ [lockfile.manifest.output.digest, lockfile.manifestDigest]

def validateDigests (lockfile : Lockfile) : Except IntegrityError Unit :=
  rejectIf (¬ lockfile.digests.all validSha256) .invalidDigest

def validateLockfile (lockfile : Lockfile) (digester : Digester) :
    Except IntegrityError Unit := do
  rejectIf (lockfile.format ≠ lockfileFormat) .unsupportedFormat
  rejectIf (lockfile.canonicalization ≠ canonicalizationFormat) .unsupportedCanonicalization
  rejectIf (lockfile.digestAlgorithm ≠ sha256Algorithm ∨ digester.algorithm ≠ sha256Algorithm)
    .unsupportedDigestAlgorithm
  rejectIf (maxLockedOverlays < lockfile.manifest.overlays.length) .tooManyOverlays
  validateIdentities lockfile
  validateDigests lockfile
  let expectedInputs := digestEngineInputs digester lockfile.manifest.pack.digest
    lockfile.manifest.profile.digest lockfile.manifest.overlays
  rejectIf (expectedInputs ≠ lockfile.manifest.engineInputsDigest) .lockfileIntegrityMismatch
  let expectedManifest := digester.digest lockfile.manifest.toJson.toVec
  rejectIf (expectedManifest ≠ lockfile.manifestDigest) .lockfileIntegrityMismatch

/-! ## Building, encoding and decoding -/

def ensureCompositionMatches (pack : OverlayPack) (composition : Composition) :
    Except IntegrityError Unit :=
  rejectIf (composition.manifest.pack ≠ pack.id ∨
    composition.manifest.schemaFamily ≠ pack.schemaFamily) .inconsistentComposition

def ensureEncodedSize (lockfile : Lockfile) : Except IntegrityError Unit :=
  rejectIf (maxLockfileBytes < lockfile.toJson.toVec.length) .lockfileTooLarge

def lockedOverlay (digester : Digester) (segment : ResolvedSegment) : LockedOverlay where
  classId := segment.classId.text
  id := segment.overlay.text
  source := segment.source.text
  byteLength := UInt64.ofNat segment.bytes.length
  digest := digester.digest segment.bytes

/-- The material `buildLockfile` assembles before it validates. -/
def lockMaterial (digester : Digester) (pack : OverlayPack) (profile : Profile)
    (composition : Composition) : Lockfile :=
  let packDigest := digester.digest (packBytes pack)
  let profileDigest := digester.digest (profileBytes profile)
  let overlays := composition.segments.map (lockedOverlay digester)
  let manifest : LockedManifest := {
    engineInputsDigest := digestEngineInputs digester packDigest profileDigest overlays
    pack := ⟨pack.id.text, pack.schemaFamily, packDigest⟩
    profile := ⟨profile.id.text, profileDigest⟩
    overlays := overlays
    output := ⟨UInt64.ofNat composition.normalizedContext.length,
      digester.digest composition.normalizedContext⟩ }
  { format := lockfileFormat
    canonicalization := canonicalizationFormat
    digestAlgorithm := digester.algorithm
    manifest := manifest
    manifestDigest := digester.digest manifest.toJson.toVec }

def buildLockfile (pack : OverlayPack) (composition : Composition) (digester : Digester) :
    Except IntegrityError Lockfile := do
  rejectIf (digester.algorithm ≠ sha256Algorithm) .unsupportedDigestAlgorithm
  rejectIf (maxLockedOverlays < composition.segments.length) .tooManyOverlays
  ensureCompositionMatches pack composition
  let profile ← okOr (pack.profiles.find? (·.id == composition.manifest.profile)) .unknownProfile
  let lockfile := lockMaterial digester pack profile composition
  validateLockfile lockfile digester
  ensureEncodedSize lockfile
  pure lockfile

def encodeLockfile (lockfile : Lockfile) : Except IntegrityError Bytes := do
  validateLockfile lockfile sha256Digester
  let bytes := lockfile.toJson.toVec
  rejectIf (maxLockfileBytes < bytes.length) .lockfileTooLarge
  pure bytes

def LockedPack.ofJson (j : Json) : Option LockedPack := do
  match ← j.fields ["id", "schema", "digest"] with
  | [id, schema, digest] => some ⟨← id.asString, ← schema.asString, ← digest.asString⟩
  | _ => none

def LockedProfile.ofJson (j : Json) : Option LockedProfile := do
  match ← j.fields ["id", "digest"] with
  | [id, digest] => some ⟨← id.asString, ← digest.asString⟩
  | _ => none

def LockedOverlay.ofJson (j : Json) : Option LockedOverlay := do
  match ← j.fields ["class", "id", "source", "byte_length", "digest"] with
  | [classId, id, source, byteLength, digest] =>
      some ⟨← classId.asString, ← id.asString, ← source.asString, ← byteLength.asUInt64,
        ← digest.asString⟩
  | _ => none

def LockedOutput.ofJson (j : Json) : Option LockedOutput := do
  match ← j.fields ["byte_length", "digest"] with
  | [byteLength, digest] => some ⟨← byteLength.asUInt64, ← digest.asString⟩
  | _ => none

def LockedManifest.ofJson (j : Json) : Option LockedManifest := do
  match ← j.fields ["engine_inputs_digest", "pack", "profile", "overlays", "output"] with
  | [engineInputsDigest, pack, profile, overlays, output] =>
      some ⟨← engineInputsDigest.asString, ← LockedPack.ofJson pack,
        ← LockedProfile.ofJson profile, ← (← overlays.asArray).mapM LockedOverlay.ofJson,
        ← LockedOutput.ofJson output⟩
  | _ => none

def Lockfile.ofJson (j : Json) : Option Lockfile := do
  match ← j.fields
      ["format", "canonicalization", "digest_algorithm", "manifest", "manifest_digest"] with
  | [format, canonicalization, digestAlgorithm, manifest, manifestDigest] =>
      some ⟨← format.asString, ← canonicalization.asString, ← digestAlgorithm.asString,
        ← LockedManifest.ofJson manifest, ← manifestDigest.asString⟩
  | _ => none

/-- The decoder over the JSON reader `fromSlice`. -/
def decodeLockfile (fromSlice : Bytes → Option Json) (bytes : Bytes) :
    Except IntegrityError Lockfile := do
  rejectIf (maxLockfileBytes < bytes.length) .lockfileTooLarge
  let lockfile ← okOr ((fromSlice bytes).bind Lockfile.ofJson) .decode
  validateLockfile lockfile sha256Digester
  let canonical := lockfile.toJson.toVec
  rejectIf (canonical ≠ bytes) .nonCanonicalEncoding
  pure lockfile

/-! ## Verification -/

inductive DriftKind where
  | packMetadata
  | profileSelection
  | overlaySet
  | overlayContent (index : Nat)
  | renderedOutput
deriving DecidableEq

structure VerificationReport where
  drifts : List DriftKind
deriving DecidableEq

def VerificationReport.isVerified (report : VerificationReport) : Bool := report.drifts.isEmpty

def sameOverlaySet (expected actual : List LockedOverlay) : Bool :=
  expected.length == actual.length && (expected.zip actual).all fun (left, right) =>
    left.classId == right.classId && left.id == right.id && left.source == right.source

/-- The positions of the paired overlays that differ in length or digest. -/
def contentDrifts (expected actual : List LockedOverlay) : List DriftKind :=
  (expected.zip actual).zipIdx.flatMap fun ((expected, actual), index) =>
    if expected.byteLength ≠ actual.byteLength ∨ expected.digest ≠ actual.digest
    then [.overlayContent index] else []

/-- The drifts `verifyWith` collects, in its order. -/
def drifts (lockfile current : Lockfile) : List DriftKind :=
  (if lockfile.manifest.pack ≠ current.manifest.pack then [.packMetadata] else [])
  ++ (if lockfile.manifest.profile ≠ current.manifest.profile then [.profileSelection] else [])
  ++ (if sameOverlaySet lockfile.manifest.overlays current.manifest.overlays then
        contentDrifts lockfile.manifest.overlays current.manifest.overlays
      else [.overlaySet])
  ++ (if lockfile.manifest.output ≠ current.manifest.output then [.renderedOutput] else [])

def verifyWith (lockfile : Lockfile) (pack : OverlayPack) (composition : Composition)
    (digester : Digester) : Except IntegrityError VerificationReport := do
  validateLockfile lockfile digester
  let current ← buildLockfile pack composition digester
  pure ⟨drifts lockfile current⟩

def verify (lockfile : Lockfile) (pack : OverlayPack) (composition : Composition) :
    Except IntegrityError VerificationReport :=
  verifyWith lockfile pack composition sha256Digester

/-! ## What validation accepts -/

/-- The identities of a locked overlay parse. -/
structure LockedOverlay.Identified (o : LockedOverlay) : Prop where
  classId : identifierValid o.classId = true
  id : identifierValid o.id = true
  source : packRelativePathValid o.source = true

/-- A lock that passes validation under a digester. -/
structure Lockfile.Valid (l : Lockfile) (digester : Digester) : Prop where
  format : l.format = lockfileFormat
  canonicalization : l.canonicalization = canonicalizationFormat
  digestAlgorithm : l.digestAlgorithm = sha256Algorithm
  providerAlgorithm : digester.algorithm = sha256Algorithm
  overlayCount : l.manifest.overlays.length ≤ maxLockedOverlays
  packId : identifierValid l.manifest.pack.id = true
  profileId : identifierValid l.manifest.profile.id = true
  overlayIds : ∀ o ∈ l.manifest.overlays, o.Identified
  digests : ∀ digest ∈ l.digests, validSha256 digest = true
  engineInputs : l.manifest.engineInputsDigest =
    digestEngineInputs digester l.manifest.pack.digest l.manifest.profile.digest
      l.manifest.overlays
  manifestDigest : l.manifestDigest = digester.digest l.manifest.toJson.toVec

theorem exists_identifier_iff {value : String} :
    (∃ id, Identifier.parse value = .ok id) ↔ identifierValid value = true := by
  constructor
  · rintro ⟨id, h⟩
    rw [← Identifier.parse_eq_ok.mp h]
    exact id.valid
  · intro h
    exact ⟨⟨value, h⟩, Identifier.parse_eq_ok.mpr rfl⟩

theorem exists_path_iff {value : String} :
    (∃ path, PackRelativePath.parse value = .ok path) ↔ packRelativePathValid value = true := by
  constructor
  · rintro ⟨path, h⟩
    rw [← PackRelativePath.parse_eq_ok.mp h]
    exact path.valid
  · intro h
    exact ⟨⟨value, h⟩, PackRelativePath.parse_eq_ok.mpr rfl⟩

theorem validateOverlayIdentity_eq_ok {o : LockedOverlay} {u : Unit} :
    validateOverlayIdentity o = .ok u ↔ o.Identified := by
  simp only [validateOverlayIdentity, bind_eq_ok, mapError_eq_ok, pure, Except.pure,
    exists_and_right, exists_identifier_iff, exists_path_iff, and_true]
  constructor
  · rintro ⟨hclass, hid, hsource⟩
    exact ⟨hclass, hid, hsource⟩
  · intro h
    exact ⟨h.classId, h.id, h.source⟩

theorem validateLockfile_eq_ok {l : Lockfile} {digester : Digester} {u : Unit} :
    validateLockfile l digester = .ok u ↔ l.Valid digester := by
  simp only [validateLockfile, validateIdentities, validateDigests, bind_eq_ok, rejectIf_eq_ok,
    mapError_eq_ok, forEach_eq_ok, exists_and_right, exists_identifier_iff, exists_const,
    validateOverlayIdentity_eq_ok, not_or, not_not, not_lt, ne_eq, List.all_eq_true]
  constructor
  · rintro ⟨hformat, hcanon, ⟨halgorithm, hprovider⟩, hcount, ⟨hpack, hprofile, hoverlays⟩,
      hdigests, hinputs, hmanifest⟩
    exact ⟨hformat, hcanon, halgorithm, hprovider, hcount, hpack, hprofile, hoverlays, hdigests,
      hinputs.symm, hmanifest.symm⟩
  · intro h
    exact ⟨h.format, h.canonicalization, ⟨h.digestAlgorithm, h.providerAlgorithm⟩,
      h.overlayCount, ⟨h.packId, h.profileId, h.overlayIds⟩, h.digests, h.engineInputs.symm,
      h.manifestDigest.symm⟩

/-! ## What building yields -/

/-- A composition of the pack, within the overlay limit. -/
structure Lockable (pack : OverlayPack) (profile : Profile) (composition : Composition) :
    Prop where
  overlayCount : composition.segments.length ≤ maxLockedOverlays
  packId : composition.manifest.pack = pack.id
  schemaFamily : composition.manifest.schemaFamily = pack.schemaFamily
  profile : pack.profiles.find? (·.id == composition.manifest.profile) = some profile

theorem buildLockfile_eq_ok {pack : OverlayPack} {composition : Composition}
    {digester : Digester} {l : Lockfile} :
    buildLockfile pack composition digester = .ok l ↔
      ∃ profile, Lockable pack profile composition ∧
        l = lockMaterial digester pack profile composition ∧ l.Valid digester ∧
          l.toJson.toVec.length ≤ maxLockfileBytes := by
  simp only [buildLockfile, ensureCompositionMatches, ensureEncodedSize, bind_eq_ok,
    rejectIf_eq_ok, okOr_eq_ok, validateLockfile_eq_ok, exists_const, not_not, not_lt, ne_eq,
    not_or, pure, Except.pure, Except.ok.injEq]
  constructor
  · rintro ⟨_, hcount, ⟨hpack, hschema⟩, profile, hprofile, hvalid, hsize, rfl⟩
    exact ⟨profile, ⟨hcount, hpack, hschema, hprofile⟩, rfl, hvalid, hsize⟩
  · rintro ⟨profile, ⟨hcount, hpack, hschema, hprofile⟩, rfl, hvalid, hsize⟩
    exact ⟨hvalid.providerAlgorithm, hcount, ⟨hpack, hschema⟩, profile, hprofile, hvalid, hsize,
      rfl⟩

/-- A provider of the v1 algorithm whose digests are 32 bytes in lowercase hexadecimal. -/
structure Digester.Hex (digester : Digester) : Prop where
  algorithm : digester.algorithm = sha256Algorithm
  hex : ∀ b, ∃ digest : Bytes, digest.length = 32 ∧ digester.digest b = Digest.lowerHex digest

theorem sha256Digester_hex : sha256Digester.Hex where
  algorithm := rfl
  hex b := ⟨Digest.sha256 b, Digest.sha256_length b, rfl⟩

theorem Digester.Hex.valid {digester : Digester} (h : digester.Hex) (b : Bytes) :
    validSha256 (digester.digest b) = true := by
  obtain ⟨digest, hlength, heq⟩ := h.hex b
  rw [heq]
  exact Digest.lowerHex_valid hlength

/-- Under such a provider the assembled material always validates. -/
theorem lockMaterial_valid {digester : Digester} (hd : digester.Hex) {pack : OverlayPack}
    {profile : Profile} {composition : Composition}
    (h : composition.segments.length ≤ maxLockedOverlays) :
    (lockMaterial digester pack profile composition).Valid digester where
  format := rfl
  canonicalization := rfl
  digestAlgorithm := hd.algorithm
  providerAlgorithm := hd.algorithm
  overlayCount := by simpa [lockMaterial] using h
  packId := pack.id.valid
  profileId := profile.id.valid
  overlayIds := by
    simp only [lockMaterial, List.mem_map]
    rintro o ⟨segment, _, rfl⟩
    exact ⟨segment.classId.valid, segment.overlay.valid, segment.source.valid⟩
  digests := by
    simp only [lockMaterial, Lockfile.digests, digestEngineInputs, List.mem_append, List.mem_cons,
      List.mem_map, List.not_mem_nil, or_false]
    rintro digest (((rfl | rfl | rfl) | ⟨_, ⟨segment, _, rfl⟩, rfl⟩) | rfl | rfl)
    all_goals exact hd.valid _
  engineInputs := rfl
  manifestDigest := rfl

/-! ## Encoded size -/

theorem Digester.Hex.quoted_length {digester : Digester} (h : digester.Hex) (b : Bytes) :
    (Text.utf8 (Json.quoted (digester.digest b))).length = 66 := by
  obtain ⟨digest, hlength, heq⟩ := h.hex b
  rw [heq, Digest.quoted_lowerHex_length, hlength]

/-- The encoded size of a lock does not depend on what is digested. -/
theorem lockMaterial_length_eq {d d' : Digester} (h : d.Hex) (h' : d'.Hex) (pack : OverlayPack)
    (profile : Profile) (composition : Composition) :
    (lockMaterial d pack profile composition).toJson.toVec.length =
      (lockMaterial d' pack profile composition).toJson.toVec.length := by
  have hoverlays : ∀ (lead : List Char) (segments : List ResolvedSegment),
      (Text.utf8 (Json.compactItems lead
        ((segments.map (lockedOverlay d)).map LockedOverlay.toJson))).length =
      (Text.utf8 (Json.compactItems lead
        ((segments.map (lockedOverlay d')).map LockedOverlay.toJson))).length := by
    intro lead segments
    induction segments generalizing lead with
    | nil => rfl
    | cons segment rest ih =>
        simp only [List.map_cons, Json.compactItems, Text.utf8_append, List.length_append, ih,
          LockedOverlay.toJson, lockedOverlay, Json.compact, Json.compactMembers, Text.utf8_cons,
          h.quoted_length, h'.quoted_length]
  simp only [Json.toVec, lockMaterial, Lockfile.toJson, LockedManifest.toJson, LockedPack.toJson,
    LockedProfile.toJson, LockedOutput.toJson, digestEngineInputs, Json.compact,
    Json.compactMembers, Text.utf8_append, Text.utf8_cons, List.length_append, h.quoted_length,
    h'.quoted_length, hoverlays, h.algorithm, h'.algorithm]

/-! ## A pack of one overlay -/

def sampleProfile : Profile where
  id := ⟨"default", by decide⟩
  selections := ⟨[(⟨"mode", by decide⟩, [⟨"strict", by decide⟩])], by simp⟩

def sampleParts : PackParts where
  id := ⟨"team", by decide⟩
  schemaFamily := "v1"
  classes := [⟨⟨"mode", by decide⟩, 0, ⟨0, none, by simp⟩⟩]
  overlays := [⟨⟨"strict", by decide⟩, ⟨"mode", by decide⟩, ⟨"strict.md", by decide⟩, ⟨[], .nil⟩⟩]
  profiles := [sampleProfile]
  «variables» := []

def samplePack : OverlayPack := ⟨sampleParts, checkPack_wellFormed (p := sampleParts) rfl⟩

/-- The composition of the sample profile when its one source holds `content`. -/
def sampleComposition (content : Bytes) : Composition := .of samplePack sampleProfile [content]

theorem sampleComposition_compose (byte : UInt8) :
    compose samplePack sampleProfile.id (fun _ _ => .ok [byte]) .default =
      .ok (sampleComposition [byte]) := rfl

def sampleLock (byte : UInt8) : Lockfile :=
  lockMaterial sha256Digester samplePack sampleProfile (sampleComposition [byte])

theorem sampleLock_build (byte : UInt8) :
    buildLockfile samplePack (sampleComposition [byte]) sha256Digester =
      .ok (sampleLock byte) := by
  let zero : Digester := ⟨sha256Algorithm, fun _ => Digest.lowerHex (List.replicate 32 0)⟩
  have hzero : zero.Hex := ⟨rfl, fun _ => ⟨_, rfl, rfl⟩⟩
  have hcount : (sampleComposition [byte]).segments.length ≤ maxLockedOverlays :=
    (by decide : 1 ≤ 256)
  have hsame : lockMaterial zero samplePack sampleProfile (sampleComposition [byte]) =
      lockMaterial zero samplePack sampleProfile (sampleComposition [0]) := rfl
  refine buildLockfile_eq_ok.mpr ⟨sampleProfile, ⟨hcount, rfl, rfl, rfl⟩, rfl,
    lockMaterial_valid sha256Digester_hex hcount, ?_⟩
  rw [sampleLock, lockMaterial_length_eq sha256Digester_hex hzero, hsame]
  decide +kernel

end Invokrum.Integrity
