import Invokrum.Base.JsonFields
import Invokrum.Base.JsonReader
import Invokrum.Distribution.Bundle

/-!
# Canonical JSON of bundle manifests

The decoder refuses duplicate keys, reads the document, checks the limits in
document order, validates the domain values and compares the re-encoding. Every
stage passes on the encoding of a manifest, and the comparison leaves nothing else.
-/

namespace Invokrum.Distribution

open Outcome Ordered
open Text (Bytes)
open Json (ReadsCompact)

def maxBundleManifestBytes : Nat := 1048576

inductive BundleJsonError where
  | inputTooLarge
  | duplicateKey
  | malformedJson
  | validation (error : DistributionError)
  | nonCanonical
  | canonicalization
deriving DecidableEq

/-! ## Documents -/

structure FileDocument where
  path : String
  byteLength : UInt64
  digest : String
deriving DecidableEq

structure BundleDocument where
  format : String
  digestAlgorithm : String
  entryPoint : String
  files : List FileDocument
deriving DecidableEq

def FileDocument.ofJson (j : Json) : Option FileDocument := do
  match ← j.fields ["path", "byte_length", "digest"] with
  | [path, byteLength, digest] =>
      some ⟨← path.asString, ← byteLength.asUInt64, ← digest.asString⟩
  | _ => none

def BundleDocument.ofJson (j : Json) : Option BundleDocument := do
  match ← j.fields ["format", "digest_algorithm", "entry_point", "files"] with
  | [format, digestAlgorithm, entryPoint, files] =>
      some ⟨← format.asString, ← digestAlgorithm.asString, ← entryPoint.asString,
        ← (← files.asArray).mapM FileDocument.ofJson⟩
  | _ => none

def FileDocument.toJson (file : FileDocument) : Json :=
  .object [("path", .string file.path), ("byte_length", Json.ofUInt64 file.byteLength),
    ("digest", .string file.digest)]

def BundleDocument.toJson (document : BundleDocument) : Json :=
  .object [("format", .string document.format),
    ("digest_algorithm", .string document.digestAlgorithm),
    ("entry_point", .string document.entryPoint),
    ("files", .array (document.files.map FileDocument.toJson))]

/-- The record `CanonicalFile` of a file. -/
def BundleFile.document (file : BundleFile) : FileDocument :=
  ⟨file.path.text, file.byteLength, file.digest.text⟩

/-- The record `CanonicalBundle` of a manifest. -/
def BundleManifest.document (manifest : BundleManifest) : BundleDocument :=
  ⟨bundleFormat, sha256Algorithm, manifest.entryPoint.text,
    manifest.files.map BundleFile.document⟩

/-! ## Duplicate keys -/

mutual

/-- An object somewhere in the document repeats a key. -/
def hasDuplicateKey : Json → Bool
  | .array items => hasDuplicateKeyItems items
  | .object members => !(decide (members.map Prod.fst).Nodup) || hasDuplicateKeyMembers members
  | _ => false

def hasDuplicateKeyItems : List Json → Bool
  | [] => false
  | item :: rest => hasDuplicateKey item || hasDuplicateKeyItems rest

def hasDuplicateKeyMembers : List (String × Json) → Bool
  | [] => false
  | (_, value) :: rest => hasDuplicateKey value || hasDuplicateKeyMembers rest

end

/-! ## Encoder and decoder -/

def encodeBundleManifest (manifest : BundleManifest) : Except BundleJsonError Bytes :=
  .ok manifest.document.toJson.toVec

/-- Derives the immutable subject digest of a manifest. -/
def bundleSubjectDigest (manifest : BundleManifest) : Except BundleJsonError Sha256Digest := do
  let bytes ← encodeBundleManifest manifest
  (Sha256Digest.parse (Digest.sha256LowerHex bytes)).mapError .validation

/-- The reader returns the document or, of malformed text, what it visited before the error, a
member without its value as `null`. A repeated key ends the visit, so it goes first. -/
def rejectDuplicateKeys (fromSlice : Bytes → Except Json Json) (bytes : Bytes) :
    Except BundleJsonError Unit :=
  match fromSlice bytes with
  | .ok document => rejectIf (hasDuplicateKey document = true) .duplicateKey
  | .error visited =>
      .error (if hasDuplicateKey visited = true then .duplicateKey else .malformedJson)

def parseFile (file : FileDocument) : Except BundleJsonError BundleFile := do
  let path ← (BundlePath.parse file.path).mapError .validation
  let digest ← (Sha256Digest.parse file.digest).mapError .validation
  pure ⟨path, file.byteLength, digest⟩

/-- The decoder over the JSON reader `fromSlice`. -/
def decodeBundleManifest (fromSlice : Bytes → Except Json Json) (bytes : Bytes)
    (limits : BundleLimits) : Except BundleJsonError BundleManifest := do
  rejectIf (maxBundleManifestBytes < bytes.length) .inputTooLarge
  rejectDuplicateKeys fromSlice bytes
  let document ← okOr ((fromSlice bytes).toOption.bind BundleDocument.ofJson) .malformedJson
  rejectIf (limits.maximumFiles < document.files.length) (.validation .tooManyFiles)
  let _ ← expandedBytes FileDocument.byteLength limits .validation 0 document.files
  let entryPoint ← (BundlePath.parse document.entryPoint).mapError .validation
  let files ← collect parseFile document.files
  let manifest ← (BundleManifest.new document.format document.digestAlgorithm entryPoint files
    limits).mapError .validation
  let canonical ← encodeBundleManifest manifest
  rejectIf (canonical ≠ bytes) .nonCanonical
  pure manifest

/-! ## The encoding of a manifest passes every stage -/

theorem FileDocument.ofJson_toJson (file : FileDocument) :
    FileDocument.ofJson file.toJson = some file := by
  have h : file.toJson.fields ["path", "byte_length", "digest"] =
      some [.string file.path, Json.ofUInt64 file.byteLength, .string file.digest] :=
    Json.fields_object (by simp)
  simp [FileDocument.ofJson, h, Json.asString]

theorem BundleDocument.ofJson_toJson (document : BundleDocument) :
    BundleDocument.ofJson document.toJson = some document := by
  have h : document.toJson.fields ["format", "digest_algorithm", "entry_point", "files"] =
      some [.string document.format, .string document.digestAlgorithm,
        .string document.entryPoint, .array (document.files.map FileDocument.toJson)] :=
    Json.fields_object (by simp)
  simp [BundleDocument.ofJson, h, Json.asString, Json.asArray,
    Json.mapM_map_of_inverse FileDocument.ofJson_toJson]

theorem BundleDocument.toJson_printable (document : BundleDocument) :
    document.toJson.printable Json.readerDepth = true := by
  simp [BundleDocument.toJson, FileDocument.toJson, Json.readerDepth]

theorem BundleDocument.toJson_no_duplicateKey (document : BundleDocument) :
    hasDuplicateKey document.toJson = false := by
  have hfiles : ∀ files : List FileDocument,
      hasDuplicateKeyItems (files.map FileDocument.toJson) = false := by
    intro files
    induction files with
    | nil => rfl
    | cons file rest ih =>
        simp [hasDuplicateKeyItems, ih, FileDocument.toJson, hasDuplicateKey,
          hasDuplicateKeyMembers, Json.ofUInt64]
  simp [BundleDocument.toJson, hasDuplicateKey, hasDuplicateKeyMembers, hfiles]

theorem parseFile_document (file : BundleFile) : parseFile file.document = .ok file := by
  have hpath := BundlePath.parse_eq_ok.mpr (rfl : file.path.text = file.path.text)
  have hdigest := Sha256Digest.parse_eq_ok.mpr (rfl : file.digest.text = file.digest.text)
  rw [parseFile]
  simp only [BundleFile.document, bind_eq_ok, mapError_eq_ok, pure, Except.pure, Except.ok.injEq]
  exact ⟨_, hpath, _, hdigest, rfl⟩

theorem collect_parseFile (files : List BundleFile) :
    collect parseFile (files.map BundleFile.document) = .ok files := by
  rw [collect_eq_ok, List.forall₂_map_left_iff, List.forall₂_same]
  exact fun file _ => parseFile_document file

/-- The limits a manifest was accepted under let its document through the pre-checks. -/
theorem document_within_limits {m : BundleManifest} {limits : BundleLimits}
    (h : Accepted limits m.entryPoint m.files) :
    m.document.files.length ≤ limits.maximumFiles ∧
      ∃ total, expandedBytes FileDocument.byteLength limits BundleJsonError.validation 0
        m.document.files = .ok total := by
  refine ⟨?_, expandedBytes_eq_ok.mpr ⟨?_, ?_⟩⟩
  · simpa [BundleManifest.document] using h.count
  · simpa [BundleManifest.document, BundleFile.document] using h.fileBytes
  · simpa [BundleManifest.document, BundleFile.document, Function.comp_def] using h.expanded

/-- A document is determined by the manifest's document text. -/
theorem encodeBundleManifest_injective {m m' : BundleManifest}
    (h : encodeBundleManifest m = encodeBundleManifest m') : m = m' := by
  have htree : m.document.toJson = m'.document.toJson :=
    Json.toVec_injective m.document.toJson_printable m'.document.toJson_printable
      (Except.ok.inj h)
  have hdoc : m.document = m'.document := by
    have hread := congrArg BundleDocument.ofJson htree
    rwa [BundleDocument.ofJson_toJson, BundleDocument.ofJson_toJson, Option.some.injEq] at hread
  have hentry := congrArg BundleDocument.entryPoint hdoc
  have hfiles := congrArg (fun d => collect parseFile d.files) hdoc
  simp only [BundleManifest.document, collect_parseFile, Except.ok.injEq] at hentry hfiles
  exact BundleManifest.ext (BundlePath.text_injective hentry) hfiles

/-! ## The codec -/

/-- `m` is a manifest the constructor returns under `limits`. -/
def Constructible (limits : BundleLimits) (m : BundleManifest) : Prop :=
  ∃ format digestAlgorithm entryPoint files,
    BundleManifest.new format digestAlgorithm entryPoint files limits = .ok m

theorem constructible_iff {limits : BundleLimits} {m : BundleManifest} :
    Constructible limits m ↔ Accepted limits m.entryPoint m.files := by
  constructor
  · intro h
    obtain ⟨format, digestAlgorithm, entryPoint, files, hnew⟩ := h
    obtain ⟨_, _, haccepted, hentry, hfiles⟩ := BundleManifest.new_eq_ok.mp hnew
    rw [hentry, hfiles]
    exact haccepted.of_perm (sortByKey_perm _ files).symm
  · intro h
    exact ⟨bundleFormat, sha256Algorithm, m.entryPoint, m.files,
      BundleManifest.new_eq_ok.mpr ⟨rfl, rfl, h, rfl, m.sortByKey_files.symm⟩⟩

theorem decodeBundleManifest_sound {fromSlice : Bytes → Except Json Json} {bytes : Bytes}
    {limits : BundleLimits} {m : BundleManifest}
    (h : decodeBundleManifest fromSlice bytes limits = .ok m) :
    bytes.length ≤ maxBundleManifestBytes ∧ Constructible limits m ∧
      encodeBundleManifest m = .ok bytes := by
  simp only [decodeBundleManifest, bind_eq_ok, rejectIf_eq_ok, mapError_eq_ok, exists_const,
    not_lt, ne_eq, not_not, pure, Except.pure, Except.ok.injEq] at h
  obtain ⟨hsize, _, _, document, _, _, _, _, entryPoint, _, files, _, manifest, hnew, canonical,
    hencode, hbytes, rfl⟩ := h
  exact ⟨hsize, ⟨_, _, _, _, hnew⟩, hbytes ▸ hencode⟩

theorem decodeBundleManifest_complete {fromSlice : Bytes → Except Json Json}
    (hreader : ReadsCompact fun bytes => (fromSlice bytes).toOption) {bytes : Bytes} {limits : BundleLimits}
    {m : BundleManifest} (hsize : bytes.length ≤ maxBundleManifestBytes)
    (hm : Constructible limits m) (hencode : encodeBundleManifest m = .ok bytes) :
    decodeBundleManifest fromSlice bytes limits = .ok m := by
  have haccepted := constructible_iff.mp hm
  obtain ⟨hcount, total, htotal⟩ := document_within_limits haccepted
  have hread : fromSlice bytes = .ok m.document.toJson := by
    rw [← Except.ok.inj hencode]
    exact toOption_eq_some.mp (hreader.roundTrip _ m.document.toJson_printable)
  have hdocument : (fromSlice bytes).toOption.bind BundleDocument.ofJson = some m.document := by
    rw [hread, Except.toOption, Option.bind_some, BundleDocument.ofJson_toJson]
  have hkeys : rejectDuplicateKeys fromSlice bytes = .ok () := by
    simp [rejectDuplicateKeys, hread, BundleDocument.toJson_no_duplicateKey]
  have hnew : BundleManifest.new m.document.format m.document.digestAlgorithm m.entryPoint
      m.files limits = .ok m :=
    BundleManifest.new_eq_ok.mpr ⟨rfl, rfl, haccepted, rfl, m.sortByKey_files.symm⟩
  simp only [decodeBundleManifest, bind_eq_ok, rejectIf_eq_ok, mapError_eq_ok, exists_const,
    okOr_eq_ok, not_lt, ne_eq, not_not, pure, Except.pure, Except.ok.injEq]
  exact ⟨hsize, (), hkeys, _, hdocument, hcount, total, htotal, m.entryPoint,
    BundlePath.parse_eq_ok.mpr rfl, m.files, collect_parseFile m.files, m, hnew, bytes, hencode,
    rfl, rfl⟩

/-- The subject of accepted bytes is the SHA-256 of those bytes. -/
theorem bundleSubjectDigest_of_encode {m : BundleManifest} {bytes : Bytes}
    (h : encodeBundleManifest m = .ok bytes) :
    bundleSubjectDigest m =
      .ok ⟨Digest.sha256LowerHex bytes, Digest.sha256LowerHex_valid bytes⟩ := by
  rw [bundleSubjectDigest, h, ok_bind, mapError_eq_ok]
  exact Sha256Digest.parse_eq_ok.mpr rfl

/-- Decoding accepts exactly the image of encoding; hence each undoes the other, two accepted
documents never denote one manifest, and equal subjects mean equal manifests unless SHA-256
collides on the two documents. -/
theorem bundleManifest_codec {fromSlice : Bytes → Except Json Json}
    (hreader : ReadsCompact fun bytes => (fromSlice bytes).toOption) (limits : BundleLimits) :
    (∀ bytes m, decodeBundleManifest fromSlice bytes limits = .ok m ↔
      bytes.length ≤ maxBundleManifestBytes ∧ Constructible limits m ∧
        encodeBundleManifest m = .ok bytes) ∧
    (∀ bytes₁ bytes₂ m, decodeBundleManifest fromSlice bytes₁ limits = .ok m →
      decodeBundleManifest fromSlice bytes₂ limits = .ok m → bytes₁ = bytes₂) ∧
    ∀ bytes₁ bytes₂ m₁ m₂, decodeBundleManifest fromSlice bytes₁ limits = .ok m₁ →
      decodeBundleManifest fromSlice bytes₂ limits = .ok m₂ →
      (Digest.sha256 bytes₁ = Digest.sha256 bytes₂ → bytes₁ = bytes₂) →
      bundleSubjectDigest m₁ = bundleSubjectDigest m₂ → m₁ = m₂ := by
  refine ⟨?_, ?_, ?_⟩
  · intro bytes m
    constructor
    · exact decodeBundleManifest_sound
    · intro h
      exact decodeBundleManifest_complete hreader h.1 h.2.1 h.2.2
  · intro bytes₁ bytes₂ m h₁ h₂
    have he₁ := (decodeBundleManifest_sound h₁).2.2
    have he₂ := (decodeBundleManifest_sound h₂).2.2
    rw [he₁, Except.ok.injEq] at he₂
    exact he₂
  · intro bytes₁ bytes₂ m₁ m₂ h₁ h₂ hfree hsubject
    have he₁ := (decodeBundleManifest_sound h₁).2.2
    have he₂ := (decodeBundleManifest_sound h₂).2.2
    rw [bundleSubjectDigest_of_encode he₁, bundleSubjectDigest_of_encode he₂, Except.ok.injEq,
      Sha256Digest.mk.injEq] at hsubject
    have hbytes := hfree (Digest.lowerHex_injective hsubject)
    exact encodeBundleManifest_injective (he₁.trans (hbytes ▸ he₂.symm))

def sampleFile : BundleFile where
  path := ⟨"pack.yaml", by decide⟩
  byteLength := 42
  digest := ⟨Digest.sha256LowerHex [], Digest.sha256LowerHex_valid []⟩

def sampleManifest : BundleManifest where
  entryPoint := sampleFile.path
  files := [sampleFile]
  accepted := ⟨by simp, by decide, by simp, by decide, by decide, by simp⟩
  sorted := by simp

theorem bundleManifest_codec_sample :
    decodeBundleManifest Json.visitBytes sampleManifest.document.toJson.toVec .default =
      .ok sampleManifest :=
  ((bundleManifest_codec Json.visitBytes_readsCompact .default).1 _ _).mpr
    ⟨by decide +kernel, constructible_iff.mpr sampleManifest.accepted, rfl⟩

end Invokrum.Distribution
