import Invokrum.Integrity.Lockfile

/-!
# The lockfile codec

The structures read back from the trees they print to, and those trees are
printable, so decoding accepts exactly the image of encoding.
-/

namespace Invokrum.Integrity

open Invokrum.Core Outcome
open Text (Bytes)
open Json (ReadsCompact)

/-! ## Structures read back from their trees -/

theorem LockedPack.ofJson_toJson (p : LockedPack) : LockedPack.ofJson p.toJson = some p := by
  have h : p.toJson.fields ["id", "schema", "digest"] =
      some [.string p.id, .string p.schema, .string p.digest] :=
    Json.fields_object (by simp)
  simp [LockedPack.ofJson, h, Json.asString]

theorem LockedProfile.ofJson_toJson (p : LockedProfile) :
    LockedProfile.ofJson p.toJson = some p := by
  have h : p.toJson.fields ["id", "digest"] = some [.string p.id, .string p.digest] :=
    Json.fields_object (by simp)
  simp [LockedProfile.ofJson, h, Json.asString]

theorem LockedOverlay.ofJson_toJson (o : LockedOverlay) :
    LockedOverlay.ofJson o.toJson = some o := by
  have h : o.toJson.fields ["class", "id", "source", "byte_length", "digest"] =
      some [.string o.classId, .string o.id, .string o.source, Json.ofUInt64 o.byteLength,
        .string o.digest] :=
    Json.fields_object (by simp)
  simp [LockedOverlay.ofJson, h, Json.asString]

theorem LockedOutput.ofJson_toJson (o : LockedOutput) :
    LockedOutput.ofJson o.toJson = some o := by
  have h : o.toJson.fields ["byte_length", "digest"] =
      some [Json.ofUInt64 o.byteLength, .string o.digest] :=
    Json.fields_object (by simp)
  simp [LockedOutput.ofJson, h, Json.asString]

theorem LockedManifest.ofJson_toJson (m : LockedManifest) :
    LockedManifest.ofJson m.toJson = some m := by
  have h : m.toJson.fields ["engine_inputs_digest", "pack", "profile", "overlays", "output"] =
      some [.string m.engineInputsDigest, m.pack.toJson, m.profile.toJson,
        .array (m.overlays.map LockedOverlay.toJson), m.output.toJson] :=
    Json.fields_object (by simp)
  simp [LockedManifest.ofJson, h, Json.asString, Json.asArray, LockedPack.ofJson_toJson,
    LockedProfile.ofJson_toJson, LockedOutput.ofJson_toJson,
    Json.mapM_map_of_inverse LockedOverlay.ofJson_toJson]

theorem Lockfile.ofJson_toJson (l : Lockfile) : Lockfile.ofJson l.toJson = some l := by
  have h : l.toJson.fields
      ["format", "canonicalization", "digest_algorithm", "manifest", "manifest_digest"] =
      some [.string l.format, .string l.canonicalization, .string l.digestAlgorithm,
        l.manifest.toJson, .string l.manifestDigest] :=
    Json.fields_object (by simp)
  simp [Lockfile.ofJson, h, Json.asString, LockedManifest.ofJson_toJson]

theorem Lockfile.toJson_printable (l : Lockfile) :
    l.toJson.printable Json.readerDepth = true := by
  simp [Lockfile.toJson, LockedManifest.toJson, LockedPack.toJson, LockedProfile.toJson,
    LockedOverlay.toJson, LockedOutput.toJson, Json.readerDepth]

/-! ## Encoding and decoding -/

theorem encodeLockfile_eq_ok {l : Lockfile} {b : Bytes} :
    encodeLockfile l = .ok b ↔
      l.Valid sha256Digester ∧ b = l.toJson.toVec ∧ b.length ≤ maxLockfileBytes := by
  simp only [encodeLockfile, bind_eq_ok, validateLockfile_eq_ok, rejectIf_eq_ok, exists_const,
    not_lt, pure, Except.pure, Except.ok.injEq]
  constructor
  · rintro ⟨hvalid, hsize, rfl⟩
    exact ⟨hvalid, rfl, hsize⟩
  · rintro ⟨hvalid, rfl, hsize⟩
    exact ⟨hvalid, hsize, rfl⟩

theorem decodeLockfile_eq_ok {fromSlice : Bytes → Option Json} {b : Bytes} {l : Lockfile} :
    decodeLockfile fromSlice b = .ok l ↔
      b.length ≤ maxLockfileBytes ∧ (fromSlice b).bind Lockfile.ofJson = some l ∧
        l.Valid sha256Digester ∧ b = l.toJson.toVec := by
  simp only [decodeLockfile, bind_eq_ok, okOr_eq_ok, validateLockfile_eq_ok, rejectIf_eq_ok,
    exists_const, not_lt, ne_eq, not_not, pure, Except.pure, Except.ok.injEq]
  constructor
  · rintro ⟨hsize, l', hread, hvalid, hbytes, rfl⟩
    exact ⟨hsize, hread, hvalid, hbytes.symm⟩
  · rintro ⟨hsize, hread, hvalid, hbytes⟩
    exact ⟨hsize, l, hread, hvalid, hbytes.symm, rfl⟩

/-- Decoding accepts exactly what encoding produces. -/
theorem decodeLockfile_iff_encodeLockfile {fromSlice : Bytes → Option Json}
    (hreader : ReadsCompact fromSlice) {b : Bytes} {l : Lockfile} :
    decodeLockfile fromSlice b = .ok l ↔ encodeLockfile l = .ok b := by
  rw [decodeLockfile_eq_ok, encodeLockfile_eq_ok]
  constructor
  · rintro ⟨hsize, _, hvalid, hbytes⟩
    exact ⟨hvalid, hbytes, hsize⟩
  · rintro ⟨hvalid, rfl, hsize⟩
    refine ⟨hsize, ?_, hvalid, rfl⟩
    rw [hreader.roundTrip _ l.toJson_printable]
    exact l.ofJson_toJson

/-- What `buildLockfile` returns has already passed every check of the encoder. -/
theorem encodeLockfile_of_build {pack : OverlayPack} {composition : Composition} {l : Lockfile}
    (h : buildLockfile pack composition sha256Digester = .ok l) :
    encodeLockfile l = .ok l.toJson.toVec := by
  obtain ⟨_, _, _, hvalid, hsize⟩ := buildLockfile_eq_ok.mp h
  exact encodeLockfile_eq_ok.mpr ⟨hvalid, rfl, hsize⟩

/-- Decoding is the exact inverse of encoding, built locks round-trip, and accepted
bytes are the canonical text of a lock whose two derived digests are consistent. -/
theorem lockfile_codec {fromSlice : Bytes → Option Json} (hreader : ReadsCompact fromSlice) :
    (∀ b l, decodeLockfile fromSlice b = .ok l ↔ encodeLockfile l = .ok b) ∧
      (∀ pack composition l, buildLockfile pack composition sha256Digester = .ok l →
        ∃ b, encodeLockfile l = .ok b ∧ decodeLockfile fromSlice b = .ok l) ∧
      (∀ b, (∀ l, encodeLockfile l ≠ .ok b) → ∃ e, decodeLockfile fromSlice b = .error e) ∧
      ∀ b l, decodeLockfile fromSlice b = .ok l →
        b = l.toJson.toVec ∧ b.length ≤ maxLockfileBytes ∧
          l.manifest.engineInputsDigest =
            Digest.sha256LowerHex (engineInputsJson l.manifest.pack.digest
              l.manifest.profile.digest l.manifest.overlays).toVec ∧
          l.manifestDigest = Digest.sha256LowerHex l.manifest.toJson.toVec := by
  refine ⟨fun b l => decodeLockfile_iff_encodeLockfile hreader, ?_, ?_, ?_⟩
  · intro pack composition l h
    have hencode := encodeLockfile_of_build h
    exact ⟨_, hencode, (decodeLockfile_iff_encodeLockfile hreader).mpr hencode⟩
  · intro b hnone
    cases hdecode : decodeLockfile fromSlice b with
    | ok l => exact absurd ((decodeLockfile_iff_encodeLockfile hreader).mp hdecode) (hnone l)
    | error e => exact ⟨e, rfl⟩
  · intro b l h
    obtain ⟨hsize, _, hvalid, hbytes⟩ := decodeLockfile_eq_ok.mp h
    exact ⟨hbytes, hsize, hvalid.engineInputs, hvalid.manifestDigest⟩

theorem lockfile_codec_sample : ∃ b, encodeLockfile (sampleLock 97) = .ok b ∧
    decodeLockfile Json.readBytes b = .ok (sampleLock 97) :=
  (lockfile_codec Json.readBytes_readsCompact).2.1 samplePack (sampleComposition [97]) _
    (sampleLock_build 97)

end Invokrum.Integrity
