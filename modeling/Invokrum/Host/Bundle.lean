import Invokrum.Integrity.Drift

/-!
# Resolved and verified bundles

The facade composes one profile and derives the lock and its bytes from the
composition it holds in memory. A bundle verified against its own lock has not
drifted.
-/

namespace Invokrum.Host

open Invokrum.Core Invokrum.Integrity Outcome
open Text (Bytes)
open Json (ReadsCompact)

def hostContractVersion : String := "invokrum.host/v1"

/-! ## The facade -/

structure ResolvedBundle where
  composition : Composition
  lockfile : Lockfile
  lockBytes : Bytes
deriving DecidableEq

structure VerifiedBundle where
  current : ResolvedBundle
  report : VerificationReport
deriving DecidableEq

def VerifiedBundle.isVerified (verified : VerifiedBundle) : Bool := verified.report.isVerified

inductive HostError where
  | composition (error : CompositionError)
  | integrity (error : IntegrityError)
deriving DecidableEq

def resolveBundle (pack : OverlayPack) (profile : Identifier) (source : OverlaySource)
    (limits : CompositionLimits) : Except HostError ResolvedBundle := do
  let composition ← (compose pack profile source limits).mapError .composition
  let lockfile ← (buildLockfile pack composition sha256Digester).mapError .integrity
  let lockBytes ← (encodeLockfile lockfile).mapError .integrity
  pure ⟨composition, lockfile, lockBytes⟩

def verifyBundle (expected : Lockfile) (pack : OverlayPack) (profile : Identifier)
    (source : OverlaySource) (limits : CompositionLimits) : Except HostError VerifiedBundle := do
  let current ← resolveBundle pack profile source limits
  let report ← (verify expected pack current.composition).mapError .integrity
  pure ⟨current, report⟩

/-! ## What the facade returns -/

section

variable {pack : OverlayPack} {profile : Identifier} {source : OverlaySource}
  {limits : CompositionLimits} {bundle : ResolvedBundle}

theorem resolveBundle_eq_ok : resolveBundle pack profile source limits = .ok bundle ↔
    compose pack profile source limits = .ok bundle.composition ∧
      buildLockfile pack bundle.composition sha256Digester = .ok bundle.lockfile ∧
        encodeLockfile bundle.lockfile = .ok bundle.lockBytes := by
  simp only [resolveBundle, bind_eq_ok, mapError_eq_ok, pure, Except.pure, Except.ok.injEq]
  constructor
  · rintro ⟨composition, hcompose, lockfile, hbuild, lockBytes, hencode, rfl⟩
    exact ⟨hcompose, hbuild, hencode⟩
  · rintro ⟨hcompose, hbuild, hencode⟩
    exact ⟨_, hcompose, _, hbuild, _, hencode, rfl⟩

/-- Whatever composes and builds a lock encodes it. -/
theorem resolveBundle_of_build {composition : Composition} {lockfile : Lockfile}
    (hcompose : compose pack profile source limits = .ok composition)
    (hbuild : buildLockfile pack composition sha256Digester = .ok lockfile) :
    resolveBundle pack profile source limits =
      .ok ⟨composition, lockfile, lockfile.toJson.toVec⟩ :=
  resolveBundle_eq_ok.mpr ⟨hcompose, hbuild, encodeLockfile_of_build hbuild⟩

/-- The lock bytes are within the limit of the decoder, which reads the lock back. -/
theorem decodeLockfile_lockBytes {fromSlice : Bytes → Option Json}
    (hreader : ReadsCompact fromSlice)
    (h : resolveBundle pack profile source limits = .ok bundle) :
    bundle.lockBytes.length ≤ maxLockfileBytes ∧
      decodeLockfile fromSlice bundle.lockBytes = .ok bundle.lockfile := by
  obtain ⟨_, _, hencode⟩ := resolveBundle_eq_ok.mp h
  obtain ⟨_, _, hsize⟩ := encodeLockfile_eq_ok.mp hencode
  exact ⟨hsize, (decodeLockfile_iff_encodeLockfile hreader).mpr hencode⟩

/-- A bundle does not drift from its own lock. -/
theorem verifyBundle_self (h : resolveBundle pack profile source limits = .ok bundle) :
    verifyBundle bundle.lockfile pack profile source limits = .ok ⟨bundle, ⟨[]⟩⟩ := by
  obtain ⟨_, hbuild, hencode⟩ := resolveBundle_eq_ok.mp h
  have hnone : drifts bundle.lockfile bundle.lockfile = [] :=
    drifts_eq_nil_iff.mpr ⟨rfl, rfl, rfl, rfl⟩
  have hverify : verify bundle.lockfile pack bundle.composition = .ok ⟨[]⟩ :=
    verify_eq_ok.mpr ⟨(encodeLockfile_eq_ok.mp hencode).1, _, hbuild, by rw [hnone]⟩
  simp [verifyBundle, h, hverify, pure, Except.pure, Except.mapError]

end

end Invokrum.Host
