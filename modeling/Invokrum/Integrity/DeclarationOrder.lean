import Invokrum.Integrity.Lockfile

/-!
# Declaration order

A pack file may declare its parts in any order. Acceptance, the pack and the
lockfile bytes of the same sources do not depend on it.
-/

namespace Invokrum.Integrity

open Invokrum.Core Ordered
open Text (Bytes)

/-- The same declarations, each of the four lists in some order. -/
structure Reordered (p q : PackParts) : Prop where
  id : p.id = q.id
  schemaFamily : p.schemaFamily = q.schemaFamily
  classes : p.classes.Perm q.classes
  overlays : p.overlays.Perm q.overlays
  profiles : p.profiles.Perm q.profiles
  «variables» : p.variables.Perm q.variables

theorem Reordered.new_iff {p q : PackParts} (h : Reordered p q) (r : OverlayPack) :
    OverlayPack.new p = .ok r ↔ OverlayPack.new q = .ok r :=
  OverlayPack.new_perm h.id h.schemaFamily h.classes h.overlays h.profiles h.variables r

theorem Reordered.toOption_eq {p q : PackParts} (h : Reordered p q) :
    (OverlayPack.new p).toOption = (OverlayPack.new q).toOption := by
  cases hp : OverlayPack.new p with
  | ok r => rw [(h.new_iff r).mp hp]
  | error e =>
      cases hq : OverlayPack.new q with
      | ok r => rw [(h.new_iff r).mpr hq] at hp; cases hp
      | error e' => rfl

/-- Declarations and sources to encoded lock bytes, if every stage succeeds. -/
def lockBytes (parts : PackParts) (profileId : Identifier) (source : OverlaySource)
    (limits : CompositionLimits) : Option Bytes := do
  let pack ← (OverlayPack.new parts).toOption
  let composition ← (compose pack profileId source limits).toOption
  let lockfile ← (buildLockfile pack composition sha256Digester).toOption
  (encodeLockfile lockfile).toOption

theorem Reordered.lockBytes_eq {p q : PackParts} (h : Reordered p q) :
    lockBytes p = lockBytes q := by
  funext profileId source limits
  rw [lockBytes, lockBytes, h.toOption_eq]

/-- A pack is accepted exactly when its declarations are well formed; its parts are
stored sorted, and neither their order nor rebuilding the pack changes anything. -/
theorem overlayPack_new_spec (p : PackParts) :
    ((∃ r, OverlayPack.new p = .ok r) ↔ p.Declared) ∧
    (∀ r, OverlayPack.new p = .ok r →
      r.classes.Pairwise (fun a b => a.order < b.order) ∧
      r.overlays.Pairwise (fun a b => a.id < b.id) ∧
      r.profiles.Pairwise (fun a b => a.id < b.id) ∧
      r.variables.Pairwise (fun a b => a.name < b.name)) ∧
    (∀ q, Reordered p q →
      (∀ r, OverlayPack.new p = .ok r ↔ OverlayPack.new q = .ok r) ∧
      lockBytes p = lockBytes q) ∧
    ∀ r : OverlayPack, OverlayPack.new p = .ok r → OverlayPack.new r.toPackParts = .ok r := by
  refine ⟨OverlayPack.exists_new_iff, ?_, ?_, ?_⟩
  · intro r _
    have hw := r.wellFormed
    exact ⟨hw.classes_sorted, hw.overlays_sorted, hw.profiles_sorted, hw.variables_sorted⟩
  · intro q h
    exact ⟨h.new_iff, h.lockBytes_eq⟩
  · intro r _
    exact r.new_self

end Invokrum.Integrity
