import Invokrum.Distribution.ManifestSize
import Invokrum.Distribution.Trust

/-!
# Ed25519 signatures over bundle subjects

The adapter frames the subject in a message of its own, has the signature
checked, and turns key and subject into an assertion. The signature library is a
parameter; the adapter hands it nothing but 32-byte keys and 64-byte signatures.
-/

namespace Invokrum.Verifier

open Outcome Invokrum.Distribution
open Text (Bytes)

def verificationMechanism : String := "ed25519-subject-v1"

def identityKeySha256 : String := "key.sha256"

def publicKeyBytes : Nat := 32

def signatureBytes : Nat := 64

def messageDomain : String := "invokrum.publisher-signature/v1"

/-- What a publisher signs. -/
def subjectMessage (subject : Sha256Digest) : String :=
  messageDomain ++ "\nsha256:" ++ subject.text ++ "\n"

theorem subjectMessage_injective : Function.Injective subjectMessage := by
  intro subject subject' h
  have hlists := congrArg String.toList h
  simp only [subjectMessage, String.toList_append, List.append_assoc, List.append_cancel_left_eq,
    List.append_cancel_right_eq] at hlists
  exact Sha256Digest.text_injective (String.toList_inj.mp hlists)

/-! ## The signature library -/

/-- Which byte strings are keys, which keys are weak, and which signatures of a message a key
accepts under strict verification. -/
structure Ed25519 (Key : Type) where
  fromBytes : Bytes → Option Key
  isWeak : Key → Bool
  verifyStrict : Key → Bytes → Bytes → Bool

/-- If the key is not weak, the signature is not good for both messages, unless they are one. -/
def Ed25519.Binding {Key : Type} (library : Ed25519 Key)
    (publicKey signature message message' : Bytes) : Prop :=
  ∀ key, library.fromBytes publicKey = some key → library.isWeak key = false →
    library.verifyStrict key message signature = true →
      library.verifyStrict key message' signature = true → message = message'

inductive VerificationError where
  | invalidPublicKeyLength
  | invalidPublicKey
  | weakPublicKey
  | invalidSignatureLength
  | signatureVerificationFailed
  | normalizationInvariant (error : DistributionError)
deriving DecidableEq

def VerificationError.text : VerificationError → String
  | .invalidPublicKeyLength => "Ed25519 public key must contain exactly 32 bytes"
  | .invalidPublicKey => "invalid Ed25519 public key"
  | .weakPublicKey => "weak Ed25519 public key is not accepted"
  | .invalidSignatureLength => "Ed25519 signature must contain exactly 64 bytes"
  | .signatureVerificationFailed => "Ed25519 subject signature verification failed"
  | .normalizationInvariant _ => "verified publisher assertion could not be normalized"

variable {Key : Type}

def verify (library : Ed25519 Key) (subject : Sha256Digest) (publicKey signature : Bytes) :
    Except VerificationError PublisherAssertion := do
  rejectIf (publicKey.length ≠ publicKeyBytes) .invalidPublicKeyLength
  let verifyingKey ← okOr (library.fromBytes publicKey) .invalidPublicKey
  rejectIf (library.isWeak verifyingKey = true) .weakPublicKey
  rejectIf (signature.length ≠ signatureBytes) .invalidSignatureLength
  rejectIf (library.verifyStrict verifyingKey (Text.bytes (subjectMessage subject)) signature
    = false) .signatureVerificationFailed
  let identity ← (PublisherIdentity.new
    [(identityKeySha256, Digest.sha256LowerHex publicKey)]).mapError .normalizationInvariant
  let mechanism ← (VerificationMechanism.parse verificationMechanism).mapError
    .normalizationInvariant
  pure ⟨mechanism, subject, identity⟩

/-! ## Normalized evidence -/

def fingerprint (publicKey : Bytes) : Sha256Digest :=
  ⟨Digest.sha256LowerHex publicKey, Digest.sha256LowerHex_valid publicKey⟩

theorem validMechanism_ed25519 : validMechanism verificationMechanism = true := by decide +kernel

theorem validAttributeName_key : validAttributeName identityKeySha256 = true := by decide +kernel

theorem validAttributeValue_digest (digest : Sha256Digest) :
    validAttributeValue digest.text = true := by
  have hvalid := digest.valid
  simp only [Digest.validSha256, Bool.and_eq_true, beq_iff_eq, List.all_eq_true] at hvalid
  obtain ⟨hlength, hhex⟩ := hvalid
  have hbyte : ∀ b : UInt8, Text.isLowerHexDigit b = true →
      b < 128 ∧ 32 ≤ b.toNat ∧ b.toNat < 127 := by
    decide +kernel
  obtain ⟨hchars, hcount⟩ := @ascii_of_bytes digest.text (fun b => 32 ≤ b.toNat ∧ b.toNat < 127)
    fun b hb => hbyte b (hhex b hb)
  have hplain : ∀ c ∈ digest.text.toList, isControl c = false := by
    intro c hc
    obtain ⟨hlt, hrange⟩ := hchars c hc
    rw [UInt8.toNat_ofNat', Nat.mod_eq_of_lt (by omega)] at hrange
    simp only [isControl, Bool.or_eq_false_iff, Bool.and_eq_false_iff, decide_eq_false_iff_not]
    omega
  have hfilled : digest.text.toList.isEmpty = false := by
    rw [List.isEmpty_eq_false_iff_exists_mem, ← List.length_pos_iff_exists_mem]
    omega
  simp only [validAttributeValue, hfilled, hlength, Bool.not_false, Bool.true_and, Bool.and_eq_true,
    decide_eq_true_eq, Bool.not_eq_true', List.any_eq_false, Bool.not_eq_true]
  exact ⟨by decide, hplain⟩

theorem validIdentity_key (digest : Sha256Digest) :
    ValidIdentity [(identityKeySha256, digest.text)] where
  nonempty := by simp
  count := by simp [maxIdentityAttributes]
  names := by simpa using validAttributeName_key
  values := by simpa using validAttributeValue_digest digest
  distinct := by simp

/-- The identity of a key: its fingerprint. -/
def keyIdentity (digest : Sha256Digest) : PublisherIdentity :=
  .of [(identityKeySha256, digest.text)] (validIdentity_key digest)

def ed25519Mechanism : VerificationMechanism := ⟨verificationMechanism, validMechanism_ed25519⟩

/-- What the adapter asserts about a subject that the owner of this key signed. -/
def keyAssertion (subject digest : Sha256Digest) : PublisherAssertion :=
  ⟨ed25519Mechanism, subject, keyIdentity digest⟩

theorem keyIdentity_entries (digest : Sha256Digest) :
    (keyIdentity digest).attributes.entries = [(identityKeySha256, digest.text)] := rfl

theorem keyIdentity_new (digest : Sha256Digest) :
    PublisherIdentity.new [(identityKeySha256, digest.text)] = .ok (keyIdentity digest) :=
  PublisherIdentity.new_eq_ok.mpr ⟨validIdentity_key digest, rfl⟩

theorem ed25519Mechanism_parse :
    VerificationMechanism.parse verificationMechanism = .ok ed25519Mechanism :=
  dif_pos validMechanism_ed25519

/-! ## What is accepted -/

/-- A strong key of 32 bytes accepts the 64-byte signature of this subject. -/
structure Accepts (library : Ed25519 Key) (subject : Sha256Digest) (publicKey signature : Bytes) :
    Prop where
  keyLength : publicKey.length = publicKeyBytes
  signatureLength : signature.length = signatureBytes
  strict : ∃ key, library.fromBytes publicKey = some key ∧ library.isWeak key = false ∧
    library.verifyStrict key (Text.bytes (subjectMessage subject)) signature = true

variable {library : Ed25519 Key} {subject : Sha256Digest} {publicKey signature : Bytes}
  {assertion : PublisherAssertion}

theorem verify_eq_ok : verify library subject publicKey signature = .ok assertion ↔
    Accepts library subject publicKey signature ∧
      assertion = keyAssertion subject (fingerprint publicKey) := by
  have hidentity : PublisherIdentity.new [(identityKeySha256, Digest.sha256LowerHex publicKey)] =
      .ok (keyIdentity (fingerprint publicKey)) := keyIdentity_new (fingerprint publicKey)
  simp only [verify, bind_eq_ok, rejectIf_eq_ok, okOr_eq_ok, mapError_eq_ok, exists_const, ne_eq,
    not_not, Bool.not_eq_true, Bool.not_eq_false, hidentity, ed25519Mechanism_parse, pure,
    Except.pure, Except.ok.injEq, exists_eq_left']
  constructor
  · intro h
    obtain ⟨hkey, key, hparse, hweak, hlength, hstrict, rfl⟩ := h
    exact ⟨⟨hkey, hlength, key, hparse, hweak, hstrict⟩, rfl⟩
  · intro h
    obtain ⟨⟨hkey, hlength, key, hparse, hweak, hstrict⟩, rfl⟩ := h
    exact ⟨hkey, key, hparse, hweak, hlength, hstrict, rfl⟩

/-- A signature that binds is good for one subject. -/
theorem Accepts.subject_unique {subject' : Sha256Digest}
    (hbinding : library.Binding publicKey signature (Text.bytes (subjectMessage subject))
      (Text.bytes (subjectMessage subject')))
    (h : Accepts library subject publicKey signature)
    (h' : Accepts library subject' publicKey signature) : subject = subject' := by
  obtain ⟨key, hparse, hweak, hstrict⟩ := h.strict
  obtain ⟨key', hparse', _, hstrict'⟩ := h'.strict
  rw [hparse] at hparse'
  cases hparse'
  have hmessage := hbinding key hparse hweak hstrict hstrict'
  exact subjectMessage_injective (Text.bytes_injective hmessage)

end Invokrum.Verifier
