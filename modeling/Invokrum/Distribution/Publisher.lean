import Invokrum.Distribution.Bundle

/-!
# Publisher evidence

Mechanisms and identities carry the checks of their constructors. An assertion
binds an identity to one subject.
-/

namespace Invokrum.Distribution

open Ordered

def maxIdentityAttributes : Nat := 32

def maxIdentityNameBytes : Nat := 128

def maxIdentityValueBytes : Nat := 1024

/-- Lowercase letters, digits and `.`, `_`, `-`. -/
def normalizedNameByte (byte : UInt8) : Bool :=
  Text.isAsciiLower byte || Text.isAsciiDigit byte || byte == 46 || byte == 95 || byte == 45

/-- The shared test of mechanism identifiers and attribute names. -/
def normalizedName (maximum : Nat) (value : String) : Bool :=
  !value.toList.isEmpty && Text.byteLength value ≤ maximum &&
    (Text.bytes value).all normalizedNameByte

def validMechanism (value : String) : Bool := normalizedName 128 value

def validAttributeName (value : String) : Bool := normalizedName maxIdentityNameBytes value

/-- `char::is_control`. -/
def isControl (c : Char) : Bool := c.toNat < 32 || (127 ≤ c.toNat && c.toNat < 160)

def validAttributeValue (value : String) : Bool :=
  !value.toList.isEmpty && Text.byteLength value ≤ maxIdentityValueBytes &&
    !value.toList.any isControl

structure VerificationMechanism where
  text : String
  valid : validMechanism text = true
deriving DecidableEq

theorem VerificationMechanism.text_injective : Function.Injective VerificationMechanism.text := by
  intro a b h
  cases a; cases b; cases h; rfl

/-- Between one and 32 attributes with normalized names. -/
structure PublisherIdentity where
  attributes : SortedMap String String
  nonempty : attributes.entries ≠ []
  count : attributes.entries.length ≤ maxIdentityAttributes
  names : ∀ entry ∈ attributes.entries, validAttributeName entry.1 = true
  values : ∀ entry ∈ attributes.entries, validAttributeValue entry.2 = true
deriving DecidableEq

theorem PublisherIdentity.attributes_injective :
    Function.Injective PublisherIdentity.attributes := by
  intro a b h
  cases a; cases b; cases h; rfl

structure PublisherAssertion where
  mechanism : VerificationMechanism
  subject : Sha256Digest
  identity : PublisherIdentity
deriving DecidableEq

end Invokrum.Distribution
