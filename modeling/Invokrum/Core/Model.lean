import Invokrum.Base.Ordered
import Invokrum.Base.Outcome
import Invokrum.Base.Text

/-!
# Domain values of an overlay pack

Identifiers, pack-relative paths and cardinalities carry the check their parser
makes, so no later theorem has to assume it.
-/

namespace Invokrum.Core

open Outcome Ordered

/-! ## Identifiers -/

/-- The test `Identifier::parse` applies to its argument. -/
def identifierValid (value : String) : Bool :=
  !(value.isEmpty || 128 < Text.byteLength value) &&
    (Text.bytes value).all fun byte =>
      Text.isAsciiAlphanumeric byte || byte == 45 || byte == 95 || byte == 46

structure Identifier where
  text : String
  valid : identifierValid text = true
deriving DecidableEq

namespace Identifier

theorem text_injective : Function.Injective Identifier.text := by
  intro a b h
  cases a; cases b; cases h; rfl

instance : LinearOrder Identifier := LinearOrder.lift' Identifier.text text_injective

@[simp] theorem text_inj {a b : Identifier} : a.text = b.text ↔ a = b :=
  text_injective.eq_iff

end Identifier

/-! ## Pack-relative paths -/

/-- The test `PackRelativePath::parse` applies to its argument. -/
def packRelativePathValid (value : String) : Bool :=
  let text := value.toList
  !(text.isEmpty
    || text.head? == some '/'
    || text.getLast? == some '/'
    || text.contains '\\'
    || text.contains ':'
    || text.contains '\x00'
    || (Text.split '/' text).any fun segment =>
        segment.isEmpty || segment == ['.'] || segment == ['.', '.'])

structure PackRelativePath where
  text : String
  valid : packRelativePathValid text = true
deriving DecidableEq

namespace PackRelativePath

theorem text_injective : Function.Injective PackRelativePath.text := by
  intro a b h
  cases a; cases b; cases h; rfl

@[simp] theorem text_inj {a b : PackRelativePath} : a.text = b.text ↔ a = b :=
  text_injective.eq_iff

end PackRelativePath

/-! ## Cardinalities -/

/-- Inclusive minimum and optional maximum selections for an overlay class. -/
structure Cardinality where
  minimum : UInt32
  maximum : Option UInt32
  ordered : ∀ m, maximum = some m → minimum ≤ m
deriving DecidableEq

/-- A selection count beyond `u32` is never accepted. -/
def Cardinality.accepts (c : Cardinality) (count : Nat) : Bool :=
  if count < 2 ^ 32 then
    c.minimum.toNat ≤ count && c.maximum.all fun maximum => count ≤ maximum.toNat
  else false

/-! ## Declarations -/

inductive Sensitivity where
  | «public»
  | secret
deriving DecidableEq

structure Variable where
  name : Identifier
  sensitivity : Sensitivity
deriving DecidableEq

/-- An explicitly ordered overlay class. -/
structure OverlayClass where
  id : Identifier
  order : UInt32
  cardinality : Cardinality
deriving DecidableEq

/-- A selectable overlay belonging to one class. -/
structure Overlay where
  id : Identifier
  classId : Identifier
  source : PackRelativePath
  incompatibleWith : SortedSet Identifier
deriving DecidableEq

/-- A named set of overlay selections keyed by class. -/
structure Profile where
  id : Identifier
  selections : SortedMap Identifier (List Identifier)
deriving DecidableEq

/-- The selection list of one class; a class the profile does not mention selects nothing. -/
def Profile.selected (p : Profile) (classId : Identifier) : List Identifier :=
  (p.selections.get classId).getD []

/-! ## Errors -/

inductive DomainError where
  | invalidIdentifier (value : String)
  | invalidPackRelativePath (value : String)
  | invalidCardinality (minimum : UInt32) (maximum : Option UInt32)
  | emptySchemaFamily
  | duplicateIdentifier (kind : String) (identifier : Identifier)
  | duplicateClassOrder (order : UInt32)
  | unknownClass (overlay classId : Identifier)
  | unknownProfileClass (profile classId : Identifier)
  | unknownOverlayReference (overlay : Identifier)
  | duplicateProfileSelection (overlay : Identifier)
  | overlayClassMismatch (overlay expected actual : Identifier)
  | cardinalityViolation (profile classId : Identifier) (count : Nat)
deriving DecidableEq

/-! ## Parsers -/

def Identifier.parse (value : String) : Except DomainError Identifier :=
  if h : identifierValid value = true then .ok ⟨value, h⟩ else .error (.invalidIdentifier value)

def PackRelativePath.parse (value : String) : Except DomainError PackRelativePath :=
  if h : packRelativePathValid value = true then .ok ⟨value, h⟩
  else .error (.invalidPackRelativePath value)

def Cardinality.new (minimum : UInt32) (maximum : Option UInt32) :
    Except DomainError Cardinality :=
  if h : ∀ m, maximum = some m → minimum ≤ m then .ok ⟨minimum, maximum, h⟩
  else .error (.invalidCardinality minimum maximum)

theorem Identifier.parse_eq_ok {value : String} {id : Identifier} :
    Identifier.parse value = .ok id ↔ id.text = value := by
  unfold Identifier.parse
  constructor
  · intro h
    split at h <;> simp_all
    rw [← h]
  · rintro rfl
    simp [id.valid]

theorem PackRelativePath.parse_eq_ok {value : String} {path : PackRelativePath} :
    PackRelativePath.parse value = .ok path ↔ path.text = value := by
  unfold PackRelativePath.parse
  constructor
  · intro h
    split at h <;> simp_all
    rw [← h]
  · rintro rfl
    simp [path.valid]

example : (Identifier.parse "mode/read-only").toOption = none := by decide

example : (PackRelativePath.parse "overlays/../secret.md").toOption = none := by decide

end Invokrum.Core
