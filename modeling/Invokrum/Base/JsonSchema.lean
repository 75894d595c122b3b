import Invokrum.Base.Json
import Invokrum.Base.Regex

/-!
# JSON schemas

The keywords of JSON Schema that published schemas use. A keyword says nothing
about a document of another type than the one it is for, and the order in which
an object lists its members does not matter.
-/

namespace Invokrum

inductive JsonType where
  | null
  | boolean
  | integer
  | string
  | array
  | object
deriving DecidableEq

/-- The keywords, each a schema by itself. -/
inductive JsonSchema where
  | anything
  | nothing
  | type (types : List JsonType)
  /-- `const` of a truth value -/
  | truth (value : Bool)
  /-- `enum` and `const` of strings -/
  | enum (values : List String)
  | minLength (length : Nat)
  | maxLength (length : Nat)
  | pattern (regex : Regex)
  | minimum (bound : Nat)
  | maximum (bound : Nat)
  | items (schema : JsonSchema)
  | uniqueItems
  /-- `minItems` and `maxItems` -/
  | size (least most : Nat)
  /-- `prefixItems`, the one at an index. -/
  | item (index : Nat) (schema : JsonSchema)
  | required (name : String)
  | property (name : String) (schema : JsonSchema)
  | propertyNames (schema : JsonSchema)
  /-- `additionalProperties`, for the members the names do not list. -/
  | additional (known : List String) (schema : JsonSchema)
  | both (first second : JsonSchema)
  | either (first second : JsonSchema)
  | not (schema : JsonSchema)

/-- An integer written with a fraction or an exponent is not counted as one. -/
def Json.type : Json → Option JsonType
  | .null => some .null
  | .bool _ => some .boolean
  | .unsigned _ => some .integer
  | .negative _ => some .integer
  | .real _ => none
  | .string _ => some .string
  | .array _ => some .array
  | .object _ => some .object

namespace JsonSchema

/-! ## Validation -/

def Valid : JsonSchema → Json → Prop
  | .anything, _ => True
  | .nothing, _ => False
  | .type types, j => ∃ type ∈ types, j.type = some type
  | .truth value, j => j = .bool value
  | .enum values, j => ∃ value ∈ values, j = .string value
  | .minLength length, j => ∀ s, j = .string s → length ≤ s.toList.length
  | .maxLength length, j => ∀ s, j = .string s → s.toList.length ≤ length
  | .pattern regex, j => ∀ s, j = .string s → regex.Test s.toList
  | .minimum bound, j => (∀ n, j = .unsigned n → bound ≤ n) ∧ ∀ n, j ≠ .negative n
  | .maximum bound, j => ∀ n, j = .unsigned n → n ≤ bound
  | .items schema, j => ∀ items, j = .array items → ∀ item ∈ items, schema.Valid item
  | .uniqueItems, j => ∀ items, j = .array items → items.Nodup
  | .size least most, j => ∀ items, j = .array items → least ≤ items.length ∧ items.length ≤ most
  | .item index schema, j => ∀ items, j = .array items →
      ∀ value, items[index]? = some value → schema.Valid value
  | .required name, j => ∀ members, j = .object members → name ∈ members.map Prod.fst
  | .property name schema, j => ∀ members, j = .object members →
      ∀ value, (name, value) ∈ members → schema.Valid value
  | .propertyNames schema, j => ∀ members, j = .object members →
      ∀ member ∈ members, schema.Valid (.string member.1)
  | .additional known schema, j => ∀ members, j = .object members →
      ∀ member ∈ members, member.1 ∉ known → schema.Valid member.2
  | .both first second, j => first.Valid j ∧ second.Valid j
  | .either first second, j => first.Valid j ∨ second.Valid j
  | .not schema, j => ¬ schema.Valid j

section

-- Makes the equations of `Valid` here, once, before the proofs that ask for them.
attribute [local simp] Valid

end

/-- Several keywords of one schema. -/
def all (schemas : List JsonSchema) : JsonSchema := schemas.foldr .both .anything

/-- `anyOf` -/
def any (schemas : List JsonSchema) : JsonSchema := schemas.foldr .either .nothing

/-- `if` and `then` -/
def implies (condition consequence : JsonSchema) : JsonSchema :=
  .either (.not condition) consequence

/-- An object with these members, the required ones present, and no others. -/
def closed (requiredNames : List String) (properties : List (String × JsonSchema)) : JsonSchema :=
  .all (.type [.object] :: .additional (properties.map Prod.fst) .nothing ::
    (requiredNames.map .required ++ properties.map fun p => .property p.1 p.2))

variable {first second schema : JsonSchema} {schemas : List JsonSchema} {j : Json} {s : String}
  {items : List Json} {members : List (String × Json)}

@[simp] theorem valid_all : (all schemas).Valid j ↔ ∀ schema ∈ schemas, schema.Valid j := by
  induction schemas with
  | nil => simp [all, Valid]
  | cons schema rest ih =>
      rw [List.forall_mem_cons, ← ih]
      rfl

@[simp] theorem valid_any : (any schemas).Valid j ↔ ∃ schema ∈ schemas, schema.Valid j := by
  induction schemas with
  | nil => simp [any, Valid]
  | cons schema rest ih =>
      rw [List.exists_mem_cons_iff, ← ih]
      rfl

@[simp] theorem valid_implies : (implies first second).Valid j ↔
    (first.Valid j → second.Valid j) := by
  show (¬ first.Valid j ∨ second.Valid j) ↔ _
  exact imp_iff_not_or.symm

/-! ## Strings -/

private theorem forall_string {P : String → Prop} :
    (∀ t, Json.string s = .string t → P t) ↔ P s := by
  simp

private theorem forall_array {P : List Json → Prop} :
    (∀ list, Json.array items = .array list → P list) ↔ P items := by
  simp

private theorem forall_object {P : List (String × Json) → Prop} :
    (∀ list, Json.object members = .object list → P list) ↔ P members := by
  simp

@[simp] theorem valid_type_string {types : List JsonType} :
    (type types).Valid (.string s) ↔ .string ∈ types := by
  simp [Valid, Json.type]

theorem valid_type {types : List JsonType} :
    (type types).Valid j ↔ ∃ type ∈ types, j.type = some type := .rfl

@[simp] theorem valid_minLength_string {length : Nat} :
    (minLength length).Valid (.string s) ↔ length ≤ s.toList.length :=
  forall_string

@[simp] theorem valid_maxLength_string {length : Nat} :
    (maxLength length).Valid (.string s) ↔ s.toList.length ≤ length :=
  forall_string

@[simp] theorem valid_pattern_string {regex : Regex} :
    (pattern regex).Valid (.string s) ↔ regex.Test s.toList :=
  forall_string

@[simp] theorem valid_enum_string {values : List String} :
    (enum values).Valid (.string s) ↔ s ∈ values := by
  simp [Valid]

@[simp] theorem valid_truth {value : Bool} : (truth value).Valid j ↔ j = .bool value := .rfl

@[simp] theorem valid_both : (both first second).Valid j ↔ first.Valid j ∧ second.Valid j := .rfl

@[simp] theorem valid_not : (not schema).Valid j ↔ ¬ schema.Valid j := .rfl

/-! ## Arrays and objects -/

@[simp] theorem valid_items_array :
    (JsonSchema.items schema).Valid (.array items) ↔ ∀ item ∈ items, schema.Valid item :=
  forall_array

@[simp] theorem valid_uniqueItems_array : uniqueItems.Valid (.array items) ↔ items.Nodup :=
  forall_array

@[simp] theorem valid_required_object {name : String} :
    (required name).Valid (.object members) ↔ name ∈ members.map Prod.fst :=
  forall_object

@[simp] theorem valid_property_object {name : String} :
    (property name schema).Valid (.object members) ↔
      ∀ value, (name, value) ∈ members → schema.Valid value :=
  forall_object

@[simp] theorem valid_additional_object {known : List String} :
    (additional known schema).Valid (.object members) ↔
      ∀ member ∈ members, member.1 ∉ known → schema.Valid member.2 :=
  forall_object

@[simp] theorem valid_propertyNames_object :
    (propertyNames schema).Valid (.object members) ↔
      ∀ member ∈ members, schema.Valid (.string member.1) :=
  forall_object

/-- The members of an object, each against the property of its name. -/
theorem valid_closed {requiredNames : List String} {properties : List (String × JsonSchema)} :
    (closed requiredNames properties).Valid (.object members) ↔
      (∀ name ∈ requiredNames, name ∈ members.map Prod.fst) ∧
        (∀ member ∈ members, member.1 ∈ properties.map Prod.fst) ∧
          ∀ property ∈ properties, ∀ value, (property.1, value) ∈ members →
            property.2.Valid value := by
  have htype : (type [.object]).Valid (.object members) := ⟨_, List.mem_singleton_self _, rfl⟩
  have hknown : (additional (properties.map Prod.fst) nothing).Valid (.object members) ↔
      ∀ member ∈ members, member.1 ∈ properties.map Prod.fst := by
    rw [valid_additional_object]
    exact forall₂_congr fun member _ => not_imp_comm.trans (by simp [Valid])
  unfold closed
  rw [valid_all, List.forall_mem_cons, List.forall_mem_cons, List.forall_mem_append,
    List.forall_mem_map, List.forall_mem_map, hknown]
  simp only [valid_required_object, valid_property_object, htype, true_and]
  tauto

/-- A validated object lists its members in any order. -/
theorem Valid.perm {members' : List (String × Json)} (h : members.Perm members') :
    schema.Valid (.object members) ↔ schema.Valid (.object members') := by
  have hnames : ∀ name, name ∈ members.map Prod.fst ↔ name ∈ members'.map Prod.fst :=
    fun _ => (h.map Prod.fst).mem_iff
  induction schema with
  | both first second hfirst hsecond => exact and_congr hfirst hsecond
  | either first second hfirst hsecond => exact or_congr hfirst hsecond
  | not schema ih => exact not_congr ih
  | required name => rw [valid_required_object, valid_required_object, hnames]
  | property name schema => simp only [valid_property_object, h.mem_iff]
  | propertyNames schema => simp only [valid_propertyNames_object, h.mem_iff]
  | additional known schema => simp only [valid_additional_object, h.mem_iff]
  | _ => simp [Valid, Json.type]

end JsonSchema

end Invokrum
