import Invokrum.Base.JsonSchema
import Invokrum.Distribution.PathGrammar
import Invokrum.Schema.DeclaredMembers
import Invokrum.Schema.Normalize

/-!
# The published pack schema

A document that the parser accepts has passed what the schema asks, apart from
how it is written. The library also takes a structure by position and a
sensitivity as an object, and `.` of a pattern stops at a line terminator.
-/

namespace Invokrum.Schema

open Ordered Outcome Regex Invokrum.Core
open Invokrum.Distribution (SegmentAt mem_split_slash nil_mem_split_iff test_start accepts_plus_stop
  accepts_dots accepts_dots_lit accepts_dots_twice accepts_dots_end ascii_of_bytes)
open JsonSchema (Valid closed valid_closed)

/-! ## The schema -/

/-- `[A-Za-z0-9._-]` -/
def isIdentifierChar (c : Char) : Bool :=
  c.isUpper || c.isLower || c.isDigit || c == '.' || c == '_' || c == '-'

def identifierSchema : JsonSchema :=
  .all [.type [.string], .minLength 1, .maxLength 128,
    .pattern (.sequence [.start, .plus (.chars isIdentifierChar), .stop])]

/-- The pattern
`^(?!/)(?!.*\\)(?!.*:)(?!.*//)(?!\.{1,2}(?:/|$))(?!.*\/\.{1,2}(?:/|$))(?!.*\/$).+$`. -/
def portablePattern : Regex :=
  .sequence [
    .start,
    .notAhead (lit '/'),
    .notAhead (sequence [.star dot, lit '\\']),
    .notAhead (sequence [.star dot, lit ':']),
    .notAhead (sequence [.star dot, lit '/', lit '/']),
    .notAhead (sequence [lit '.', optional (lit '.'), .alt (lit '/') .stop]),
    .notAhead (sequence [.star dot, lit '/', lit '.', optional (lit '.'), .alt (lit '/') .stop]),
    .notAhead (sequence [.star dot, lit '/', .stop]),
    plus dot,
    .stop]

def portablePathSchema : JsonSchema :=
  .all [.type [.string], .minLength 1, .pattern portablePattern]

def countSchema : JsonSchema := .all [.type [.integer], .minimum 0, .maximum 4294967295]

def listSchema (items : JsonSchema) : JsonSchema := .both (.type [.array]) (.items items)

def identifiersSchema : JsonSchema := .all [.type [.array], .uniqueItems, .items identifierSchema]

def classSchema : JsonSchema :=
  .closed ["id", "order", "minimum"] [
    ("id", identifierSchema),
    ("order", countSchema),
    ("minimum", countSchema),
    ("maximum", .all [.type [.integer, .null], .minimum 0, .maximum 4294967295])]

def overlaySchema : JsonSchema :=
  .closed ["id", "class", "source"] [
    ("id", identifierSchema),
    ("class", identifierSchema),
    ("source", portablePathSchema),
    ("incompatible_with", identifiersSchema)]

def selectionsSchema : JsonSchema :=
  .all [.type [.object], .propertyNames identifierSchema, .additional [] identifiersSchema]

def profileSchema : JsonSchema :=
  .closed ["id", "selections"] [("id", identifierSchema), ("selections", selectionsSchema)]

def variableSchema : JsonSchema :=
  .closed ["name", "sensitivity"] [
    ("name", identifierSchema),
    ("sensitivity", .enum ["public", "secret"])]

def packSchema : JsonSchema :=
  .closed ["schema", "id", "classes"] [
    ("schema", .enum [schemaFamily]),
    ("id", identifierSchema),
    ("classes", listSchema classSchema),
    ("overlays", listSchema overlaySchema),
    ("profiles", listSchema profileSchema),
    ("variables", listSchema variableSchema)]

/-- What the schema asks of a pack apart from its declarations. -/
def headSchema : JsonSchema :=
  .closed ["schema", "id", "classes"] [
    ("schema", .enum [schemaFamily]),
    ("id", identifierSchema),
    ("classes", .type [.array]),
    ("overlays", .type [.array]),
    ("profiles", .type [.array]),
    ("variables", .type [.array])]

/-! ## How a document is written -/

/-- A value under a name of an object. -/
def Has (j : Json) (name : String) (value : Json) : Prop :=
  ∃ members, j = .object members ∧ (name, value) ∈ members

def Entry (j : Json) (name : String) (item : Json) : Prop :=
  ∃ items, Has j name (.array items) ∧ item ∈ items

def IsObject (j : Json) : Prop := ∃ members, j = .object members

/-- No line terminator of ECMA-262. -/
def OneLine (text : String) : Prop := ∀ c ∈ text.toList, isDot c = true

structure PortableOverlay (j : Json) : Prop where
  object : IsObject j
  source : ∀ text, Has j "source" (.string text) → OneLine text

structure PortableVariable (j : Json) : Prop where
  object : IsObject j
  sensitivity : ∀ value, Has j "sensitivity" value → ∃ text, value = .string text

/-- Structures are objects, sensitivities are strings and sources are one line. -/
structure Portable (j : Json) : Prop where
  classes : ∀ item, Entry j "classes" item → IsObject item
  overlays : ∀ item, Entry j "overlays" item → PortableOverlay item
  profiles : ∀ item, Entry j "profiles" item → IsObject item
  «variables» : ∀ item, Entry j "variables" item → PortableVariable item

/-- The pack is valid apart from its declarations, and each of these is valid exactly when it is
portable. -/
structure Conforms (j : Json) : Prop where
  head : headSchema.Valid j
  classes : ∀ item, Entry j "classes" item → (classSchema.Valid item ↔ IsObject item)
  overlays : ∀ item, Entry j "overlays" item → (overlaySchema.Valid item ↔ PortableOverlay item)
  profiles : ∀ item, Entry j "profiles" item → (profileSchema.Valid item ↔ IsObject item)
  «variables» : ∀ item, Entry j "variables" item →
    (variableSchema.Valid item ↔ PortableVariable item)

theorem has_object {members : List (String × Json)} {name : String} {value : Json} :
    Has (.object members) name value ↔ (name, value) ∈ members := by
  constructor
  · intro h
    obtain ⟨_, heq, hmember⟩ := h
    cases heq
    exact hmember
  · intro h
    exact ⟨members, rfl, h⟩

/-! ## Structures -/

section

variable {required optional : List String} {members : List (String × Json)}
  {values : List (Option Json)} {properties : List (String × JsonSchema)} {j : Json}

theorem record_object_eq_some
    (h : Json.record required optional (.object members) = some values) :
    (members.map Prod.fst).Nodup ∧ (∀ name ∈ members.map Prod.fst, name ∈ required ++ optional) ∧
      (∀ name ∈ required, name ∈ members.map Prod.fst) ∧
        values = (required ++ optional).map fun name => members.lookup name := by
  rw [Json.record] at h
  split at h
  · next hvalid => exact ⟨hvalid.1, hvalid.2.1, hvalid.2.2, (Option.some.inj h).symm⟩
  · cases h

theorem object_of_valid_closed (h : (closed required properties).Valid j) : IsObject j := by
  rw [closed, JsonSchema.valid_all, List.forall_mem_cons] at h
  obtain ⟨⟨type, htype, hj⟩, _⟩ := h
  obtain rfl := List.mem_singleton.mp htype
  cases j with
  | object members => exact ⟨members, rfl⟩
  | _ => cases hj

/-- An object that a structure was read from is checked field by field. -/
theorem valid_closed_of_record
    (h : Json.record required optional (.object members) = some values)
    (hnames : required ++ optional = properties.map Prod.fst) :
    (closed required properties).Valid (.object members) ↔
      List.Forall₂ (fun property value => ∀ v, value = some v → property.2.Valid v) properties
        values := by
  obtain ⟨hnodup, hknown, hrequired, rfl⟩ := record_object_eq_some h
  have hlookup : ∀ name value, (name, value) ∈ members ↔ members.lookup name = some value :=
    fun name value => (SortedMap.lookup_eq_some_iff hnodup).symm
  rw [valid_closed, hnames, List.map_map, List.forall₂_map_right_iff, List.forall₂_same]
  constructor
  · intro hvalid property hproperty value hvalue
    exact hvalid.2.2 property hproperty value ((hlookup _ _).mpr hvalue)
  · intro hvalid
    refine ⟨hrequired, ?_, ?_⟩
    · intro member hmember
      exact hnames ▸ hknown _ (List.mem_map_of_mem hmember)
    · intro property hproperty value hvalue
      exact hvalid property hproperty value ((hlookup _ _).mp hvalue)

/-- The value under a name is the one that was read for it. -/
theorem has_iff_of_record (h : Json.record required optional (.object members) = some values)
    {name : String} {value : Option Json}
    (hvalue : (name, value) ∈ (required ++ optional).zip values) (v : Json) :
    Has (.object members) name v ↔ value = some v := by
  obtain ⟨hnodup, _, _, rfl⟩ := record_object_eq_some h
  rw [← List.map_prod_left_eq_zip] at hvalue
  obtain ⟨_, _, heq⟩ := List.mem_map.mp hvalue
  cases heq
  rw [has_object, SortedMap.lookup_eq_some_iff hnodup]

/-- The validity of an object may rest on the value of one field. -/
theorem valid_closed_iff_of_field {p : Json → Prop} (name : String) {value : Json}
    (h : Json.record required optional j = some values)
    (hvalue : (name, some value) ∈ (required ++ optional).zip values)
    (hvalid : ∀ members, j = .object members → ((closed required properties).Valid j ↔ p value)) :
    (closed required properties).Valid j ↔ IsObject j ∧ ∀ v, Has j name v → p v := by
  have hhas : ∀ members, j = .object members → ∀ v, Has j name v ↔ v = value := by
    intro members hobject v
    subst hobject
    rw [has_iff_of_record h hvalue, Option.some.injEq, eq_comm]
  constructor
  · intro hclosed
    obtain ⟨members, hobject⟩ := object_of_valid_closed hclosed
    refine ⟨⟨members, hobject⟩, ?_⟩
    intro v hv
    rw [(hhas members hobject v).mp hv]
    exact (hvalid members hobject).mp hclosed
  · intro hfield
    obtain ⟨⟨members, hobject⟩, hfield⟩ := hfield
    exact (hvalid members hobject).mpr (hfield value ((hhas members hobject value).mpr rfl))

end

/-! ## Fields -/

theorem isIdentifierChar_of_lt : ∀ n < 128, (Text.isAsciiAlphanumeric n.toUInt8 ||
    n.toUInt8 == 45 || n.toUInt8 == 95 || n.toUInt8 == 46) = true →
      isIdentifierChar (Char.ofNat n) = true := by
  decide

theorem lt_of_identifierByte {b : UInt8} (h : (Text.isAsciiAlphanumeric b || b == 45 || b == 95 ||
    b == 46) = true) : b < 128 := by
  simp only [Text.isAsciiAlphanumeric, Text.isAsciiLower, Text.isAsciiUpper, Text.isAsciiDigit,
    Bool.or_eq_true, Bool.and_eq_true, decide_eq_true_eq, beq_iff_eq, UInt8.le_iff_toNat_le,
    ← UInt8.toNat_inj, UInt8.reduceToNat] at h
  rw [UInt8.lt_iff_toNat_lt]
  simp only [UInt8.reduceToNat]
  omega

theorem valid_identifier (id : Identifier) : identifierSchema.Valid (.string id.text) := by
  have hvalid := id.valid
  simp only [identifierValid, Bool.and_eq_true, Bool.not_eq_true', Bool.or_eq_false_iff,
    decide_eq_false_iff_not, List.all_eq_true, not_lt] at hvalid
  obtain ⟨⟨hne, hshort⟩, hbytes⟩ := hvalid
  obtain ⟨hchars, hlength⟩ := @ascii_of_bytes id.text (fun b => (Text.isAsciiAlphanumeric b ||
    b == 45 || b == 95 || b == 46) = true) fun b hb => ⟨lt_of_identifierByte (hbytes b hb),
      hbytes b hb⟩
  have hnil : id.text.toList ≠ [] := by
    intro hnil
    rw [String.toList_eq_nil_iff.mp hnil] at hne
    cases hne
  have hall : ∀ c ∈ id.text.toList, isIdentifierChar c = true := by
    intro c hc
    have hchar := isIdentifierChar_of_lt c.toNat (hchars c hc).1 (hchars c hc).2
    rwa [Char.ofNat_toNat] at hchar
  have htest : (Regex.sequence [.start, .plus (.chars isIdentifierChar), .stop]).Test
      id.text.toList := by
    rw [sequence_cons, test_start]
    exact accepts_plus_stop.mpr ⟨hnil, hall⟩
  have hpos : 1 ≤ id.text.toList.length := List.length_pos_iff.mpr hnil
  simp only [identifierSchema, JsonSchema.valid_all, List.forall_mem_cons,
    JsonSchema.valid_type_string, JsonSchema.valid_minLength_string,
    JsonSchema.valid_maxLength_string, JsonSchema.valid_pattern_string]
  exact ⟨List.mem_singleton_self _, hpos, hlength ▸ hshort, htest, fun _ h => by cases h⟩

theorem asArray_eq_some {j : Json} {items : List Json} :
    j.asArray = some items ↔ j = .array items := by
  cases j <;> simp [Json.asArray]

theorem valid_identifier_of_read {j : Json} {text : String} {id : Identifier}
    (h : j.asString = some text) (hid : id.text = text) : identifierSchema.Valid j := by
  rw [Json.asString_eq_some.mp h, ← hid]
  exact valid_identifier id

theorem valid_count {j : Json} {n : UInt32} (h : j.asUInt32 = some n) : countSchema.Valid j := by
  cases j with
  | unsigned m =>
      have hm : m ≤ 4294967295 := by
        rw [Json.asUInt32] at h
        split at h
        · next hlt => omega
        · cases h
      simp [countSchema, Valid, Json.type, hm]
  | _ => cases h

theorem valid_maximum {value : Option Json} {maximum : Option UInt32}
    (h : Json.asOptionUInt32 value = some maximum) {v : Json} (hv : value = some v) :
    (JsonSchema.all [.type [.integer, .null], .minimum 0, .maximum 4294967295]).Valid v := by
  rw [hv] at h
  by_cases hnull : v = .null
  · simp [hnull, Valid, Json.type]
  · have hcount : ∃ n, v.asUInt32 = some n := by
      cases v with
      | null => exact absurd rfl hnull
      | _ =>
          rw [Json.asOptionUInt32, Option.map_eq_some_iff] at h
          · obtain ⟨n, hn, _⟩ := h
            exact ⟨n, hn⟩
          · simp
    obtain ⟨n, hn⟩ := hcount
    have hvalid := valid_count hn
    simp only [countSchema, JsonSchema.valid_all, List.forall_mem_cons] at hvalid ⊢
    obtain ⟨⟨type, htype, hj⟩, hrest⟩ := hvalid
    exact ⟨⟨type, List.mem_cons.mpr (.inl (List.mem_singleton.mp htype)), hj⟩, hrest⟩

/-- A list of distinct identifiers is valid as it was read. -/
theorem valid_identifiers {items : List Json} {ids : List Identifier} {texts : List String}
    (h : items.mapM Json.asString = some texts) (htexts : ids.map Identifier.text = texts)
    (hnodup : ids.Nodup) : identifiersSchema.Valid (.array items) := by
  have hitems : items = ids.map fun id => Json.string id.text := by
    have hall := Json.mapM_eq_some.mp h
    rw [← htexts, List.forall₂_map_right_iff] at hall
    rw [← List.forall₂_eq_eq_eq, List.forall₂_map_right_iff]
    exact hall.imp fun item id hitem => Json.asString_eq_some.mp hitem
  have hdistinct : items.Nodup := by
    rw [hitems]
    exact hnodup.map fun a b hab => Identifier.text_injective (Json.string.inj hab)
  have hvalid : ∀ item ∈ items, identifierSchema.Valid item := by
    rw [hitems, List.forall_mem_map]
    exact fun id _ => valid_identifier id
  have htype : (JsonSchema.type [.array]).Valid (.array items) :=
    ⟨_, List.mem_singleton_self _, rfl⟩
  simp only [identifiersSchema, JsonSchema.valid_all, List.forall_mem_cons,
    JsonSchema.valid_uniqueItems_array, JsonSchema.valid_items_array]
  exact ⟨htype, hdistinct, hvalid, fun _ h => by cases h⟩

/-! ## Source paths -/

/-- What the parser asks of a source path. -/
theorem segments_of_path (path : PackRelativePath) :
    '\\' ∉ path.text.toList ∧ ':' ∉ path.text.toList ∧ [] ∉ Text.split '/' path.text.toList ∧
      ['.'] ∉ Text.split '/' path.text.toList ∧ ['.', '.'] ∉ Text.split '/' path.text.toList := by
  have hvalid := path.valid
  simp only [packRelativePathValid, Bool.not_eq_true', Bool.or_eq_false_iff,
    List.any_eq_false] at hvalid
  obtain ⟨⟨⟨_, hbackslash⟩, hcolon⟩, _⟩ := hvalid.1
  have hno : ∀ segment, (segment.isEmpty || segment == ['.'] || segment == ['.', '.']) = true →
      segment ∉ Text.split '/' path.text.toList := by
    intro segment hbad hmem
    exact hvalid.2 segment hmem hbad
  refine ⟨?_, ?_, hno _ rfl, hno _ rfl, hno _ rfl⟩
  · simpa using hbackslash
  · simpa using hcolon

theorem portablePattern_iff (path : PackRelativePath) :
    portablePattern.Test path.text.toList ↔ OneLine path.text := by
  obtain ⟨hbackslash, hcolon, hempty, hdot, hdots⟩ := segments_of_path path
  rw [nil_mem_split_iff, not_or, not_or, not_or] at hempty
  obtain ⟨hne, hhead, hlast, htwice⟩ := hempty
  rw [mem_split_slash (by decide), not_or] at hdot hdots
  rw [portablePattern, sequence_cons, test_start]
  simp only [sequence_cons (.notAhead _), accepts_seq_notAhead, accepts_lit, accepts_plus_stop, dot]
  constructor
  · intro h
    exact h.2.2.2.2.2.2.2.2
  · intro hline
    -- on one line `.*` reaches every place, so that each look-ahead sees the whole path
    have hall : ∀ c ∈ path.text.toList, isDot c = true := hline
    have hbelow : ¬ (sequence [.star dot, lit '/', lit '.', optional (lit '.'),
        .alt (lit '/') .stop]).Accepts [] path.text.toList := by
      rw [sequence_cons, accepts_dots hall]
      intro hex
      obtain ⟨left, right, htext, hright⟩ := hex
      rw [sequence_cons, accepts_seq_lit] at hright
      obtain ⟨tail, rfl, hend⟩ := hright
      rcases accepts_dots_end.mp hend with hone | htwo
      · exact hdot.2 ⟨left, tail, htext, hone⟩
      · exact hdots.2 ⟨left, tail, htext, htwo⟩
    have hend : ¬ (sequence [.star dot, lit '/', .stop]).Accepts [] path.text.toList := by
      rw [sequence_cons, accepts_dots hall]
      intro hex
      obtain ⟨left, right, htext, hright⟩ := hex
      rw [sequence_cons, accepts_seq_lit] at hright
      obtain ⟨tail, rfl, hstop⟩ := hright
      rw [sequence_cons, accepts_seq_stop] at hstop
      obtain ⟨rfl, _⟩ := hstop
      exact hlast ⟨left, htext⟩
    refine ⟨hhead, ?_, ?_, ?_, ?_, hbelow, hend, hne, hall⟩
    · exact fun h => hbackslash ((accepts_dots_lit hall).mp h)
    · exact fun h => hcolon ((accepts_dots_lit hall).mp h)
    · exact fun h => htwice ((accepts_dots_twice hall).mp h)
    · exact fun h => (accepts_dots_end.mp h).elim hdot.1 hdots.1

theorem valid_portablePath_iff (path : PackRelativePath) :
    portablePathSchema.Valid (.string path.text) ↔ OneLine path.text := by
  have hne : path.text.toList ≠ [] := by
    have hempty := (segments_of_path path).2.2.1
    rw [nil_mem_split_iff, not_or] at hempty
    exact hempty.1
  have hpos : 1 ≤ path.text.toList.length := List.length_pos_iff.mpr hne
  simp only [portablePathSchema, JsonSchema.valid_all, List.forall_mem_cons,
    JsonSchema.valid_type_string, JsonSchema.valid_minLength_string,
    JsonSchema.valid_pattern_string, portablePattern_iff]
  constructor
  · intro h
    exact h.2.2.1
  · intro h
    exact ⟨List.mem_singleton_self _, hpos, h, fun _ hmem => by cases hmem⟩

/-! ## Declarations -/

section

variable {j : Json}

theorem valid_class_iff {document : ClassDocument} {c : OverlayClass}
    (hread : ClassDocument.ofJson j = some document) (hparse : parseClass document = .ok c) :
    classSchema.Valid j ↔ IsObject j := by
  refine ⟨object_of_valid_closed, ?_⟩
  intro hobject
  obtain ⟨members, rfl⟩ := hobject
  obtain ⟨id, order, minimum, maximum, hrecord, hid, horder, hminimum, hmaximum⟩ :=
    ClassDocument.ofJson_eq_some.mp hread
  rw [classSchema, valid_closed_of_record hrecord rfl]
  refine .cons ?_ (.cons ?_ (.cons ?_ (.cons (fun v hv => valid_maximum hmaximum hv) .nil)))
  · intro v hv
    exact Option.some.inj hv ▸ valid_identifier_of_read hid (parseClass_eq_ok.mp hparse).1
  · intro v hv
    exact Option.some.inj hv ▸ valid_count horder
  · intro v hv
    exact Option.some.inj hv ▸ valid_count hminimum

theorem valid_overlay_iff {document : OverlayDocument} {o : Overlay}
    (hread : OverlayDocument.ofJson j = some document) (hparse : parseOverlay document = .ok o) :
    overlaySchema.Valid j ↔ PortableOverlay j := by
  obtain ⟨id, classId, source, incompatibleWith, items, hrecord, hid, hclassId, hsource, hitems,
    hincompatible⟩ := OverlayDocument.ofJson_eq_some.mp hread
  obtain ⟨hidText, hclassText, hsourceText, ids, hids, hnodup, _⟩ := parseOverlay_eq_ok.mp hparse
  have hpath : source = .string o.source.text := by
    rw [Json.asString_eq_some.mp hsource, hsourceText]
  have hvalid : ∀ members, j = .object members →
      (overlaySchema.Valid j ↔ ∀ text, source = .string text → OneLine text) := by
    intro members hobject
    subst hobject
    rw [overlaySchema, valid_closed_of_record hrecord rfl, hpath]
    constructor
    · intro h text htext
      simp only [List.forall₂_cons] at h
      rw [← Json.string.inj htext]
      exact (valid_portablePath_iff o.source).mp (h.2.2.1 _ rfl)
    · intro h
      refine .cons ?_ (.cons ?_ (.cons ?_ (.cons ?_ .nil)))
      · intro v hv
        exact Option.some.inj hv ▸ valid_identifier_of_read hid hidText
      · intro v hv
        exact Option.some.inj hv ▸ valid_identifier_of_read hclassId hclassText
      · intro v hv
        exact Option.some.inj hv ▸ (valid_portablePath_iff o.source).mpr (h _ rfl)
      · intro v hv
        rw [hv] at hitems
        rw [asArray_eq_some.mp hitems]
        exact valid_identifiers hincompatible hids hnodup
  refine (valid_closed_iff_of_field (p := fun v => ∀ text, v = .string text → OneLine text)
    "source" hrecord (by simp) hvalid).trans ?_
  constructor
  · intro h
    exact ⟨h.1, fun text htext => h.2 _ htext text rfl⟩
  · intro h
    refine ⟨h.object, ?_⟩
    intro v hv text htext
    subst htext
    exact h.source text hv

theorem sensitivity_text {value : Json} {sensitivity : SensitivityDocument}
    (h : SensitivityDocument.ofJson value = some sensitivity) :
    (JsonSchema.enum ["public", "secret"]).Valid value ↔ ∃ text, value = .string text := by
  constructor
  · intro hvalid
    obtain ⟨text, _, hvalue⟩ := hvalid
    exact ⟨text, hvalue⟩
  · intro htext
    obtain ⟨text, rfl⟩ := htext
    have hname : SensitivityDocument.ofJson.ofName text = some sensitivity := h
    rw [JsonSchema.valid_enum_string]
    unfold SensitivityDocument.ofJson.ofName at hname
    split at hname
    · next hpublic => simp [hpublic]
    · split at hname
      · next hsecret => simp [hsecret]
      · cases hname

theorem valid_variable_iff {document : VariableDocument} {v : Variable}
    (hread : VariableDocument.ofJson j = some document)
    (hparse : parseVariable document = .ok v) :
    variableSchema.Valid j ↔ PortableVariable j := by
  obtain ⟨name, sensitivity, hrecord, hname, hsensitivity⟩ :=
    VariableDocument.ofJson_eq_some.mp hread
  have hvalid : ∀ members, j = .object members →
      (variableSchema.Valid j ↔ ∃ text, sensitivity = .string text) := by
    intro members hobject
    subst hobject
    rw [variableSchema, valid_closed_of_record hrecord rfl, ← sensitivity_text hsensitivity]
    constructor
    · intro h
      simp only [List.forall₂_cons] at h
      exact h.2.1 sensitivity rfl
    · intro h
      refine .cons ?_ (.cons ?_ .nil)
      · intro w hw
        exact Option.some.inj hw ▸ valid_identifier_of_read hname (parseVariable_eq_ok.mp hparse).1
      · intro w hw
        exact Option.some.inj hw ▸ h
  refine (valid_closed_iff_of_field (p := fun w => ∃ text, w = .string text) "sensitivity"
    hrecord (by simp) hvalid).trans ?_
  exact ⟨fun h => ⟨h.1, h.2⟩, fun h => ⟨h.object, h.sensitivity⟩⟩

theorem parsedSelections_names {entries : List (String × List String)}
    {parsed : List (Identifier × List Identifier)}
    (h : List.Forall₂ (fun entry pair => parseSelection entry = .ok pair) entries parsed) :
    entries.map Prod.fst = (parsed.map Prod.fst).map Identifier.text := by
  induction h with
  | nil => rfl
  | cons hhead _ ih =>
      rw [List.map_cons, List.map_cons, List.map_cons, ih, (parseSelection_eq_ok.mp hhead).1]

theorem valid_selection {member : String × Json} {entry : String × List String}
    {pair : Identifier × List Identifier} (hread : readSelection member = some entry)
    (hparse : parseSelection entry = .ok pair) (hnodup : pair.2.Nodup) :
    identifierSchema.Valid (.string member.1) ∧ identifiersSchema.Valid member.2 := by
  obtain ⟨hclass, hoverlays⟩ := parseSelection_eq_ok.mp hparse
  simp only [readSelection, readStrings, Option.bind_eq_bind, Option.bind_eq_some_iff,
    Option.some.injEq] at hread
  obtain ⟨texts, ⟨items, hitems, htexts⟩, rfl⟩ := hread
  constructor
  · rw [← hclass]
    exact valid_identifier pair.1
  · rw [asArray_eq_some.mp hitems]
    exact valid_identifiers htexts hoverlays hnodup

/-- The lists of a profile are valid as they were read, since no class is given twice. -/
theorem valid_profile_iff {document : ProfileDocument} {q : Profile}
    (hdistinct : DistinctKeys j) (hread : ProfileDocument.ofJson j = some document)
    (hparse : parseProfile document = .ok q)
    (hnodup : (q.selections.entries.flatMap (·.2)).Nodup) :
    profileSchema.Valid j ↔ IsObject j := by
  refine ⟨object_of_valid_closed, ?_⟩
  intro hobject
  obtain ⟨members, rfl⟩ := hobject
  obtain ⟨id, selections, hrecord, hid, _⟩ := ProfileDocument.ofJson_eq_some.mp hread
  obtain ⟨hidText, parsed, hparsed, hselections⟩ := parseProfile_eq_ok.mp hparse
  obtain ⟨lists, entries, hdeclared, hentries, hperm⟩ := keepsSelections_of_ofJson hdistinct hread
  have hlists : selections = .object lists := by
    simp only [declaredSelections, hrecord, Option.bind_eq_bind, Option.bind_some] at hdeclared
    cases selections with
    | object found => rw [Json.asObject, Option.some.injEq] at hdeclared; rw [hdeclared]
    | _ => cases hdeclared
  have hpairs := collect_eq_ok.mp hparsed
  -- the document is sorted by class name, so no two of its names parse to one class
  have hkeys : (parsed.map Prod.fst).Nodup := by
    have hsorted : (document.selections.entries.map Prod.fst).Nodup :=
      List.Pairwise.imp ne_of_lt (List.pairwise_map.mpr document.selections.sorted)
    rw [parsedSelections_names hpairs] at hsorted
    exact hsorted.of_map
  have hlist : ∀ member ∈ lists, identifierSchema.Valid (.string member.1) ∧
      identifiersSchema.Valid member.2 := by
    intro member hmember
    obtain ⟨entry, hentry, hselection⟩ := exists_of_forall₂ hentries hmember
    obtain ⟨pair, hpair, hparsePair⟩ := exists_of_forall₂ hpairs (hperm.mem_iff.mpr hentry)
    have hmem : pair ∈ q.selections.entries := by
      rw [hselections]
      exact (SortedMap.ofEntries_perm hkeys).mem_iff.mpr hpair
    exact valid_selection hselection hparsePair ((List.nodup_flatMap.mp hnodup).1 pair hmem)
  have hvalid : selectionsSchema.Valid selections := by
    have htype : (JsonSchema.type [.object]).Valid (.object lists) :=
      ⟨_, List.mem_singleton_self _, rfl⟩
    rw [hlists]
    simp only [selectionsSchema, JsonSchema.valid_all, List.forall_mem_cons,
      JsonSchema.valid_propertyNames_object, JsonSchema.valid_additional_object]
    exact ⟨htype, fun member hmember => (hlist member hmember).1,
      fun member hmember _ => (hlist member hmember).2, fun _ h => by cases h⟩
  rw [profileSchema, valid_closed_of_record hrecord rfl]
  refine .cons ?_ (.cons ?_ .nil)
  · intro v hv
    exact Option.some.inj hv ▸ valid_identifier_of_read hid hidText
  · intro v hv
    exact Option.some.inj hv ▸ hvalid

end

/-! ## Packs -/

/-- The library reads a text as this tree, and decodes it as the tree is decoded. -/
structure JsonReader.Decodes (reader : JsonReader) (text : String) (j : Json) : Prop where
  present : reader.present text = .ofJson j
  trailing : reader.trailing text = none
  envelope : ∀ schema, reader.envelope text = .ok schema ↔ readEnvelope j = some schema
  document : ∀ document, reader.document text = .ok document ↔
    PackDocument.ofJson j = some document

/-- A pack with a schema is an object, as its schema would be the whole array. -/
theorem object_of_envelope {j : Json} {schema : String} {document : PackDocument}
    (henvelope : readEnvelope j = some schema) (hread : PackDocument.ofJson j = some document) :
    IsObject j := by
  obtain ⟨_, _, _, _, _, _, _, _, _, _, hrecord, _⟩ := PackDocument.ofJson_eq_some.mp hread
  cases j with
  | object members => exact ⟨members, rfl⟩
  | array items =>
      rw [Json.record] at hrecord
      split at hrecord
      · next hlength =>
          obtain ⟨schema', rfl⟩ : ∃ schema', items = [schema'] := by
            unfold readEnvelope at henvelope
            split at henvelope
            · next schema' heq => exact ⟨schema', Json.array.inj heq⟩
            · next heq => cases heq
            · cases henvelope
          exact absurd hlength.1 (by simp)
      · cases hrecord
  | _ => cases hrecord

/-- A list under a name is valid when it is a list and its items are valid. -/
theorem valid_list_iff {schema : JsonSchema} {members : List (String × Json)} {name : String} :
    (∀ value, (name, value) ∈ members → (listSchema schema).Valid value) ↔
      (∀ value, (name, value) ∈ members → (JsonSchema.type [.array]).Valid value) ∧
        ∀ item, Entry (.object members) name item → schema.Valid item := by
  simp only [listSchema, JsonSchema.valid_both]
  constructor
  · intro h
    refine ⟨fun value hvalue => (h value hvalue).1, ?_⟩
    intro item hitem
    obtain ⟨items, hitems, hmem⟩ := hitem
    exact JsonSchema.valid_items_array.mp (h _ (has_object.mp hitems)).2 item hmem
  · intro h value hvalue
    obtain ⟨type, htype, hj⟩ := h.1 value hvalue
    obtain rfl := List.mem_singleton.mp htype
    cases value with
    | array items =>
        refine ⟨h.1 _ hvalue, JsonSchema.valid_items_array.mpr ?_⟩
        exact fun item hitem => h.2 item ⟨items, has_object.mpr hvalue, hitem⟩
    | _ => cases hj

/-- A pack is valid when it is valid apart from its declarations and these are valid. -/
theorem valid_packSchema {members : List (String × Json)} :
    packSchema.Valid (.object members) ↔ headSchema.Valid (.object members) ∧
      (∀ item, Entry (.object members) "classes" item → classSchema.Valid item) ∧
      (∀ item, Entry (.object members) "overlays" item → overlaySchema.Valid item) ∧
      (∀ item, Entry (.object members) "profiles" item → profileSchema.Valid item) ∧
      ∀ item, Entry (.object members) "variables" item → variableSchema.Valid item := by
  simp only [packSchema, headSchema, valid_closed, List.forall_mem_cons, valid_list_iff,
    List.map_cons, List.map_nil]
  constructor
  · intro h
    obtain ⟨hrequired, hknown, hschema, hid, hclasses, hoverlays, hprofiles, hvariables, _⟩ := h
    exact ⟨⟨hrequired, hknown, hschema, hid, hclasses.1, hoverlays.1, hprofiles.1, hvariables.1,
      fun _ h => by cases h⟩, hclasses.2, hoverlays.2, hprofiles.2, hvariables.2⟩
  · intro h
    obtain ⟨⟨hrequired, hknown, hschema, hid, hclasses, hoverlays, hprofiles, hvariables, _⟩,
      hclass, hoverlay, hprofile, hvariable⟩ := h
    exact ⟨hrequired, hknown, hschema, hid, ⟨hclasses, hclass⟩, ⟨hoverlays, hoverlay⟩,
      ⟨hprofiles, hprofile⟩, ⟨hvariables, hvariable⟩, fun _ h => by cases h⟩

/-- Where each part is valid exactly when it is portable, so is the whole. -/
theorem Conforms.valid_iff {members : List (String × Json)} (h : Conforms (.object members)) :
    packSchema.Valid (.object members) ↔ Portable (.object members) := by
  rw [valid_packSchema, and_iff_right h.head]
  constructor
  · intro hvalid
    obtain ⟨hclass, hoverlay, hprofile, hvariable⟩ := hvalid
    exact ⟨fun item hitem => (h.classes item hitem).mp (hclass item hitem),
      fun item hitem => (h.overlays item hitem).mp (hoverlay item hitem),
      fun item hitem => (h.profiles item hitem).mp (hprofile item hitem),
      fun item hitem => (h.variables item hitem).mp (hvariable item hitem)⟩
  · intro hportable
    exact ⟨fun item hitem => (h.classes item hitem).mpr (hportable.classes item hitem),
      fun item hitem => (h.overlays item hitem).mpr (hportable.overlays item hitem),
      fun item hitem => (h.profiles item hitem).mpr (hportable.profiles item hitem),
      fun item hitem => (h.variables item hitem).mpr (hportable.variables item hitem)⟩

theorem entry_iff {members : List (String × Json)} {name : String} {value : Option Json}
    {items : List Json} (hlookup : ∀ v, Has (.object members) name v ↔ value = some v)
    (hitems : Json.asDefaultArray value = some items) {item : Json} :
    Entry (.object members) name item ↔ item ∈ items := by
  constructor
  · intro h
    obtain ⟨found, hfound, hitem⟩ := h
    rw [(hlookup _).mp hfound] at hitems
    obtain rfl : found = items := Option.some.inj hitems
    exact hitem
  · intro h
    cases value with
    | none =>
        obtain rfl : [] = items := Option.some.inj hitems
        cases h
    | some v =>
        obtain rfl := asArray_eq_some.mp hitems
        exact ⟨items, (hlookup _).mpr rfl, h⟩

theorem valid_default {value : Option Json} {items : List Json}
    (hitems : Json.asDefaultArray value = some items) {v : Json} (hv : value = some v) :
    (JsonSchema.type [.array]).Valid v := by
  subst hv
  obtain rfl := asArray_eq_some.mp hitems
  exact ⟨_, List.mem_singleton_self _, rfl⟩

/-- Each entry of a list was decoded, and the document parsed. -/
theorem exists_decoded {α β ε : Type} {decode : Json → Option α} {parse : α → Except ε β}
    {items : List Json} {documents : List α} {parsed : List β}
    (hread : items.mapM decode = some documents) (hparsed : collect parse documents = .ok parsed)
    {item : Json} (hitem : item ∈ items) :
    ∃ document, decode item = some document ∧ ∃ part ∈ parsed, parse document = .ok part := by
  obtain ⟨document, hdocument, hdecode⟩ := exists_of_forall₂ (Json.mapM_eq_some.mp hread) hitem
  exact ⟨document, hdecode, exists_of_forall₂ (collect_eq_ok.mp hparsed) hdocument⟩

/-- Each part of a decoded pack is valid exactly when it is portable as it is written. -/
theorem conforms_of_pack {members : List (String × Json)} {document : PackDocument}
    {pack : OverlayPack} (hdistinct : DistinctKeys (.object members))
    (hread : PackDocument.ofJson (.object members) = some document)
    (hpack : document.toPack = .ok pack) : Conforms (.object members) := by
  obtain ⟨schema, id, classes, overlays, profiles, «variables», classItems, overlayItems,
    profileItems, variableItems, hrecord, hschema, hid, hclassItems, hclasses, hoverlayItems,
    hoverlays, hprofileItems, hprofiles, hvariableItems, hvariables⟩ :=
    PackDocument.ofJson_eq_some.mp hread
  obtain ⟨hfamily, parts, hparsedClasses, hparsedOverlays, hparsedProfiles, hparsedVariables,
    hidText, _, hnew⟩ := PackDocument.toPack_eq_ok.mp hpack
  -- that a selection repeats nothing is checked by the pack, not by its parser
  have hdeclared := (OverlayPack.new_eq_ok.mp hnew).1
  have hclassValid : ∀ item ∈ classItems, classSchema.Valid item ↔ IsObject item := by
    intro item hitem
    obtain ⟨_, hitemRead, _, _, hparse⟩ := exists_decoded hclasses hparsedClasses hitem
    exact valid_class_iff hitemRead hparse
  have hoverlayValid : ∀ item ∈ overlayItems, overlaySchema.Valid item ↔ PortableOverlay item := by
    intro item hitem
    obtain ⟨_, hitemRead, _, _, hparse⟩ := exists_decoded hoverlays hparsedOverlays hitem
    exact valid_overlay_iff hitemRead hparse
  have hprofileValid : ∀ item ∈ profileItems, profileSchema.Valid item ↔ IsObject item := by
    intro item hitem
    obtain ⟨_, hitemRead, q, hq, hparse⟩ := exists_decoded hprofiles hparsedProfiles hitem
    have hwithin : Within item (.object members) := by
      cases profiles with
      | none =>
          obtain rfl : [] = profileItems := Option.some.inj hprofileItems
          cases hitem
      | some value =>
          obtain rfl := asArray_eq_some.mp hprofileItems
          exact .trans (.item hitem (.refl _)) (within_of_record hrecord (by simp))
    exact valid_profile_iff (hdistinct.of_within hwithin) hitemRead hparse
      (hdeclared.selectionNodup q hq)
  have hvariableValid : ∀ item ∈ variableItems,
      variableSchema.Valid item ↔ PortableVariable item := by
    intro item hitem
    obtain ⟨_, hitemRead, _, _, hparse⟩ := exists_decoded hvariables hparsedVariables hitem
    exact valid_variable_iff hitemRead hparse
  have hclassEntry : ∀ item, Entry (.object members) "classes" item ↔ item ∈ classItems :=
    fun item => @entry_iff members "classes" (some classes) classItems
      (has_iff_of_record hrecord (by simp)) hclassItems item
  have hoverlayEntry : ∀ item, Entry (.object members) "overlays" item ↔ item ∈ overlayItems :=
    fun item => entry_iff (has_iff_of_record hrecord (by simp)) hoverlayItems
  have hprofileEntry : ∀ item, Entry (.object members) "profiles" item ↔ item ∈ profileItems :=
    fun item => entry_iff (has_iff_of_record hrecord (by simp)) hprofileItems
  have hvariableEntry : ∀ item, Entry (.object members) "variables" item ↔
      item ∈ variableItems :=
    fun item => entry_iff (has_iff_of_record hrecord (by simp)) hvariableItems
  have hhead : headSchema.Valid (.object members) := by
    rw [headSchema, valid_closed_of_record hrecord rfl]
    refine .cons ?_ (.cons ?_ (.cons (fun v => @valid_default (some classes) _ hclassItems v)
      (.cons (fun v => valid_default hoverlayItems) (.cons (fun v => valid_default hprofileItems)
        (.cons (fun v => valid_default hvariableItems) .nil)))))
    · intro v hv
      rw [← Option.some.inj hv, Json.asString_eq_some.mp hschema, hfamily]
      exact JsonSchema.valid_enum_string.mpr (List.mem_singleton_self _)
    · intro v hv
      exact Option.some.inj hv ▸ valid_identifier_of_read hid hidText
  exact ⟨hhead, fun item hitem => hclassValid item ((hclassEntry item).mp hitem),
    fun item hitem => hoverlayValid item ((hoverlayEntry item).mp hitem),
    fun item hitem => hprofileValid item ((hprofileEntry item).mp hitem),
    fun item hitem => hvariableValid item ((hvariableEntry item).mp hitem)⟩

/-- An accepted text is valid apart from its declarations. A declaration is valid exactly when it
is portable, and the whole when all of them are. -/
theorem parseJson_valid_iff (reader : JsonReader) (text : String) (j : Json) (pack : OverlayPack)
    (hdecodes : reader.Decodes text j) (h : parseJson reader text = .ok pack) :
    Conforms j ∧ (packSchema.Valid j ↔ Portable j) := by
  obtain ⟨_, hpreflight, hdecode⟩ := parseJsonWithLimits_eq_ok.mp h
  obtain ⟨henvelope, document, hdocument, _, hpack⟩ := decodePack_eq_ok.mp hdecode
  have hread := (hdecodes.document document).mp hdocument
  obtain ⟨members, rfl⟩ := object_of_envelope ((hdecodes.envelope _).mp henvelope) hread
  have hwalk := (preflightJson_eq_ok.mp hpreflight).1
  rw [hdecodes.present] at hwalk
  have hconforms := conforms_of_pack ((strictSeed_eq_ok _ _).mp hwalk).1 hread hpack
  exact ⟨hconforms, hconforms.valid_iff⟩

/-! ## One pack, written in two ways -/

/-- The library on a text of this tree. -/
def treeReader (j : Json) : JsonReader where
  present := fun _ => .ofJson j
  trailing := fun _ => none
  report := fun _ _ marker => marker ++ " at line 1 column 1"
  envelope := fun _ => okOr (readEnvelope j) "missing field `schema`"
  document := fun _ => okOr (PackDocument.ofJson j) "invalid type"

theorem treeReader_decodes (j : Json) (text : String) : (treeReader j).Decodes text j where
  present := rfl
  trailing := rfl
  envelope := fun _ => okOr_eq_ok
  document := fun _ => okOr_eq_ok

/-- The short pack with its class written like this. -/
def packMembers (classJson : Json) : List (String × Json) :=
  [("schema", .string schemaFamily), ("id", .string "long"), ("classes", .array [classJson]),
    ("overlays", .array [.object [("id", .string "file"), ("class", .string "files"),
      ("source", .string "a")]])]

def namedClass : Json :=
  .object [("id", .string "files"), ("order", .unsigned 0), ("minimum", .unsigned 0)]

def positionalClass : Json := .array [.string "files", .unsigned 0, .unsigned 0]

def packText (classJson : Json) : String :=
  String.ofList (Json.object (packMembers classJson)).compact

theorem packText_parse {classJson : Json}
    (hread : PackDocument.ofJson (.object (packMembers classJson)) =
      some (PackDocument.ofPack (longPack 0)))
    (hwalk : StrictSeed.deserialize false (.root 32) []
      (.ofJson (.object (packMembers classJson))) = .ok ())
    (hsize : Text.byteLength (packText classJson) ≤ 1048576) :
    parseJson (treeReader (.object (packMembers classJson))) (packText classJson) =
      .ok (longPack 0) := by
  have hdecodes := treeReader_decodes (.object (packMembers classJson)) (packText classJson)
  have hcovers := @longPack_covers 0 _ hsize
  refine parseJsonWithLimits_eq_ok.mpr ⟨hsize, preflightJson_eq_ok.mpr ⟨hwalk, rfl⟩,
    decodePack_eq_ok.mpr ⟨(hdecodes.envelope _).mpr rfl, _, (hdecodes.document _).mpr hread,
      hcovers.declarations, PackDocument.toPack_ofPack rfl⟩⟩

theorem namedPack_parse : parseJson (treeReader (.object (packMembers namedClass)))
    (packText namedClass) = .ok (longPack 0) :=
  packText_parse rfl (by decide +kernel) (by decide +kernel)

theorem positionalPack_parse : parseJson (treeReader (.object (packMembers positionalClass)))
    (packText positionalClass) = .ok (longPack 0) :=
  packText_parse rfl (by decide +kernel) (by decide +kernel)

theorem namedPack_portable : Portable (.object (packMembers namedClass)) := by
  constructor
  · intro item hitem
    obtain ⟨items, hitems, hmem⟩ := hitem
    simp [has_object, packMembers] at hitems
    subst hitems
    exact ⟨_, List.mem_singleton.mp hmem⟩
  · intro item hitem
    obtain ⟨items, hitems, hmem⟩ := hitem
    simp [has_object, packMembers] at hitems
    subst hitems
    rw [List.mem_singleton.mp hmem]
    refine ⟨⟨_, rfl⟩, ?_⟩
    intro text htext
    simp [has_object] at htext
    simp [htext, OneLine, isDot]
  · intro item hitem
    obtain ⟨items, hitems, _⟩ := hitem
    simp [has_object, packMembers] at hitems
  · intro item hitem
    obtain ⟨items, hitems, _⟩ := hitem
    simp [has_object, packMembers] at hitems

theorem parseJson_valid_sample : packSchema.Valid (.object (packMembers namedClass)) :=
  (parseJson_valid_iff _ _ _ _ (treeReader_decodes _ _) namedPack_parse).2.mpr namedPack_portable

/-- An accepted pack need not validate. -/
theorem parseJson_positional : ¬ ∀ (reader : JsonReader) (text : String) (j : Json)
    (pack : OverlayPack), reader.Decodes text j → parseJson reader text = .ok pack →
      packSchema.Valid j := by
  intro hall
  have hvalid := hall _ _ _ _ (treeReader_decodes _ _) positionalPack_parse
  have hdistinct : DistinctKeys (.object (packMembers positionalClass)) :=
    ((strictSeed_eq_ok _ 32).mp (by decide +kernel)).1
  have hread : PackDocument.ofJson (.object (packMembers positionalClass)) =
      some (PackDocument.ofPack (longPack 0)) := rfl
  obtain ⟨members, hclass⟩ :=
    ((conforms_of_pack hdistinct hread (PackDocument.toPack_ofPack rfl)).valid_iff.mp
      hvalid).classes positionalClass ⟨[positionalClass], has_object.mpr (by simp [packMembers]), by simp⟩
  cases hclass

end Invokrum.Schema
