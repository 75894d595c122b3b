import Invokrum.Base.JsonRecord
import Invokrum.Base.Machine
import Invokrum.Core.Pack
import Invokrum.Schema.Strict

/-!
# Pack documents

The records of a serialized pack, how they are read from a JSON tree, what the
declaration limits count in them, and their two conversions: into a validated
pack and back from one.
-/

namespace Invokrum.Schema

open Outcome Ordered Machine Invokrum.Core

/-- Schema family implemented by the adapter. -/
def schemaFamily : String := "invokrum.dev/v1"

/-! ## Records -/

structure ClassDocument where
  id : String
  order : UInt32
  minimum : UInt32
  maximum : Option UInt32

structure OverlayDocument where
  id : String
  classId : String
  source : String
  incompatibleWith : List String

structure ProfileDocument where
  id : String
  selections : SortedMap String (List String)

inductive SensitivityDocument where
  | «public»
  | secret

structure VariableDocument where
  name : String
  sensitivity : SensitivityDocument

structure PackDocument where
  schema : String
  id : String
  classes : List ClassDocument
  overlays : List OverlayDocument
  profiles : List ProfileDocument
  «variables» : List VariableDocument

/-! ## Reading JSON trees -/

def readStrings (j : Json) : Option (List String) := do
  (← j.asArray).mapM Json.asString

def ClassDocument.ofJson (j : Json) : Option ClassDocument := do
  match ← j.record ["id", "order", "minimum"] ["maximum"] with
  | [some id, some order, some minimum, maximum] =>
      some ⟨← id.asString, ← order.asUInt32, ← minimum.asUInt32, ← Json.asOptionUInt32 maximum⟩
  | _ => none

def OverlayDocument.ofJson (j : Json) : Option OverlayDocument := do
  match ← j.record ["id", "class", "source"] ["incompatible_with"] with
  | [some id, some classId, some source, incompatibleWith] =>
      some ⟨← id.asString, ← classId.asString, ← source.asString,
        ← (← Json.asDefaultArray incompatibleWith).mapM Json.asString⟩
  | _ => none

/-- One selection list under its class. -/
def readSelection (member : String × Json) : Option (String × List String) := do
  some (member.1, ← readStrings member.2)

/-- A map of lists: a later member replaces an earlier one of the same name. -/
def readSelections (j : Json) : Option (SortedMap String (List String)) := do
  some (SortedMap.ofEntries (← (← j.asObject).mapM readSelection))

def ProfileDocument.ofJson (j : Json) : Option ProfileDocument := do
  match ← j.record ["id", "selections"] [] with
  | [some id, some selections] => some ⟨← id.asString, ← readSelections selections⟩
  | _ => none

/-- A unit variant is its name, or an object with null under its name. -/
def SensitivityDocument.ofJson : Json → Option SensitivityDocument
  | .string name => ofName name
  | .object [(name, .null)] => ofName name
  | _ => none
where
  ofName (name : String) : Option SensitivityDocument :=
    if name = "public" then some .public else if name = "secret" then some .secret else none

def VariableDocument.ofJson (j : Json) : Option VariableDocument := do
  match ← j.record ["name", "sensitivity"] [] with
  | [some name, some sensitivity] =>
      some ⟨← name.asString, ← SensitivityDocument.ofJson sensitivity⟩
  | _ => none

def PackDocument.ofJson (j : Json) : Option PackDocument := do
  match ← j.record ["schema", "id", "classes"] ["overlays", "profiles", "variables"] with
  | [some schema, some id, some classes, overlays, profiles, «variables»] =>
      some ⟨← schema.asString, ← id.asString, ← (← classes.asArray).mapM ClassDocument.ofJson,
        ← (← Json.asDefaultArray overlays).mapM OverlayDocument.ofJson,
        ← (← Json.asDefaultArray profiles).mapM ProfileDocument.ofJson,
        ← (← Json.asDefaultArray «variables»).mapM VariableDocument.ofJson⟩
  | _ => none

/-- `SchemaEnvelope`: the schema alone, other members ignored. An array holds nothing else. -/
def readEnvelope : Json → Option String
  | .array [schema] => schema.asString
  | .object members =>
      match members.filter (·.1 = "schema") with
      | [(_, schema)] => schema.asString
      | _ => none
  | _ => none

/-! ## What reading accepts -/

theorem ClassDocument.ofJson_eq_some {j : Json} {document : ClassDocument} :
    ClassDocument.ofJson j = some document ↔
      ∃ id order minimum maximum,
        j.record ["id", "order", "minimum"] ["maximum"] =
          some [some id, some order, some minimum, maximum] ∧
        id.asString = some document.id ∧ order.asUInt32 = some document.order ∧
        minimum.asUInt32 = some document.minimum ∧
        Json.asOptionUInt32 maximum = some document.maximum := by
  unfold ClassDocument.ofJson
  simp only [Option.bind_eq_bind, Option.bind_eq_some_iff]
  constructor
  · intro h
    obtain ⟨values, hrecord, hvalues⟩ := h
    split at hvalues
    · next id order minimum maximum =>
        simp only [Option.bind_eq_some_iff, Option.some.injEq] at hvalues
        obtain ⟨id', hid, order', horder, minimum', hminimum, maximum', hmaximum, rfl⟩ := hvalues
        exact ⟨id, order, minimum, maximum, hrecord, hid, horder, hminimum, hmaximum⟩
    · cases hvalues
  · intro h
    obtain ⟨id, order, minimum, maximum, hrecord, hid, horder, hminimum, hmaximum⟩ := h
    refine ⟨_, hrecord, ?_⟩
    simp [hid, horder, hminimum, hmaximum]

theorem OverlayDocument.ofJson_eq_some {j : Json} {document : OverlayDocument} :
    OverlayDocument.ofJson j = some document ↔
      ∃ id classId source incompatibleWith items,
        j.record ["id", "class", "source"] ["incompatible_with"] =
          some [some id, some classId, some source, incompatibleWith] ∧
        id.asString = some document.id ∧ classId.asString = some document.classId ∧
        source.asString = some document.source ∧
        Json.asDefaultArray incompatibleWith = some items ∧
        items.mapM Json.asString = some document.incompatibleWith := by
  unfold OverlayDocument.ofJson
  simp only [Option.bind_eq_bind, Option.bind_eq_some_iff]
  constructor
  · intro h
    obtain ⟨values, hrecord, hvalues⟩ := h
    split at hvalues
    · next id classId source incompatibleWith =>
        simp only [Option.bind_eq_some_iff, Option.some.injEq] at hvalues
        obtain ⟨id', hid, classId', hclassId, source', hsource, items, hitems, incompatibleWith',
          hincompatible, rfl⟩ := hvalues
        exact ⟨id, classId, source, incompatibleWith, items, hrecord, hid, hclassId, hsource,
          hitems, hincompatible⟩
    · cases hvalues
  · intro h
    obtain ⟨id, classId, source, incompatibleWith, items, hrecord, hid, hclassId, hsource, hitems,
      hincompatible⟩ := h
    refine ⟨_, hrecord, ?_⟩
    simp [hid, hclassId, hsource, hitems, hincompatible]

theorem VariableDocument.ofJson_eq_some {j : Json} {document : VariableDocument} :
    VariableDocument.ofJson j = some document ↔
      ∃ name sensitivity, j.record ["name", "sensitivity"] [] = some [some name, some sensitivity] ∧
        name.asString = some document.name ∧
        SensitivityDocument.ofJson sensitivity = some document.sensitivity := by
  unfold VariableDocument.ofJson
  simp only [Option.bind_eq_bind, Option.bind_eq_some_iff]
  constructor
  · intro h
    obtain ⟨values, hrecord, hvalues⟩ := h
    split at hvalues
    · next name sensitivity =>
        simp only [Option.bind_eq_some_iff, Option.some.injEq] at hvalues
        obtain ⟨name', hname, sensitivity', hsensitivity, rfl⟩ := hvalues
        exact ⟨name, sensitivity, hrecord, hname, hsensitivity⟩
    · cases hvalues
  · intro h
    obtain ⟨name, sensitivity, hrecord, hname, hsensitivity⟩ := h
    refine ⟨_, hrecord, ?_⟩
    simp [hname, hsensitivity]

theorem ProfileDocument.ofJson_eq_some {j : Json} {profile : ProfileDocument} :
    ProfileDocument.ofJson j = some profile ↔
      ∃ id selections, j.record ["id", "selections"] [] = some [some id, some selections] ∧
        id.asString = some profile.id ∧ readSelections selections = some profile.selections := by
  unfold ProfileDocument.ofJson
  simp only [Option.bind_eq_bind, Option.bind_eq_some_iff]
  constructor
  · intro h
    obtain ⟨values, hrecord, hvalues⟩ := h
    split at hvalues
    · next id selections =>
        simp only [Option.bind_eq_some_iff, Option.some.injEq] at hvalues
        obtain ⟨id', hid, selections', hselections, rfl⟩ := hvalues
        exact ⟨id, selections, hrecord, hid, hselections⟩
    · cases hvalues
  · intro h
    obtain ⟨id, selections, hrecord, hid, hselections⟩ := h
    refine ⟨_, hrecord, ?_⟩
    simp [hid, hselections]

theorem PackDocument.ofJson_eq_some {j : Json} {document : PackDocument} :
    PackDocument.ofJson j = some document ↔
      ∃ schema id classes overlays profiles «variables» classItems overlayItems profileItems
          variableItems,
        j.record ["schema", "id", "classes"] ["overlays", "profiles", "variables"] =
          some [some schema, some id, some classes, overlays, profiles, «variables»] ∧
        schema.asString = some document.schema ∧ id.asString = some document.id ∧
        classes.asArray = some classItems ∧
        classItems.mapM ClassDocument.ofJson = some document.classes ∧
        Json.asDefaultArray overlays = some overlayItems ∧
        overlayItems.mapM OverlayDocument.ofJson = some document.overlays ∧
        Json.asDefaultArray profiles = some profileItems ∧
        profileItems.mapM ProfileDocument.ofJson = some document.profiles ∧
        Json.asDefaultArray «variables» = some variableItems ∧
        variableItems.mapM VariableDocument.ofJson = some document.variables := by
  unfold PackDocument.ofJson
  simp only [Option.bind_eq_bind, Option.bind_eq_some_iff]
  constructor
  · intro h
    obtain ⟨values, hrecord, hvalues⟩ := h
    split at hvalues
    · next schema id classes overlays profiles «variables» =>
        simp only [Option.bind_eq_some_iff, Option.some.injEq] at hvalues
        obtain ⟨schema', hschema, id', hid, classItems, hclassItems, classes', hclasses,
          overlayItems, hoverlayItems, overlays', hoverlays, profileItems, hprofileItems, profiles',
          hprofiles, variableItems, hvariableItems, variables', hvariables, rfl⟩ := hvalues
        exact ⟨schema, id, classes, overlays, profiles, «variables», classItems, overlayItems,
          profileItems, variableItems, hrecord, hschema, hid, hclassItems, hclasses,
          hoverlayItems, hoverlays, hprofileItems, hprofiles, hvariableItems, hvariables⟩
    · cases hvalues
  · intro h
    obtain ⟨schema, id, classes, overlays, profiles, «variables», classItems, overlayItems,
      profileItems, variableItems, hrecord, hschema, hid, hclassItems, hclasses, hoverlayItems,
      hoverlays, hprofileItems, hprofiles, hvariableItems, hvariables⟩ := h
    refine ⟨_, hrecord, ?_⟩
    simp [hschema, hid, hclassItems, hclasses, hoverlayItems, hoverlays, hprofileItems, hprofiles,
      hvariableItems, hvariables]

/-! ## Limits and errors -/

inductive DeclarationKind where
  | «class»
  | overlay
  | profile
  | «variable»
  | selection
  | incompatibility
deriving DecidableEq

structure DeclarationLimits where
  classes : UInt64
  overlays : UInt64
  profiles : UInt64
  «variables» : UInt64
  selections : UInt64
  incompatibilities : UInt64

def DeclarationLimits.maximum (limits : DeclarationLimits) : DeclarationKind → UInt64
  | .class => limits.classes
  | .overlay => limits.overlays
  | .profile => limits.profiles
  | .variable => limits.variables
  | .selection => limits.selections
  | .incompatibility => limits.incompatibilities

structure SchemaLimits where
  documentBytes : UInt64
  nestingDepth : UInt64
  declarations : DeclarationLimits

def DeclarationLimits.default : DeclarationLimits := ⟨64, 256, 128, 256, 4096, 4096⟩

def SchemaLimits.default : SchemaLimits := ⟨1048576, 32, .default⟩

inductive SchemaError where
  | documentTooLarge (maximumBytes actualBytes : Nat)
  | nestingTooDeep (maximumDepth : Nat)
  | tooManyDeclarations (kind : DeclarationKind) (maximum actual : Nat)
  | decode (format message : String)
  | duplicateMappingKey (format : String)
  | unsupportedYamlFeature (feature : YamlFeature)
  | multipleYamlDocuments
  | encode (message : String)
  | unsupportedSchema (schema : String)
  | duplicateListValue (field : String) (value : Identifier)
  | domain (error : DomainError)
deriving DecidableEq

/-- `bounded_text` and `bounded_message`: the first characters, an ellipsis for the rest. -/
def boundedText (value : String) (maximumChars : Nat) : String :=
  String.ofList (value.toList.take maximumChars ++
    if maximumChars < value.toList.length then ['…'] else [])

def maxErrorMessageChars : Nat := 512

def maxSchemaNameChars : Nat := 128

def ensureSupportedSchema (schema : String) : Except SchemaError Unit :=
  rejectIf (schema ≠ schemaFamily) (.unsupportedSchema (boundedText schema maxSchemaNameChars))

/-! ## Declaration counts -/

def ensureCount (kind : DeclarationKind) (actual : Nat) (limits : DeclarationLimits) :
    Except SchemaError Unit :=
  rejectIf ((limits.maximum kind).toNat < actual)
    (.tooManyDeclarations kind (limits.maximum kind).toNat actual)

/-- The loop of `ensure_accumulated_count`, with the count so far. -/
def ensureAccumulatedCount (kind : DeclarationKind) (limits : DeclarationLimits) :
    Nat → List Nat → Except SchemaError Unit
  | _, [] => .ok ()
  | actual, count :: rest => do
      let actual ← okOr (checkedAdd actual count)
        (.tooManyDeclarations kind (limits.maximum kind).toNat (wordSize - 1))
      rejectIf ((limits.maximum kind).toNat < actual)
        (.tooManyDeclarations kind (limits.maximum kind).toNat actual)
      ensureAccumulatedCount kind limits actual rest

/-- A class key counts one, and so does each overlay selected under it. -/
def PackDocument.selectionCounts (document : PackDocument) : List Nat :=
  document.profiles.flatMap fun profile =>
    profile.selections.entries.flatMap fun entry => [1, entry.2.length]

def PackDocument.incompatibilityCounts (document : PackDocument) : List Nat :=
  document.overlays.map fun overlay => overlay.incompatibleWith.length

def PackDocument.ensureDeclarationLimits (document : PackDocument) (limits : DeclarationLimits) :
    Except SchemaError Unit := do
  ensureCount .class document.classes.length limits
  ensureCount .overlay document.overlays.length limits
  ensureCount .profile document.profiles.length limits
  ensureCount .variable document.variables.length limits
  ensureAccumulatedCount .selection limits 0 document.selectionCounts
  ensureAccumulatedCount .incompatibility limits 0 document.incompatibilityCounts

/-- How many declarations of a kind a document makes. -/
def PackDocument.count (document : PackDocument) : DeclarationKind → Nat
  | .class => document.classes.length
  | .overlay => document.overlays.length
  | .profile => document.profiles.length
  | .variable => document.variables.length
  | .selection => document.selectionCounts.sum
  | .incompatibility => document.incompatibilityCounts.sum

/-! ## Into a pack -/

def parseClass (document : ClassDocument) : Except DomainError OverlayClass := do
  let id ← Identifier.parse document.id
  let cardinality ← Cardinality.new document.minimum document.maximum
  pure ⟨id, document.order, cardinality⟩

/-- The loop of `parse_identifier_set`, with the identifiers inserted so far. -/
def parseIdentifierSet (field : String) :
    SortedSet Identifier → List String → Except SchemaError (SortedSet Identifier)
  | identifiers, [] => .ok identifiers
  | identifiers, value :: rest => do
      let identifier ← (Identifier.parse value).mapError .domain
      rejectIf (identifier ∈ identifiers) (.duplicateListValue field identifier)
      parseIdentifierSet field (.ofList (identifier :: identifiers.toList)) rest

def parseOverlay (document : OverlayDocument) : Except SchemaError Overlay := do
  let id ← (Identifier.parse document.id).mapError .domain
  let classId ← (Identifier.parse document.classId).mapError .domain
  let source ← (PackRelativePath.parse document.source).mapError .domain
  let incompatibleWith ← parseIdentifierSet "overlays[].incompatible_with" (.ofList [])
    document.incompatibleWith
  pure ⟨id, classId, source, incompatibleWith⟩

def parseSelection (entry : String × List String) :
    Except DomainError (Identifier × List Identifier) := do
  let classId ← Identifier.parse entry.1
  let overlays ← collect Identifier.parse entry.2
  pure (classId, overlays)

def parseProfile (document : ProfileDocument) : Except DomainError Profile := do
  let selections ← collect parseSelection document.selections.entries
  let id ← Identifier.parse document.id
  pure ⟨id, .ofEntries selections⟩

def SensitivityDocument.toSensitivity : SensitivityDocument → Sensitivity
  | .public => .public
  | .secret => .secret

def parseVariable (document : VariableDocument) : Except DomainError Variable := do
  let name ← Identifier.parse document.name
  pure ⟨name, document.sensitivity.toSensitivity⟩

/-- `OverlayPack::try_from` on a document. -/
def PackDocument.toPack (document : PackDocument) : Except SchemaError OverlayPack := do
  ensureSupportedSchema document.schema
  let classes ← (collect parseClass document.classes).mapError .domain
  let overlays ← collect parseOverlay document.overlays
  let profiles ← (collect parseProfile document.profiles).mapError .domain
  let «variables» ← (collect parseVariable document.variables).mapError .domain
  let id ← (Identifier.parse document.id).mapError .domain
  (OverlayPack.new ⟨id, document.schema, classes, overlays, profiles, «variables»⟩).mapError .domain

theorem cardinality_new_eq_ok {minimum : UInt32} {maximum : Option UInt32} {c : Cardinality} :
    Cardinality.new minimum maximum = .ok c ↔ c.minimum = minimum ∧ c.maximum = maximum := by
  unfold Cardinality.new
  constructor
  · intro h
    split at h
    · cases h
      exact ⟨rfl, rfl⟩
    · cases h
  · intro h
    obtain ⟨rfl, rfl⟩ := h
    rw [dif_pos c.ordered]

theorem parseClass_eq_ok {document : ClassDocument} {c : OverlayClass} :
    parseClass document = .ok c ↔ c.id.text = document.id ∧ c.order = document.order ∧
      c.cardinality.minimum = document.minimum ∧ c.cardinality.maximum = document.maximum := by
  simp only [parseClass, bind_eq_ok, Identifier.parse_eq_ok, cardinality_new_eq_ok, pure,
    Except.pure, Except.ok.injEq]
  constructor
  · intro h
    obtain ⟨id, hid, cardinality, hcardinality, rfl⟩ := h
    exact ⟨hid, rfl, hcardinality.1, hcardinality.2⟩
  · intro h
    exact ⟨c.id, h.1, c.cardinality, h.2.2, by rw [← h.2.1]⟩

/-- The set holds what was inserted, and nothing was inserted twice. -/
theorem parseIdentifierSet_eq_ok {field : String} {identifiers set : SortedSet Identifier}
    {values : List String} :
    parseIdentifierSet field identifiers values = .ok set ↔
      ∃ parsed : List Identifier, parsed.map Identifier.text = values ∧ parsed.Nodup ∧
        (∀ i ∈ parsed, i ∉ identifiers) ∧ ∀ i, i ∈ set ↔ i ∈ parsed ∨ i ∈ identifiers := by
  induction values generalizing identifiers with
  | nil =>
      simp only [parseIdentifierSet, Except.ok.injEq, List.map_eq_nil_iff, exists_eq_left,
        List.nodup_nil, List.not_mem_nil, false_or, true_and, false_implies, implies_true]
      constructor
      · intro h i
        rw [h]
      · intro h
        exact SortedSet.ext_mem fun i => (h i).symm
  | cons value rest ih =>
      simp only [parseIdentifierSet, bind_eq_ok, mapError_eq_ok, Identifier.parse_eq_ok,
        rejectIf_eq_ok, exists_const, ih, SortedSet.mem_ofList, List.mem_cons, ← SortedSet.mem_def]
      constructor
      · intro h
        obtain ⟨identifier, hvalue, hnew, parsed, hparsed, hnodup, hnone, hset⟩ := h
        have hnot : identifier ∉ parsed := fun hmem => hnone identifier hmem (.inl rfl)
        refine ⟨identifier :: parsed, by rw [List.map_cons, hvalue, hparsed],
          List.nodup_cons.mpr ⟨hnot, hnodup⟩, ?_, ?_⟩
        · intro i hi hmem
          rcases List.mem_cons.mp hi with rfl | hi
          · exact hnew hmem
          · exact hnone i hi (.inr hmem)
        · intro i
          rw [hset, List.mem_cons]
          tauto
      · intro h
        obtain ⟨all, hall, hnodup, hnone, hset⟩ := h
        cases all with
        | nil => cases hall
        | cons identifier parsed =>
            rw [List.map_cons, List.cons.injEq] at hall
            rw [List.nodup_cons] at hnodup
            refine ⟨identifier, hall.1, hnone identifier List.mem_cons_self, parsed, hall.2,
              hnodup.2, ?_, ?_⟩
            · intro i hi hmem
              rcases hmem with rfl | hmem
              · exact hnodup.1 hi
              · exact hnone i (List.mem_cons_of_mem _ hi) hmem
            · intro i
              rw [hset, List.mem_cons]
              tauto

theorem parseOverlay_eq_ok {document : OverlayDocument} {o : Overlay} :
    parseOverlay document = .ok o ↔ o.id.text = document.id ∧ o.classId.text = document.classId ∧
      o.source.text = document.source ∧
      ∃ parsed : List Identifier, parsed.map Identifier.text = document.incompatibleWith ∧
        parsed.Nodup ∧ ∀ i, i ∈ o.incompatibleWith ↔ i ∈ parsed := by
  simp only [parseOverlay, bind_eq_ok, mapError_eq_ok, Identifier.parse_eq_ok,
    PackRelativePath.parse_eq_ok, parseIdentifierSet_eq_ok, SortedSet.mem_ofList,
    List.not_mem_nil, not_false_eq_true, implies_true, or_false, true_and, pure, Except.pure,
    Except.ok.injEq]
  constructor
  · intro h
    obtain ⟨id, hid, classId, hclassId, source, hsource, incompatibleWith, hset, rfl⟩ := h
    exact ⟨hid, hclassId, hsource, hset⟩
  · intro h
    exact ⟨o.id, h.1, o.classId, h.2.1, o.source, h.2.2.1, o.incompatibleWith, h.2.2.2, rfl⟩

theorem collect_parse_eq_ok {values : List String} {parsed : List Identifier} :
    collect Identifier.parse values = .ok parsed ↔ parsed.map Identifier.text = values := by
  rw [collect_eq_ok, ← List.forall₂_eq_eq_eq, List.forall₂_map_left_iff]
  simp only [Identifier.parse_eq_ok]
  exact ⟨List.Forall₂.flip, List.Forall₂.flip⟩

theorem parseSelection_eq_ok {entry : String × List String}
    {selection : Identifier × List Identifier} :
    parseSelection entry = .ok selection ↔
      selection.1.text = entry.1 ∧ selection.2.map Identifier.text = entry.2 := by
  simp only [parseSelection, bind_eq_ok, Identifier.parse_eq_ok, collect_parse_eq_ok, pure,
    Except.pure, Except.ok.injEq]
  constructor
  · intro h
    obtain ⟨id, hid, overlays, hoverlays, rfl⟩ := h
    exact ⟨hid, hoverlays⟩
  · intro h
    exact ⟨selection.1, h.1, selection.2, h.2, rfl⟩

theorem parseProfile_eq_ok {document : ProfileDocument} {q : Profile} :
    parseProfile document = .ok q ↔ q.id.text = document.id ∧ ∃ selections,
      collect parseSelection document.selections.entries = .ok selections ∧
        q.selections = .ofEntries selections := by
  simp only [parseProfile, bind_eq_ok, Identifier.parse_eq_ok, pure, Except.pure, Except.ok.injEq]
  constructor
  · intro h
    obtain ⟨selections, hselections, id, hid, rfl⟩ := h
    exact ⟨hid, selections, hselections, rfl⟩
  · intro h
    obtain ⟨hid, selections, hselections, hq⟩ := h
    exact ⟨selections, hselections, q.id, hid, by rw [← hq]⟩

theorem parseVariable_eq_ok {document : VariableDocument} {v : Variable} :
    parseVariable document = .ok v ↔
      v.name.text = document.name ∧ v.sensitivity = document.sensitivity.toSensitivity := by
  simp only [parseVariable, bind_eq_ok, Identifier.parse_eq_ok, pure, Except.pure, Except.ok.injEq]
  constructor
  · intro h
    obtain ⟨name, hname, rfl⟩ := h
    exact ⟨hname, rfl⟩
  · intro h
    exact ⟨v.name, h.1, by rw [← h.2]⟩

theorem PackDocument.toPack_eq_ok {document : PackDocument} {pack : OverlayPack} :
    document.toPack = .ok pack ↔
      document.schema = schemaFamily ∧ ∃ parts : PackParts,
        collect parseClass document.classes = .ok parts.classes ∧
        collect parseOverlay document.overlays = .ok parts.overlays ∧
        collect parseProfile document.profiles = .ok parts.profiles ∧
        collect parseVariable document.variables = .ok parts.variables ∧
        parts.id.text = document.id ∧ parts.schemaFamily = document.schema ∧
        OverlayPack.new parts = .ok pack := by
  simp only [PackDocument.toPack, bind_eq_ok, mapError_eq_ok, ensureSupportedSchema,
    rejectIf_eq_ok, exists_const, ne_eq, not_not, Identifier.parse_eq_ok]
  constructor
  · intro h
    obtain ⟨hschema, classes, hclasses, overlays, hoverlays, profiles, hprofiles, «variables»,
      hvariables, id, hid, hnew⟩ := h
    exact ⟨hschema, _, hclasses, hoverlays, hprofiles, hvariables, hid, rfl, hnew⟩
  · intro h
    obtain ⟨hschema, ⟨id, schema, classes, overlays, profiles, «variables»⟩, hclasses, hoverlays,
      hprofiles, hvariables, hid, hfamily, hnew⟩ := h
    subst hfamily
    exact ⟨hschema, classes, hclasses, overlays, hoverlays, profiles, hprofiles, «variables»,
      hvariables, id, hid, hnew⟩

/-! ## What the counts decide -/

theorem ensureCount_eq_ok {kind : DeclarationKind} {actual : Nat} {limits : DeclarationLimits}
    {u : Unit} : ensureCount kind actual limits = .ok u ↔ actual ≤ (limits.maximum kind).toNat := by
  rw [ensureCount, rejectIf_eq_ok, not_lt]

theorem ensureAccumulatedCount_of_le {kind : DeclarationKind} {limits : DeclarationLimits}
    {actual : Nat} {counts : List Nat} (h : actual + counts.sum ≤ (limits.maximum kind).toNat) :
    ensureAccumulatedCount kind limits actual counts = .ok () := by
  induction counts generalizing actual with
  | nil => rfl
  | cons count rest ih =>
      have hword := toNat_lt_wordSize (limits.maximum kind)
      rw [List.sum_cons] at h
      have hadd : checkedAdd actual count = some (actual + count) :=
        checkedAdd_eq_some.mpr ⟨by omega, rfl⟩
      rw [ensureAccumulatedCount, hadd, okOr, ok_bind, rejectIf_of_not _ (by omega), ok_bind]
      exact ih (by omega)

theorem ensureAccumulatedCount_of_lt {kind : DeclarationKind} {limits : DeclarationLimits}
    {actual : Nat} {counts : List Nat} (hactual : actual ≤ (limits.maximum kind).toNat)
    (h : (limits.maximum kind).toNat < actual + counts.sum) :
    ∃ found, ensureAccumulatedCount kind limits actual counts =
      .error (.tooManyDeclarations kind (limits.maximum kind).toNat found) := by
  induction counts generalizing actual with
  | nil =>
      rw [List.sum_nil] at h
      omega
  | cons count rest ih =>
      rw [List.sum_cons] at h
      unfold ensureAccumulatedCount
      cases hadd : checkedAdd actual count with
      | none => exact ⟨_, rfl⟩
      | some total =>
          have htotal := (checkedAdd_eq_some.mp hadd).2
          rw [okOr, ok_bind]
          by_cases hlt : (limits.maximum kind).toNat < total
          · rw [rejectIf_of _ hlt, error_bind]
            exact ⟨_, rfl⟩
          · rw [rejectIf_of_not _ hlt, ok_bind]
            exact ih (by omega) (by omega)

/-- The counts pass exactly when every kind is within its maximum. -/
theorem PackDocument.ensureDeclarationLimits_eq_ok {document : PackDocument}
    {limits : DeclarationLimits} :
    document.ensureDeclarationLimits limits = .ok () ↔
      ∀ kind, document.count kind ≤ (limits.maximum kind).toNat := by
  have haccumulated : ∀ kind counts, ensureAccumulatedCount kind limits 0 counts = .ok () ↔
      counts.sum ≤ (limits.maximum kind).toNat := by
    intro kind counts
    constructor
    · intro h
      by_contra hlt
      obtain ⟨_, herror⟩ := @ensureAccumulatedCount_of_lt kind limits 0 counts (Nat.zero_le _)
        (by omega)
      rw [h] at herror
      cases herror
    · intro h
      exact ensureAccumulatedCount_of_le (by omega)
  simp only [PackDocument.ensureDeclarationLimits, bind_eq_ok, ensureCount_eq_ok, haccumulated,
    exists_const]
  constructor
  · intro h kind
    obtain ⟨hclass, hoverlay, hprofile, hvariable, hselection, hincompatibility⟩ := h
    cases kind with
    | «class» => exact hclass
    | overlay => exact hoverlay
    | profile => exact hprofile
    | «variable» => exact hvariable
    | selection => exact hselection
    | incompatibility => exact hincompatibility
  · intro h
    exact ⟨h .class, h .overlay, h .profile, h .variable, h .selection, h .incompatibility⟩

/-- A refusal names a kind the document declares too much of, and its maximum. -/
theorem PackDocument.ensureDeclarationLimits_eq_error {document : PackDocument}
    {limits : DeclarationLimits} {e : SchemaError}
    (h : document.ensureDeclarationLimits limits = .error e) :
    ∃ kind actual, e = .tooManyDeclarations kind (limits.maximum kind).toNat actual ∧
      (limits.maximum kind).toNat < document.count kind := by
  have hcount : ∀ kind actual, ensureCount kind actual limits = .error e →
      ∃ found, e = .tooManyDeclarations kind (limits.maximum kind).toNat found ∧
        (limits.maximum kind).toNat < actual := by
    intro kind actual herror
    rw [ensureCount, rejectIf_eq_error] at herror
    exact ⟨_, herror.2.symm, herror.1⟩
  have haccumulated : ∀ kind counts, ensureAccumulatedCount kind limits 0 counts = .error e →
      ∃ found, e = .tooManyDeclarations kind (limits.maximum kind).toNat found ∧
        (limits.maximum kind).toNat < counts.sum := by
    intro kind counts herror
    by_cases hle : 0 + counts.sum ≤ (limits.maximum kind).toNat
    · rw [ensureAccumulatedCount_of_le hle] at herror
      cases herror
    · obtain ⟨found, hfound⟩ := @ensureAccumulatedCount_of_lt kind limits 0 counts
        (Nat.zero_le _) (by omega)
      rw [hfound, Except.error.injEq] at herror
      exact ⟨found, herror.symm, by omega⟩
  simp only [PackDocument.ensureDeclarationLimits, bind_eq_error] at h
  rcases h with h | ⟨_, _, h | ⟨_, _, h | ⟨_, _, h | ⟨_, _, h | ⟨_, _, h⟩⟩⟩⟩⟩
  · exact ⟨.class, hcount .class _ h⟩
  · exact ⟨.overlay, hcount .overlay _ h⟩
  · exact ⟨.profile, hcount .profile _ h⟩
  · exact ⟨.variable, hcount .variable _ h⟩
  · exact ⟨.selection, haccumulated .selection _ h⟩
  · exact ⟨.incompatibility, haccumulated .incompatibility _ h⟩

/-! ## Exact counts -/

/-- What a profile adds to the count of selections. -/
def ProfileDocument.selectionCount (document : ProfileDocument) : Nat :=
  (document.selections.entries.map fun entry => 1 + entry.2.length).sum

theorem PackDocument.selectionCounts_sum (document : PackDocument) :
    document.selectionCounts.sum = (document.profiles.map (·.selectionCount)).sum := by
  have hprofile : ∀ entries : List (String × List String),
      (entries.flatMap fun entry => [1, entry.2.length]).sum =
        (entries.map fun entry => 1 + entry.2.length).sum := by
    intro entries
    induction entries with
    | nil => rfl
    | cons entry rest ih =>
        rw [List.flatMap_cons, List.sum_append, ih, List.map_cons, List.sum_cons]
        simp
  unfold PackDocument.selectionCounts
  induction document.profiles with
  | nil => rfl
  | cons profile rest ih =>
      rw [List.flatMap_cons, List.sum_append, ih, hprofile, List.map_cons, List.sum_cons]
      rfl

/-- The declarations of a kind, as a sum without bounds: a profile declares one for each class
key and one for each overlay selected under it. -/
def PackDocument.total (document : PackDocument) : DeclarationKind → Nat
  | .class => document.classes.length
  | .overlay => document.overlays.length
  | .profile => document.profiles.length
  | .variable => document.variables.length
  | .selection => (document.profiles.map fun profile =>
      (profile.selections.entries.map fun entry => 1 + entry.2.length).sum).sum
  | .incompatibility => (document.overlays.map fun overlay => overlay.incompatibleWith.length).sum

theorem PackDocument.count_eq_total (document : PackDocument) (kind : DeclarationKind) :
    document.count kind = document.total kind := by
  cases kind with
  | selection => exact document.selectionCounts_sum
  | _ => rfl

/-- Declarations pass exactly when no total exceeds its maximum, and a refusal names a kind whose
total does. -/
theorem ensureDeclarationLimits_exact (document : PackDocument) (limits : DeclarationLimits) :
    (document.ensureDeclarationLimits limits = .ok () ↔
      ∀ kind, document.total kind ≤ (limits.maximum kind).toNat) ∧
    ∀ e, document.ensureDeclarationLimits limits = .error e →
      ∃ kind actual, e = .tooManyDeclarations kind (limits.maximum kind).toNat actual ∧
        (limits.maximum kind).toNat < document.total kind := by
  simp only [← PackDocument.count_eq_total]
  constructor
  · exact PackDocument.ensureDeclarationLimits_eq_ok
  · intro e h
    exact PackDocument.ensureDeclarationLimits_eq_error h

end Invokrum.Schema
