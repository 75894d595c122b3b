import Invokrum.Schema.Parse

/-!
# Normalized packs

A validated pack is printed as the document of its stored parts. The document
reads back as itself and denotes the pack it was made from, so printing a pack
and parsing the text returns the pack, as far as the limits reach.
-/

namespace Invokrum.Schema

open Outcome Ordered Machine Invokrum.Core

/-! ## Printing documents -/

def stringsJson (values : List String) : Json := .array (values.map .string)

def ClassDocument.toJson (document : ClassDocument) : Json :=
  .object [
    ("id", .string document.id),
    ("order", .ofUInt32 document.order),
    ("minimum", .ofUInt32 document.minimum),
    ("maximum", .ofOptionUInt32 document.maximum)]

def OverlayDocument.toJson (document : OverlayDocument) : Json :=
  .object [
    ("id", .string document.id),
    ("class", .string document.classId),
    ("source", .string document.source),
    ("incompatible_with", stringsJson document.incompatibleWith)]

def selectionMember (entry : String × List String) : String × Json :=
  (entry.1, stringsJson entry.2)

def ProfileDocument.toJson (document : ProfileDocument) : Json :=
  .object [
    ("id", .string document.id),
    ("selections", .object (document.selections.entries.map selectionMember))]

def SensitivityDocument.toJson : SensitivityDocument → Json
  | .public => .string "public"
  | .secret => .string "secret"

def VariableDocument.toJson (document : VariableDocument) : Json :=
  .object [
    ("name", .string document.name),
    ("sensitivity", document.sensitivity.toJson)]

def PackDocument.toJson (document : PackDocument) : Json :=
  .object [
    ("schema", .string document.schema),
    ("id", .string document.id),
    ("classes", .array (document.classes.map ClassDocument.toJson)),
    ("overlays", .array (document.overlays.map OverlayDocument.toJson)),
    ("profiles", .array (document.profiles.map ProfileDocument.toJson)),
    ("variables", .array (document.variables.map VariableDocument.toJson))]

/-! ## From a pack -/

def ClassDocument.ofClass (c : OverlayClass) : ClassDocument :=
  ⟨c.id.text, c.order, c.cardinality.minimum, c.cardinality.maximum⟩

def OverlayDocument.ofOverlay (o : Overlay) : OverlayDocument :=
  ⟨o.id.text, o.classId.text, o.source.text, o.incompatibleWith.toList.map Identifier.text⟩

def selectionTexts (entry : Identifier × List Identifier) : String × List String :=
  (entry.1.text, entry.2.map Identifier.text)

def ProfileDocument.ofProfile (q : Profile) : ProfileDocument :=
  ⟨q.id.text, .ofEntries (q.selections.entries.map selectionTexts)⟩

def SensitivityDocument.ofSensitivity : Sensitivity → SensitivityDocument
  | .public => .public
  | .secret => .secret

def VariableDocument.ofVariable (v : Variable) : VariableDocument :=
  ⟨v.name.text, .ofSensitivity v.sensitivity⟩

/-- `PackDocument::from` on a pack. -/
def PackDocument.ofPack (pack : OverlayPack) : PackDocument where
  schema := pack.schemaFamily
  id := pack.id.text
  classes := pack.classes.map ClassDocument.ofClass
  overlays := pack.overlays.map OverlayDocument.ofOverlay
  profiles := pack.profiles.map ProfileDocument.ofProfile
  «variables» := pack.variables.map VariableDocument.ofVariable

/-- `to_normalized_json`, with the library's printer. -/
def toNormalizedJson (toStringPretty : Json → Except String String) (pack : OverlayPack) :
    Except SchemaError String :=
  (toStringPretty (PackDocument.ofPack pack).toJson).mapError fun message =>
    .encode (boundedText message maxErrorMessageChars)

/-! ## A printed document reads back -/

theorem mapM_asString (values : List String) :
    (values.map Json.string).mapM Json.asString = some values :=
  @Json.mapM_map_of_inverse _ Json.string Json.asString (fun _ => rfl) values

theorem ClassDocument.ofJson_toJson (document : ClassDocument) :
    ClassDocument.ofJson document.toJson = some document := by
  rw [ClassDocument.ofJson_eq_some]
  exact ⟨_, _, _, _, Json.record_object rfl (by simp), rfl, Json.asUInt32_ofUInt32 _,
    Json.asUInt32_ofUInt32 _, Json.asOptionUInt32_ofOptionUInt32 _⟩

theorem OverlayDocument.ofJson_toJson (document : OverlayDocument) :
    OverlayDocument.ofJson document.toJson = some document := by
  rw [OverlayDocument.ofJson_eq_some]
  exact ⟨_, _, _, _, _, Json.record_object rfl (by simp), rfl, rfl, rfl, rfl, mapM_asString _⟩

theorem readSelections_entries (selections : SortedMap String (List String)) :
    readSelections (.object (selections.entries.map selectionMember)) = some selections := by
  have hread : ∀ entry, readSelection (selectionMember entry) = some entry := by
    intro entry
    have hitems := mapM_asString entry.2
    simp only [readSelection, selectionMember, readStrings, stringsJson, Json.asArray,
      Option.bind_eq_bind, Option.bind_some, hitems]
  have hmembers : (selections.entries.map selectionMember).mapM readSelection =
      some selections.entries := by
    rw [Json.mapM_eq_some, List.forall₂_map_left_iff, List.forall₂_same]
    intro entry _
    exact hread entry
  simp only [readSelections, Json.asObject, Option.bind_eq_bind, Option.bind_some, hmembers,
    SortedMap.ofEntries_entries]

theorem ProfileDocument.ofJson_toJson (document : ProfileDocument) :
    ProfileDocument.ofJson document.toJson = some document := by
  rw [ProfileDocument.ofJson_eq_some]
  exact ⟨_, _, Json.record_object rfl (by simp), rfl, readSelections_entries _⟩

theorem VariableDocument.ofJson_toJson (document : VariableDocument) :
    VariableDocument.ofJson document.toJson = some document := by
  have hsensitivity : SensitivityDocument.ofJson document.sensitivity.toJson =
      some document.sensitivity := by
    cases document.sensitivity <;> rfl
  rw [VariableDocument.ofJson_eq_some]
  exact ⟨_, _, Json.record_object rfl (by simp), rfl, hsensitivity⟩

theorem PackDocument.ofJson_toJson (document : PackDocument) :
    PackDocument.ofJson document.toJson = some document := by
  rw [PackDocument.ofJson_eq_some]
  exact ⟨_, _, _, _, _, _, _, _, _, _, Json.record_object rfl (by simp), rfl, rfl, rfl,
    Json.mapM_map_of_inverse ClassDocument.ofJson_toJson _, rfl,
    Json.mapM_map_of_inverse OverlayDocument.ofJson_toJson _, rfl,
    Json.mapM_map_of_inverse ProfileDocument.ofJson_toJson _, rfl,
    Json.mapM_map_of_inverse VariableDocument.ofJson_toJson _⟩

theorem readEnvelope_toJson (document : PackDocument) :
    readEnvelope document.toJson = some document.schema := by
  simp [readEnvelope, PackDocument.toJson, Json.asString]

/-! ## A printed document passes the walk -/

/-- A tree the walk accepts under this depth. -/
def Plain (depth : Nat) (j : Json) : Prop := DistinctKeys j ∧ j.nesting ≤ depth

theorem plain_array {α : Type} {toJson : α → Json} {depth : Nat}
    (h : ∀ x, Plain depth (toJson x)) (xs : List α) :
    Plain (depth + 1) (.array (xs.map toJson)) := by
  constructor
  · rw [distinctKeys_array, List.forall_mem_map]
    exact fun x _ => (h x).1
  · rw [Json.nesting_array_le, List.forall_mem_map]
    exact fun x _ => (h x).2

theorem plain_object {depth : Nat} {members : List (String × Json)}
    (hnames : (members.map Prod.fst).Nodup) (h : ∀ member ∈ members, Plain depth member.2) :
    Plain (depth + 1) (.object members) := by
  constructor
  · rw [distinctKeys_object]
    exact ⟨hnames, fun member hmember => (h member hmember).1⟩
  · rw [Json.nesting_object_le]
    exact fun member hmember => (h member hmember).2

theorem Plain.mono {j : Json} {depth depth' : Nat} (h : Plain depth j) (hle : depth ≤ depth') :
    Plain depth' j :=
  ⟨h.1, Nat.le_trans h.2 hle⟩

theorem plain_string (depth : Nat) (value : String) : Plain depth (.string value) :=
  ⟨distinctKeys_of_scalar (by simp) (by simp), Nat.zero_le _⟩

theorem plain_uint32 (depth : Nat) (n : UInt32) : Plain depth (.ofUInt32 n) :=
  ⟨distinctKeys_of_scalar (by simp [Json.ofUInt32]) (by simp [Json.ofUInt32]), Nat.zero_le _⟩

theorem plain_optionUInt32 (depth : Nat) (n : Option UInt32) : Plain depth (.ofOptionUInt32 n) := by
  cases n with
  | none => exact ⟨distinctKeys_of_scalar (by simp [Json.ofOptionUInt32])
      (by simp [Json.ofOptionUInt32]), Nat.zero_le _⟩
  | some n => exact plain_uint32 depth n

theorem plain_strings (values : List String) : Plain 1 (stringsJson values) :=
  plain_array (plain_string 0) values

theorem ClassDocument.plain (document : ClassDocument) : Plain 1 document.toJson := by
  apply plain_object (by simp)
  simp only [List.forall_mem_cons, List.not_mem_nil, false_implies, implies_true, and_true]
  exact ⟨plain_string 0 _, plain_uint32 0 _, plain_uint32 0 _, plain_optionUInt32 0 _⟩

theorem OverlayDocument.plain (document : OverlayDocument) : Plain 2 document.toJson := by
  apply plain_object (by simp)
  simp only [List.forall_mem_cons, List.not_mem_nil, false_implies, implies_true, and_true]
  exact ⟨plain_string 1 _, plain_string 1 _, plain_string 1 _, plain_strings _⟩

theorem ProfileDocument.plain (document : ProfileDocument) : Plain 3 document.toJson := by
  have hselections : Plain 2 (.object (document.selections.entries.map selectionMember)) := by
    apply plain_object
    · rw [List.map_map]
      exact document.selections.keys_nodup
    · rw [List.forall_mem_map]
      exact fun entry _ => plain_strings entry.2
  apply plain_object (by simp)
  simp only [List.forall_mem_cons, List.not_mem_nil, false_implies, implies_true, and_true]
  exact ⟨plain_string 2 _, hselections⟩

theorem VariableDocument.plain (document : VariableDocument) : Plain 1 document.toJson := by
  have hsensitivity : Plain 0 document.sensitivity.toJson := by
    cases document.sensitivity
    · exact plain_string 0 _
    · exact plain_string 0 _
  apply plain_object (by simp)
  simp only [List.forall_mem_cons, List.not_mem_nil, false_implies, implies_true, and_true]
  exact ⟨plain_string 0 _, hsensitivity⟩

/-- The deepest member of a document is an overlay list of a selection. -/
theorem PackDocument.plain (document : PackDocument) : Plain 5 document.toJson := by
  apply plain_object (by simp)
  simp only [List.forall_mem_cons, List.not_mem_nil, false_implies, implies_true, and_true]
  exact ⟨plain_string 4 _, plain_string 4 _,
    (plain_array ClassDocument.plain _).mono (by decide),
    (plain_array OverlayDocument.plain _).mono (by decide),
    plain_array ProfileDocument.plain _,
    (plain_array VariableDocument.plain _).mono (by decide)⟩

/-! ## The document of a pack denotes it -/

theorem selectionTexts_entries (selections : SortedMap Identifier (List Identifier)) :
    (SortedMap.ofEntries (selections.entries.map selectionTexts)).entries =
      selections.entries.map selectionTexts := by
  have hsorted : (selections.entries.map selectionTexts).Pairwise (fun a b => a.1 < b.1) :=
    List.pairwise_map.mpr selections.sorted
  have hmap := SortedMap.ofEntries_entries ⟨selections.entries.map selectionTexts, hsorted⟩
  exact congrArg SortedMap.entries hmap

theorem collect_map {α β ε : Type} {f : α → Except ε β} {g : β → α}
    (h : ∀ b, f (g b) = .ok b) (bs : List β) : collect f (bs.map g) = .ok bs := by
  rw [collect_eq_ok, List.forall₂_map_left_iff, List.forall₂_same]
  exact fun b _ => h b

theorem parseClass_ofClass (c : OverlayClass) : parseClass (.ofClass c) = .ok c :=
  parseClass_eq_ok.mpr ⟨rfl, rfl, rfl, rfl⟩

theorem parseOverlay_ofOverlay (o : Overlay) : parseOverlay (.ofOverlay o) = .ok o :=
  parseOverlay_eq_ok.mpr ⟨rfl, rfl, rfl, o.incompatibleWith.toList, rfl,
    o.incompatibleWith.sorted.imp ne_of_lt, fun _ => Iff.rfl⟩

theorem parseProfile_ofProfile (q : Profile) : parseProfile (.ofProfile q) = .ok q := by
  have hselections : collect parseSelection
      (ProfileDocument.ofProfile q).selections.entries = .ok q.selections.entries := by
    rw [ProfileDocument.ofProfile, selectionTexts_entries]
    exact collect_map (fun entry => parseSelection_eq_ok.mpr ⟨rfl, rfl⟩) _
  exact parseProfile_eq_ok.mpr ⟨rfl, _, hselections, (SortedMap.ofEntries_entries _).symm⟩

theorem parseVariable_ofVariable (v : Variable) : parseVariable (.ofVariable v) = .ok v := by
  apply parseVariable_eq_ok.mpr
  refine ⟨rfl, ?_⟩
  unfold VariableDocument.ofVariable
  cases v.sensitivity <;> rfl

/-- The document of a pack of this schema family denotes the pack. -/
theorem PackDocument.toPack_ofPack {pack : OverlayPack}
    (hschema : pack.schemaFamily = schemaFamily) : (PackDocument.ofPack pack).toPack = .ok pack :=
  PackDocument.toPack_eq_ok.mpr ⟨hschema, pack.toPackParts,
    collect_map parseClass_ofClass _, collect_map parseOverlay_ofOverlay _,
    collect_map parseProfile_ofProfile _, collect_map parseVariable_ofVariable _, rfl, rfl,
    pack.new_self⟩

/-! ## A document and the document of its pack count the same -/

/-- Selections read under distinct class names keep their number and their lengths. -/
theorem selectionCount_of_parse {document : ProfileDocument} {q : Profile}
    (h : parseProfile document = .ok q) :
    (ProfileDocument.ofProfile q).selectionCount = document.selectionCount := by
  obtain ⟨_, selections, hselections, hq⟩ := parseProfile_eq_ok.mp h
  have hpairs := collect_eq_ok.mp hselections
  simp only [parseSelection_eq_ok] at hpairs
  have hcount : ∀ {entries : List (String × List String)}
      {selections : List (Identifier × List Identifier)},
      List.Forall₂ (fun entry selection => selection.1.text = entry.1 ∧
        selection.2.map Identifier.text = entry.2) entries selections →
      selections.map (·.1.text) = entries.map Prod.fst ∧
        (selections.map fun selection => 1 + selection.2.length).sum =
          (entries.map fun entry => 1 + entry.2.length).sum := by
    intro entries selections hall
    induction hall with
    | nil => exact ⟨rfl, rfl⟩
    | cons hpair _ ih =>
        obtain ⟨hname, hitems⟩ := hpair
        refine ⟨by rw [List.map_cons, List.map_cons, ih.1, hname], ?_⟩
        rw [List.map_cons, List.map_cons, List.sum_cons, List.sum_cons, ih.2, ← hitems,
          List.length_map]
  obtain ⟨hnames, hsum⟩ := hcount hpairs
  have hdistinct : (selections.map Prod.fst).Nodup := by
    apply List.Nodup.of_map Identifier.text
    rw [List.map_map]
    have hkeys := document.selections.keys_nodup
    rw [SortedMap.keys, ← hnames] at hkeys
    exact hkeys
  have hperm := (SortedMap.ofEntries_perm hdistinct).map fun selection => 1 + selection.2.length
  calc (ProfileDocument.ofProfile q).selectionCount
      = (q.selections.entries.map fun selection => 1 + selection.2.length).sum := by
        rw [ProfileDocument.selectionCount, ProfileDocument.ofProfile, selectionTexts_entries,
          List.map_map]
        simp [selectionTexts, Function.comp_def]
    _ = (selections.map fun selection => 1 + selection.2.length).sum := by
        rw [hq, hperm.sum_eq]
    _ = document.selectionCount := hsum

/-- A set read without repetition keeps its number of elements. -/
theorem incompatibilities_of_parse {document : OverlayDocument} {o : Overlay}
    (h : parseOverlay document = .ok o) :
    (OverlayDocument.ofOverlay o).incompatibleWith.length = document.incompatibleWith.length := by
  obtain ⟨_, _, _, parsed, hparsed, hnodup, hset⟩ := parseOverlay_eq_ok.mp h
  have hperm : o.incompatibleWith.toList.Perm parsed :=
    (List.perm_ext_iff_of_nodup (o.incompatibleWith.sorted.imp ne_of_lt) hnodup).mpr hset
  rw [OverlayDocument.ofOverlay, List.length_map, hperm.length_eq, ← hparsed, List.length_map]

theorem map_eq_of_forall₂ {α β γ : Type} {f : α → γ} {g : β → γ} {as : List α} {bs : List β}
    (h : List.Forall₂ (fun a b => f a = g b) as bs) : as.map f = bs.map g := by
  rw [← List.forall₂_eq_eq_eq, List.forall₂_map_left_iff, List.forall₂_map_right_iff]
  exact h

/-- An accepted document and the document of its pack have the same counts. -/
theorem PackDocument.count_ofPack {document : PackDocument} {pack : OverlayPack}
    (h : document.toPack = .ok pack) (kind : DeclarationKind) :
    (PackDocument.ofPack pack).count kind = document.count kind := by
  obtain ⟨_, parts, hclasses, hoverlays, hprofiles, hvariables, _, _, hnew⟩ :=
    PackDocument.toPack_eq_ok.mp h
  have hparts : parts.normalize = pack.toPackParts := (OverlayPack.new_eq_ok.mp hnew).2
  cases kind with
  | «class» =>
      have hlength := (collect_eq_ok.mp hclasses).length_eq
      simp [PackDocument.count, PackDocument.ofPack, ← hparts, PackParts.normalize, hlength]
  | overlay =>
      have hlength := (collect_eq_ok.mp hoverlays).length_eq
      simp [PackDocument.count, PackDocument.ofPack, ← hparts, PackParts.normalize, hlength]
  | profile =>
      have hlength := (collect_eq_ok.mp hprofiles).length_eq
      simp [PackDocument.count, PackDocument.ofPack, ← hparts, PackParts.normalize, hlength]
  | «variable» =>
      have hlength := (collect_eq_ok.mp hvariables).length_eq
      simp [PackDocument.count, PackDocument.ofPack, ← hparts, PackParts.normalize, hlength]
  | selection =>
      have hperm : pack.profiles.Perm parts.profiles := by
        rw [← hparts]
        exact sortByKey_perm _ _
      have hcounts := map_eq_of_forall₂ ((collect_eq_ok.mp hprofiles).imp fun _ _ hparse =>
        (selectionCount_of_parse hparse).symm)
      rw [PackDocument.count, PackDocument.count, PackDocument.selectionCounts_sum,
        PackDocument.selectionCounts_sum, hcounts, PackDocument.ofPack, List.map_map]
      exact (hperm.map _).sum_eq
  | incompatibility =>
      have hperm : pack.overlays.Perm parts.overlays := by
        rw [← hparts]
        exact sortByKey_perm _ _
      have hcounts := map_eq_of_forall₂ ((collect_eq_ok.mp hoverlays).imp fun _ _ hparse =>
        (incompatibilities_of_parse hparse).symm)
      rw [PackDocument.count, PackDocument.count, PackDocument.incompatibilityCounts,
        PackDocument.incompatibilityCounts, hcounts, PackDocument.ofPack, List.map_map]
      exact (hperm.map _).sum_eq

/-! ## Round trips -/

/-- The library reads a text as a tree. -/
structure JsonReader.Reads (reader : JsonReader) (text : String) (j : Json) : Prop where
  present : reader.present text = .ofJson j
  trailing : reader.trailing text = none
  envelope : ∀ schema, readEnvelope j = some schema → reader.envelope text = .ok schema
  document : ∀ document, PackDocument.ofJson j = some document →
    reader.document text = .ok document

/-- The printed text of a pack's document is read as that document. -/
def Prints (toStringPretty : Json → Except String String) (reader : JsonReader)
    (pack : OverlayPack) (text : String) : Prop :=
  toStringPretty (PackDocument.ofPack pack).toJson = .ok text ∧
    reader.Reads text (PackDocument.ofPack pack).toJson

/-- Limits a normalized pack fits. -/
structure SchemaLimits.Covers (limits : SchemaLimits) (pack : OverlayPack) (text : String) :
    Prop where
  documentBytes : Text.byteLength text ≤ limits.documentBytes.toNat
  nestingDepth : 5 ≤ limits.nestingDepth.toNat
  declarations : ∀ kind,
    (PackDocument.ofPack pack).count kind ≤ (limits.declarations.maximum kind).toNat

section RoundTrip

variable {toStringPretty : Json → Except String String} {reader : JsonReader}
  {pack : OverlayPack} {text : String}

theorem toNormalizedJson_eq_ok (h : Prints toStringPretty reader pack text) :
    toNormalizedJson toStringPretty pack = .ok text := by
  rw [toNormalizedJson, h.1]
  rfl

/-- A text read as the document of a pack is parsed as the pack, under limits it fits. -/
theorem parseJsonWithLimits_of_reads (hschema : pack.schemaFamily = schemaFamily)
    (hreads : reader.Reads text (PackDocument.ofPack pack).toJson) {limits : SchemaLimits}
    (hcovers : limits.Covers pack text) :
    parseJsonWithLimits reader text limits = .ok pack := by
  have hplain := (PackDocument.ofPack pack).plain.mono hcovers.nestingDepth
  have hwalk : StrictSeed.deserialize false (.root limits.nestingDepth) []
      (reader.present text) = .ok () := by
    rw [hreads.present]
    exact (deserialize_ofJson _ 0 [] (Nat.zero_le _)).mpr
      ⟨hplain.1, by rw [Nat.zero_add]; exact hplain.2⟩
  have henvelope : reader.envelope text = .ok schemaFamily := by
    rw [← hschema]
    exact hreads.envelope _ (readEnvelope_toJson _)
  exact parseJsonWithLimits_eq_ok.mpr ⟨hcovers.documentBytes,
    preflightJson_eq_ok.mpr ⟨hwalk, hreads.trailing⟩,
    decodePack_eq_ok.mpr ⟨henvelope, _, hreads.document _ (PackDocument.ofJson_toJson _),
      hcovers.declarations, PackDocument.toPack_ofPack hschema⟩⟩

/-- An accepted text denotes a pack of the schema family within the declaration limits. -/
theorem declared_of_parse {input : String} {limits : SchemaLimits}
    (h : parseJsonWithLimits reader input limits = .ok pack) :
    pack.schemaFamily = schemaFamily ∧ ∀ kind,
      (PackDocument.ofPack pack).count kind ≤ (limits.declarations.maximum kind).toNat := by
  obtain ⟨_, _, hdecode⟩ := parseJsonWithLimits_eq_ok.mp h
  obtain ⟨_, document, _, hcounts, hpack⟩ := decodePack_eq_ok.mp hdecode
  obtain ⟨hschema, parts, _, _, _, _, _, hfamily, hnew⟩ := PackDocument.toPack_eq_ok.mp hpack
  have hparts : parts.normalize = pack.toPackParts := (OverlayPack.new_eq_ok.mp hnew).2
  refine ⟨?_, fun kind => ?_⟩
  · rw [← hparts, ← hschema, ← hfamily]
    rfl
  · rw [PackDocument.count_ofPack hpack]
    exact hcounts kind

/-- Packs printed as one text are one pack. -/
theorem eq_of_prints {other : OverlayPack} (hpack : Prints toStringPretty reader pack text)
    (hother : Prints toStringPretty reader other text)
    (hschema : pack.schemaFamily = schemaFamily) (hschema' : other.schemaFamily = schemaFamily) :
    other = pack := by
  have hdocument := hpack.2.document _ (PackDocument.ofJson_toJson _)
  rw [hother.2.document _ (PackDocument.ofJson_toJson _), Except.ok.injEq] at hdocument
  have htoPack := PackDocument.toPack_ofPack hschema'
  rw [hdocument, PackDocument.toPack_ofPack hschema, Except.ok.injEq] at htoPack
  exact htoPack.symm

/-- Normalizing a pack and parsing the text returns the pack, under all limits the text and
the pack fit. A pack parsed under the default limits fits all of them but the size limit, so
normalizing is idempotent as far as the size allows, and packs parsed from two documents are
normalized to one text exactly if they are equal. -/
theorem normalized_roundTrip (hprints : Prints toStringPretty reader pack text) :
    toNormalizedJson toStringPretty pack = .ok text ∧
    (pack.schemaFamily = schemaFamily → ∀ limits : SchemaLimits, limits.Covers pack text →
      parseJsonWithLimits reader text limits = .ok pack) ∧
    ∀ input, parseJson reader input = .ok pack →
      (∀ documentBytes : UInt64, Text.byteLength text ≤ documentBytes.toNat →
        ∃ again, parseJsonWithLimits reader text { SchemaLimits.default with documentBytes } =
          .ok again ∧ again = pack ∧ toNormalizedJson toStringPretty again = .ok text) ∧
      ∀ input' other text', parseJson reader input' = .ok other →
        Prints toStringPretty reader other text' → (text' = text ↔ other = pack) := by
  refine ⟨toNormalizedJson_eq_ok hprints, fun hschema limits hcovers =>
    parseJsonWithLimits_of_reads hschema hprints.2 hcovers, fun input hparse => ?_⟩
  obtain ⟨hschema, hcounts⟩ := declared_of_parse hparse
  refine ⟨fun documentBytes hbytes => ?_, ?_⟩
  · have hcovers : { SchemaLimits.default with documentBytes }.Covers pack text :=
      ⟨hbytes, show 5 ≤ (32 : UInt64).toNat by decide, hcounts⟩
    exact ⟨pack, parseJsonWithLimits_of_reads hschema hprints.2 hcovers, rfl,
      toNormalizedJson_eq_ok hprints⟩
  · intro input' other text' hparse' hprints'
    constructor
    · intro htext
      subst htext
      exact eq_of_prints hprints hprints' hschema (declared_of_parse hparse').1
    · intro hother
      subst hother
      have hsame := hprints.1
      rw [hprints'.1, Except.ok.injEq] at hsame
      exact hsame

end RoundTrip

/-! ## Pretty text -/

def newline (indent : Nat) : List Char := '\n' :: List.replicate (2 * indent) ' '

mutual

/-- The text of a tree with one item or member a line; empty containers stay on theirs. -/
def pretty (indent : Nat) : Json → List Char
  | .array items =>
      if items.isEmpty then ['[', ']']
      else '[' :: (prettyItems (indent + 1) [] items ++ (newline indent ++ [']']))
  | .object members =>
      if members.isEmpty then ['{', '}']
      else '{' :: (prettyMembers (indent + 1) [] members ++ (newline indent ++ ['}']))
  | j => j.compact

/-- Array items on their lines, the first one preceded by `lead` and every later one by a
comma. -/
def prettyItems (indent : Nat) (lead : List Char) : List Json → List Char
  | [] => []
  | item :: rest =>
      lead ++ (newline indent ++ (pretty indent item ++ prettyItems indent [','] rest))

def prettyMembers (indent : Nat) (lead : List Char) : List (String × Json) → List Char
  | [] => []
  | (name, value) :: rest =>
      lead ++ (newline indent ++ (Json.quoted name ++ (':' :: ' ' ::
        (pretty indent value ++ prettyMembers indent [','] rest))))

end

def prettyText (j : Json) : Except String String := .ok (String.ofList (pretty 0 j))

/-! ## A pack whose normalized text is too large -/

def longText (n : Nat) : List Char := List.replicate (n + 1) 'a'

theorem longText_valid (n : Nat) : packRelativePathValid (String.ofList (longText n)) = true := by
  have hplain : ∀ c ≠ 'a', c ∉ longText n := by
    intro c hc hmem
    exact hc (List.eq_of_mem_replicate hmem)
  have hsplit : Text.split '/' (longText n) = [longText n] :=
    Text.split_of_not_mem (hplain '/' (by decide))
  have hhead : (longText n).head? = some 'a' := rfl
  have hlast : (longText n).getLast? = some 'a' := by
    simp [longText, List.getLast?_replicate]
  have hne : longText n ≠ [] := by simp [longText]
  have hdot : ∀ segment : List Char, '.' ∈ segment → longText n ≠ segment := by
    intro segment hmem heq
    exact hplain '.' (by decide) (heq ▸ hmem)
  simp [packRelativePathValid, hsplit, hhead, hlast, hne, hplain, hdot]

theorem noIdentifiers_sorted : ([] : List Identifier).Pairwise (· < ·) := .nil

/-- One overlay with a source path of this many letters and one more. -/
def longParts (n : Nat) : PackParts where
  id := ⟨"long", by decide +kernel⟩
  schemaFamily := schemaFamily
  classes := [⟨⟨"files", by decide +kernel⟩, 0, ⟨0, none, zero_le_of_none⟩⟩]
  overlays := [⟨⟨"file", by decide +kernel⟩, ⟨"files", by decide +kernel⟩,
    ⟨String.ofList (longText n), longText_valid n⟩, ⟨[], noIdentifiers_sorted⟩⟩]
  profiles := []
  «variables» := []

theorem longParts_declared (n : Nat) : (longParts n).Declared where
  schemaFamily_ne := by simp [longParts, schemaFamily]
  classIds := by simp [longParts]
  overlayIds := by simp [longParts]
  profileIds := by simp [longParts]
  variableNames := by simp [longParts]
  classOrders := by simp [longParts]
  overlayClass := by simp [longParts]
  incompatible := by simp [longParts, SortedSet.mem_def]
  profileClass := by simp [longParts]
  selectionClass := by simp [longParts]
  cardinality := by simp [longParts]
  selectionNodup := by simp [longParts]

def longPack (n : Nat) : OverlayPack where
  toPackParts := longParts n
  wellFormed := {
    toDeclared := longParts_declared n
    classes_sorted := by simp [longParts]
    overlays_sorted := by simp [longParts]
    profiles_sorted := by simp [longParts]
    variables_sorted := by simp [longParts] }

def longJson (n : Nat) : Json := (PackDocument.ofPack (longPack n)).toJson

theorem longJson_eq (n : Nat) : longJson n = .object [
    ("schema", .string "invokrum.dev/v1"),
    ("id", .string "long"),
    ("classes", .array [.object [("id", .string "files"), ("order", .unsigned 0),
      ("minimum", .unsigned 0), ("maximum", .null)]]),
    ("overlays", .array [.object [("id", .string "file"), ("class", .string "files"),
      ("source", .string (String.ofList (longText n))), ("incompatible_with", .array [])]]),
    ("profiles", .array []),
    ("variables", .array [])] := rfl

theorem escape_longText (n : Nat) : Json.escape (longText n) = longText n := by
  have hescape : ∀ k, Json.escape (List.replicate k 'a') = List.replicate k 'a' := by
    intro k
    induction k with
    | zero => rfl
    | succ k ih =>
        rw [List.replicate_succ, Json.escape, List.flatMap_cons, ← Json.escape, ih]
        rfl
  exact hescape (n + 1)

theorem quoted_longText (n : Nat) :
    (Json.quoted (String.ofList (longText n))).length = n + 3 ∧
      (Json.quoted (String.ofList (longText n))).all (fun c => c.toNat < 128) = true := by
  rw [Json.quoted, String.toList_ofList, escape_longText]
  constructor
  · simp [longText]
  · simp [longText]

/-- The fixed strings of the tree, quoted, with their lengths. -/
theorem quoted_names : ∀ name ∈ [("schema", 8), ("invokrum.dev/v1", 17), ("id", 4), ("long", 6),
    ("classes", 9), ("files", 7), ("order", 7), ("minimum", 9), ("maximum", 9), ("overlays", 10),
    ("file", 6), ("class", 7), ("source", 8), ("incompatible_with", 19), ("profiles", 10),
    ("variables", 11)],
    (Json.quoted name.1).length = name.2 ∧
      (Json.quoted name.1).all (fun c => c.toNat < 128) = true := by
  decide

def compactLong (n : Nat) : String := String.ofList (longJson n).compact

def prettyLong (n : Nat) : String := String.ofList (pretty 0 (longJson n))

theorem byteLength_ascii {cs : List Char} (h : cs.all (fun c => c.toNat < 128) = true) :
    Text.byteLength (String.ofList cs) = cs.length := by
  rw [Text.byteLength, Text.bytes, String.toList_ofList, Text.utf8_ascii (by simpa using h),
    List.length_map]

theorem compactLong_byteLength (n : Nat) : Text.byteLength (compactLong n) = 212 + n := by
  have hnames := quoted_names
  simp only [List.forall_mem_cons] at hnames
  rw [compactLong, byteLength_ascii]
  · simp [longJson_eq, Json.compact, Json.compactMembers, Json.compactItems, quoted_longText,
      hnames]
    omega
  · simp [longJson_eq, Json.compact, Json.compactMembers, Json.compactItems, quoted_longText,
      hnames, -List.all_eq_true]

set_option maxRecDepth 1000 in
theorem prettyLong_byteLength (n : Nat) : Text.byteLength (prettyLong n) = 327 + n := by
  have hnames := quoted_names
  simp only [List.forall_mem_cons] at hnames
  rw [prettyLong, byteLength_ascii]
  · simp [longJson_eq, pretty, prettyItems, prettyMembers, newline, Json.compact, quoted_longText,
      hnames]
    omega
  · simp [longJson_eq, pretty, prettyItems, prettyMembers, newline, Json.compact, quoted_longText,
      hnames, -List.all_eq_true]

/-- The library on the texts of this tree. -/
def longReader (n : Nat) : JsonReader where
  present := fun _ => .ofJson (longJson n)
  trailing := fun _ => none
  report := fun _ _ marker => marker ++ " at line 1 column 1"
  envelope := fun _ => .ok schemaFamily
  document := fun _ => .ok (PackDocument.ofPack (longPack n))

theorem longReader_reads (n : Nat) (text : String) : (longReader n).Reads text (longJson n) where
  present := rfl
  trailing := rfl
  envelope := by
    intro schema h
    rw [longJson, readEnvelope_toJson, Option.some.injEq] at h
    exact congrArg Except.ok h
  document := by
    intro document h
    rw [longJson, PackDocument.ofJson_toJson, Option.some.injEq] at h
    exact congrArg Except.ok h

theorem longPack_prints (n : Nat) :
    Prints prettyText (longReader n) (longPack n) (prettyLong n) :=
  ⟨rfl, longReader_reads n _⟩

theorem longPack_covers {n : Nat} {text : String} (h : Text.byteLength text ≤ 1048576) :
    SchemaLimits.default.Covers (longPack n) text where
  documentBytes := h
  nestingDepth := by decide
  declarations := by
    intro kind
    cases kind <;> simp [PackDocument.count, PackDocument.ofPack, longPack, longParts,
      PackDocument.selectionCounts, PackDocument.incompatibilityCounts,
      OverlayDocument.ofOverlay, SchemaLimits.default, DeclarationLimits.default,
      DeclarationLimits.maximum]

/-- The compact document of a pack is accepted, its normalized text is too large. -/
theorem parseJson_normalized_tooLarge :
    parseJson (longReader 1048300) (compactLong 1048300) = .ok (longPack 1048300) ∧
      Prints prettyText (longReader 1048300) (longPack 1048300) (prettyLong 1048300) ∧
      toNormalizedJson prettyText (longPack 1048300) = .ok (prettyLong 1048300) ∧
      parseJson (longReader 1048300) (prettyLong 1048300) =
        .error (.documentTooLarge 1048576 1048627) := by
  have hcompact := compactLong_byteLength 1048300
  have hpretty := prettyLong_byteLength 1048300
  have hprints := longPack_prints 1048300
  refine ⟨?_, hprints, toNormalizedJson_eq_ok hprints, ?_⟩
  · exact parseJsonWithLimits_of_reads rfl (longReader_reads _ _) (longPack_covers (by omega))
  · have hlarge : SchemaLimits.default.documentBytes.toNat <
        Text.byteLength (prettyLong 1048300) := by
      rw [hpretty]
      decide
    rw [parseJson, parseJsonWithLimits, ensureDocumentSize, rejectIf_of _ hlarge, error_bind,
      hpretty]
    rfl

theorem normalized_roundTrip_sample :
    parseJsonWithLimits (longReader 0) (prettyLong 0) .default = .ok (longPack 0) :=
  (normalized_roundTrip (longPack_prints 0)).2.1 rfl .default (longPack_covers (by
    rw [prettyLong_byteLength]
    decide))

end Invokrum.Schema
