import Invokrum.Schema.Document
import Invokrum.Schema.Preflight

/-!
# Parsing packs under limits

The two parsers check the size, walk the document, negotiate the schema, count
the declarations and build the pack. Tightening a limit can only refuse a
document; whether the refusal names the limit depends on how the library words
the error the walk raises, because the walk's errors are told apart by text.
-/

namespace Invokrum.Schema

open Outcome Machine Invokrum.Core

/-! ## Readers -/

/-- What a JSON library makes of a text: its presentation to a visitor, what is
wrong behind the document, the text of an error a visitor raises at a position,
and the two records decoded from it. -/
structure JsonReader where
  present : String → Presented
  trailing : String → Option String
  report : String → Position → String → String
  envelope : String → Except String String
  document : String → Except String PackDocument

/-- What a YAML library makes of a text, which may hold several documents. -/
structure YamlReader where
  documents : String → List Presented
  report : String → Position → String → String
  envelope : String → Except String String
  document : String → Except String PackDocument

/-! ## The preflight of a text -/

/-- `message.contains(marker)`. -/
def mentions (message marker : String) : Bool := containsText message.toList marker.toList

def classifyDecode (format message : String) (maximumDepth : UInt64) : PreflightError :=
  if mentions message duplicateMappingKeyMarker then .duplicateMappingKey format
  else if format = "yaml" ∧ mentions message mergeMappingKeyMarker then
    .unsupportedYamlFeature .mergeKey
  else if mentions message nestingDepthMarker then .nestingTooDeep maximumDepth.toNat
  else .decode format (boundedText message maxErrorMessageChars)

def WalkError.text (report : Position → String → String) : WalkError → String
  | .custom position marker => report position marker
  | .unreadable message => message

def preflightJson (reader : JsonReader) (input : String) (maximumDepth : UInt64) :
    Except PreflightError Unit :=
  Except.mapError (fun e => classifyDecode "json" (e.text (reader.report input)) maximumDepth) do
    StrictSeed.deserialize false (.root maximumDepth) [] (reader.present input)
    match reader.trailing input with
    | some message => .error (.unreadable message)
    | none => .ok ()

def preflightYaml (reader : YamlReader) (input : String) (maximumDepth : UInt64) :
    Except PreflightError Unit := do
  validateYamlSubset input
  let first ← okOr (reader.documents input).head? (.decode "yaml" "empty YAML document")
  (StrictSeed.deserialize true (.root maximumDepth) [] first).mapError
    fun e => classifyDecode "yaml" (e.text (reader.report input)) maximumDepth
  rejectIf (1 < (reader.documents input).length) .multipleYamlDocuments

/-! ## The parsers -/

def SchemaError.ofPreflight : PreflightError → SchemaError
  | .decode format message => .decode format message
  | .duplicateMappingKey format => .duplicateMappingKey format
  | .unsupportedYamlFeature feature => .unsupportedYamlFeature feature
  | .multipleYamlDocuments => .multipleYamlDocuments
  | .nestingTooDeep maximumDepth => .nestingTooDeep maximumDepth

/-- `SchemaError::decode`. -/
def SchemaError.decoding (format message : String) : SchemaError :=
  .decode format (boundedText message maxErrorMessageChars)

def ensureDocumentSize (input : String) (limits : SchemaLimits) : Except SchemaError Unit :=
  rejectIf (limits.documentBytes.toNat < Text.byteLength input)
    (.documentTooLarge limits.documentBytes.toNat (Text.byteLength input))

/-- What both parsers do after the preflight. -/
def decodePack (format : String) (envelope : Except String String)
    (document : Except String PackDocument) (limits : SchemaLimits) :
    Except SchemaError OverlayPack := do
  let schema ← envelope.mapError (SchemaError.decoding format)
  ensureSupportedSchema schema
  let document ← document.mapError (SchemaError.decoding format)
  document.ensureDeclarationLimits limits.declarations
  document.toPack

def parseJsonWithLimits (reader : JsonReader) (input : String) (limits : SchemaLimits) :
    Except SchemaError OverlayPack := do
  ensureDocumentSize input limits
  (preflightJson reader input limits.nestingDepth).mapError .ofPreflight
  decodePack "json" (reader.envelope input) (reader.document input) limits

def parseYamlWithLimits (reader : YamlReader) (input : String) (limits : SchemaLimits) :
    Except SchemaError OverlayPack := do
  ensureDocumentSize input limits
  (preflightYaml reader input limits.nestingDepth).mapError .ofPreflight
  decodePack "yaml" (reader.envelope input) (reader.document input) limits

def parseJson (reader : JsonReader) (input : String) : Except SchemaError OverlayPack :=
  parseJsonWithLimits reader input .default

def parseYaml (reader : YamlReader) (input : String) : Except SchemaError OverlayPack :=
  parseYamlWithLimits reader input .default

/-! ## Tighter limits -/

/-- Every limit of `smaller` is within that of `larger`. -/
structure SchemaLimits.Within (smaller larger : SchemaLimits) : Prop where
  documentBytes : smaller.documentBytes.toNat ≤ larger.documentBytes.toNat
  nestingDepth : smaller.nestingDepth.toNat ≤ larger.nestingDepth.toNat
  declarations : ∀ kind,
    (smaller.declarations.maximum kind).toNat ≤ (larger.declarations.maximum kind).toNat

/-- An error names a limit, and the document is beyond that limit. -/
def Exceeds (input : String) (root : Presented) (document : Except String PackDocument)
    (limits : SchemaLimits) : SchemaError → Prop
  | .documentTooLarge maximum actual =>
      maximum = limits.documentBytes.toNat ∧ actual = Text.byteLength input ∧ maximum < actual
  | .nestingTooDeep maximum => maximum = limits.nestingDepth.toNat ∧ maximum < root.nesting
  | .tooManyDeclarations kind maximum _ =>
      maximum = (limits.declarations.maximum kind).toNat ∧
        ∃ decoded, document = .ok decoded ∧ maximum < decoded.count kind
  | _ => False

/-- The text reported for the first container that is too deep shows no marker
of another error. A document refused for its size is not walked. -/
def Undisguised (reader : YamlReader) (input : String) (root : Presented)
    (limits : SchemaLimits) : Prop :=
  Text.byteLength input ≤ limits.documentBytes.toNat →
    ∀ position, firstTooDeep limits.nestingDepth.toNat [] root = some position →
      mentions (reader.report input position nestingDepthMarker) duplicateMappingKeyMarker = false ∧
        mentions (reader.report input position nestingDepthMarker) mergeMappingKeyMarker = false

section Tighter

variable {smaller larger : SchemaLimits} {input format : String} {pack : OverlayPack}

theorem ensureDocumentSize_eq_ok {limits : SchemaLimits} :
    ensureDocumentSize input limits = .ok () ↔
      Text.byteLength input ≤ limits.documentBytes.toNat := by
  rw [ensureDocumentSize, rejectIf_eq_ok, not_lt]

theorem decodePack_eq_ok {envelope : Except String String}
    {document : Except String PackDocument} {limits : SchemaLimits} :
    decodePack format envelope document limits = .ok pack ↔
      envelope = .ok schemaFamily ∧ ∃ decoded, document = .ok decoded ∧
        (∀ kind, decoded.count kind ≤ (limits.declarations.maximum kind).toNat) ∧
        decoded.toPack = .ok pack := by
  simp only [decodePack, bind_eq_ok, mapError_eq_ok, ensureSupportedSchema, rejectIf_eq_ok,
    exists_const, ne_eq, not_not]
  constructor
  · intro h
    obtain ⟨schema, henvelope, rfl, decoded, hdecoded, _, hcounts, hpack⟩ := h
    exact ⟨henvelope, decoded, hdecoded, PackDocument.ensureDeclarationLimits_eq_ok.mp hcounts,
      hpack⟩
  · intro h
    obtain ⟨henvelope, decoded, hdecoded, hcounts, hpack⟩ := h
    exact ⟨schemaFamily, henvelope, rfl, decoded, hdecoded, (),
      PackDocument.ensureDeclarationLimits_eq_ok.mpr hcounts, hpack⟩

/-- After the preflight a tighter limit changes nothing or names a count. -/
theorem decodePack_smaller {envelope : Except String String}
    {document : Except String PackDocument}
    (hpass : decodePack format envelope document larger = .ok pack) :
    decodePack format envelope document smaller = .ok pack ∨
      ∃ kind actual, decodePack format envelope document smaller =
          .error (.tooManyDeclarations kind (smaller.declarations.maximum kind).toNat actual) ∧
        ∃ decoded, document = .ok decoded ∧
          (smaller.declarations.maximum kind).toNat < decoded.count kind := by
  obtain ⟨henvelope, decoded, hdecoded, _, hpack⟩ := decodePack_eq_ok.mp hpass
  cases hcounts : decoded.ensureDeclarationLimits smaller.declarations with
  | ok _ =>
      exact .inl (decodePack_eq_ok.mpr ⟨henvelope, decoded, hdecoded,
        PackDocument.ensureDeclarationLimits_eq_ok.mp hcounts, hpack⟩)
  | error e =>
      obtain ⟨kind, actual, rfl, hlt⟩ := PackDocument.ensureDeclarationLimits_eq_error hcounts
      have hschema : ensureSupportedSchema schemaFamily = .ok () :=
        rejectIf_of_not _ (not_not.mpr rfl)
      refine .inr ⟨kind, actual, ?_, decoded, hdecoded, hlt⟩
      rw [decodePack, henvelope, Except.mapError, ok_bind, hschema, ok_bind, hdecoded,
        Except.mapError, ok_bind, hcounts, error_bind]

/-! ## The preflight under two maxima -/

/-- What the preflight makes of the first container that is too deep. -/
def depthRefusal (format : String) (report : Position → String → String) (maximumDepth : UInt64)
    (root : Presented) : Except PreflightError Unit :=
  match firstTooDeep maximumDepth.toNat [] root with
  | none => .ok ()
  | some position =>
      .error (classifyDecode format (report position nestingDepthMarker) maximumDepth)

theorem mapError_depthOutcome (report : Position → String → String) (maximumDepth : UInt64)
    (root : Presented) :
    (depthOutcome (firstTooDeep maximumDepth.toNat [] root)).mapError
        (fun e => classifyDecode format (e.text report) maximumDepth) =
      depthRefusal format report maximumDepth root := by
  unfold depthRefusal
  cases firstTooDeep maximumDepth.toNat [] root <;> rfl

theorem preflightJson_eq_ok {reader : JsonReader} {maximumDepth : UInt64} :
    preflightJson reader input maximumDepth = .ok () ↔
      StrictSeed.deserialize false (.root maximumDepth) [] (reader.present input) = .ok () ∧
        reader.trailing input = none := by
  rw [preflightJson, mapError_eq_ok, bind_eq_ok]
  cases reader.trailing input with
  | none => exact ⟨fun ⟨_, hwalk, _⟩ => ⟨hwalk, rfl⟩, fun h => ⟨(), h.1, rfl⟩⟩
  | some message => simp

theorem preflightJson_smaller {reader : JsonReader} {less more : UInt64}
    (h : less.toNat ≤ more.toNat) (hpass : preflightJson reader input more = .ok ()) :
    preflightJson reader input less =
      depthRefusal "json" (reader.report input) less (reader.present input) := by
  obtain ⟨hwalk, htrailing⟩ := preflightJson_eq_ok.mp hpass
  have hless := deserialize_smaller h (reader.present input) 0 [] (Nat.zero_le _) hwalk
  rw [Nat.sub_zero] at hless
  rw [preflightJson, StrictSeed.root, hless, htrailing, ← mapError_depthOutcome]
  cases firstTooDeep less.toNat [] (reader.present input) <;> rfl

theorem preflightYaml_eq_ok {reader : YamlReader} {maximumDepth : UInt64} :
    preflightYaml reader input maximumDepth = .ok () ↔
      validateYamlSubset input = .ok () ∧ ∃ root, reader.documents input = [root] ∧
        StrictSeed.deserialize true (.root maximumDepth) [] root = .ok () := by
  simp only [preflightYaml, bind_eq_ok, okOr_eq_ok, mapError_eq_ok, rejectIf_eq_ok, not_lt]
  constructor
  · intro h
    obtain ⟨_, hsubset, root, hroot, _, hwalk, hlength⟩ := h
    refine ⟨hsubset, root, ?_, hwalk⟩
    cases hdocuments : reader.documents input with
    | nil => rw [hdocuments] at hroot; cases hroot
    | cons first rest =>
        rw [hdocuments, List.head?_cons, Option.some.injEq] at hroot
        rw [hdocuments, List.length_cons] at hlength
        have hrest : rest = [] := List.length_eq_zero_iff.mp (by omega)
        rw [hroot, hrest]
  · intro h
    obtain ⟨hsubset, root, hdocuments, hwalk⟩ := h
    exact ⟨(), hsubset, root, by rw [hdocuments]; rfl, (), hwalk, by rw [hdocuments]; rfl⟩

theorem preflightYaml_smaller {reader : YamlReader} {less more : UInt64} {root : Presented}
    (h : less.toNat ≤ more.toNat) (hpass : preflightYaml reader input more = .ok ())
    (hroot : (reader.documents input).head? = some root) :
    preflightYaml reader input less =
      depthRefusal "yaml" (reader.report input) less root := by
  obtain ⟨hsubset, root', hdocuments, hwalk⟩ := preflightYaml_eq_ok.mp hpass
  have heq : root' = root := by
    rw [hdocuments] at hroot
    exact Option.some.inj hroot
  subst heq
  have hless := deserialize_smaller h root' 0 [] (Nat.zero_le _) hwalk
  rw [Nat.sub_zero] at hless
  rw [preflightYaml, hsubset, ok_bind, hdocuments, List.head?_cons, okOr, ok_bind,
    StrictSeed.root, hless, mapError_depthOutcome]
  cases depthRefusal "yaml" (reader.report input) less root' <;> rfl

/-! ## Which error a deep container gets -/

theorem classifyDecode_nesting {message : String} {maximumDepth : UInt64}
    (hnesting : mentions message nestingDepthMarker = true)
    (hduplicate : mentions message duplicateMappingKeyMarker = false)
    (hmerge : format = "yaml" → mentions message mergeMappingKeyMarker = false) :
    classifyDecode format message maximumDepth = .nestingTooDeep maximumDepth.toNat := by
  rw [classifyDecode, if_neg (by simp [hduplicate]), if_neg (by
    intro h
    rw [hmerge h.1] at h
    exact Bool.false_ne_true h.2), if_pos hnesting]

/-- A marker of another error in the text is found first. -/
theorem classifyDecode_other {message : String} {maximumDepth : UInt64}
    (h : ¬ (mentions message duplicateMappingKeyMarker = false ∧
      mentions message mergeMappingKeyMarker = false)) :
    classifyDecode "yaml" message maximumDepth = .duplicateMappingKey "yaml" ∨
      classifyDecode "yaml" message maximumDepth = .unsupportedYamlFeature .mergeKey := by
  unfold classifyDecode
  by_cases hduplicate : mentions message duplicateMappingKeyMarker = true
  · rw [if_pos hduplicate]
    exact .inl rfl
  · have hmerge : mentions message mergeMappingKeyMarker = true := by
      rw [Bool.not_eq_true] at hduplicate
      exact (Bool.not_eq_false _).mp fun hmerge => h ⟨hduplicate, hmerge⟩
    rw [if_neg hduplicate, if_pos ⟨rfl, hmerge⟩]
    exact .inr rfl

/-- Text that only adds a line and a column to the marker shows no other marker. -/
theorem mentions_located (line column : Nat) :
    mentions (nestingDepthMarker ++ " at line " ++ toString line ++ " column " ++ toString column)
        nestingDepthMarker = true ∧
      mentions (nestingDepthMarker ++ " at line " ++ toString line ++ " column " ++ toString column)
        duplicateMappingKeyMarker = false := by
  have hdigits : ∀ n : Nat, 'y' ∉ (toString n).toList := by
    intro n hmem
    have hdigit := Nat.isDigit_of_mem_toDigits (by decide) (by decide)
      (show 'y' ∈ Nat.toDigits 10 n by simpa [toString, Nat.repr] using hmem)
    exact absurd hdigit (by decide)
  constructor
  · rw [mentions, containsText, decide_eq_true_iff]
    simp only [String.toList_append, List.append_assoc]
    exact List.infix_append' [] _ _
  · rw [mentions, containsText, decide_eq_false_iff_not]
    intro hinfix
    have hmem : 'y' ∈ (nestingDepthMarker ++ " at line " ++ toString line ++ " column " ++
        toString column).toList := hinfix.subset (by simp [duplicateMappingKeyMarker])
    simp only [String.toList_append, List.mem_append] at hmem
    rcases hmem with (((hmem | hmem) | hmem) | hmem) | hmem
    · exact absurd hmem (by simp [nestingDepthMarker])
    · exact absurd hmem (by simp)
    · exact hdigits line hmem
    · exact absurd hmem (by simp)
    · exact hdigits column hmem

/-! ## Limits only filter -/

theorem parseJsonWithLimits_eq_ok {reader : JsonReader} {limits : SchemaLimits} :
    parseJsonWithLimits reader input limits = .ok pack ↔
      Text.byteLength input ≤ limits.documentBytes.toNat ∧
        preflightJson reader input limits.nestingDepth = .ok () ∧
        decodePack "json" (reader.envelope input) (reader.document input) limits = .ok pack := by
  simp only [parseJsonWithLimits, bind_eq_ok, mapError_eq_ok]
  constructor
  · intro h
    obtain ⟨_, hsize, _, hpreflight, hdecode⟩ := h
    exact ⟨ensureDocumentSize_eq_ok.mp hsize, hpreflight, hdecode⟩
  · intro h
    exact ⟨(), ensureDocumentSize_eq_ok.mpr h.1, (), h.2.1, h.2.2⟩

theorem parseYamlWithLimits_eq_ok {reader : YamlReader} {limits : SchemaLimits} :
    parseYamlWithLimits reader input limits = .ok pack ↔
      Text.byteLength input ≤ limits.documentBytes.toNat ∧
        preflightYaml reader input limits.nestingDepth = .ok () ∧
        decodePack "yaml" (reader.envelope input) (reader.document input) limits = .ok pack := by
  simp only [parseYamlWithLimits, bind_eq_ok, mapError_eq_ok]
  constructor
  · intro h
    obtain ⟨_, hsize, _, hpreflight, hdecode⟩ := h
    exact ⟨ensureDocumentSize_eq_ok.mp hsize, hpreflight, hdecode⟩
  · intro h
    exact ⟨(), ensureDocumentSize_eq_ok.mpr h.1, (), h.2.1, h.2.2⟩

theorem decodePack_larger (h : smaller.Within larger) {envelope : Except String String}
    {document : Except String PackDocument}
    (hpass : decodePack format envelope document smaller = .ok pack) :
    decodePack format envelope document larger = .ok pack := by
  obtain ⟨henvelope, decoded, hdecoded, hcounts, hpack⟩ := decodePack_eq_ok.mp hpass
  exact decodePack_eq_ok.mpr ⟨henvelope, decoded, hdecoded,
    fun kind => le_trans (hcounts kind) (h.declarations kind), hpack⟩

/-- A refusal is either for the size, or the preflight's, or a count's. -/
theorem refusal_cases {preflight : Except PreflightError Unit} {root : Presented}
    {envelope : Except String String} {document : Except String PackDocument}
    (hdecode : decodePack format envelope document larger = .ok pack)
    {limits : SchemaLimits} {e : SchemaError}
    (h : (do
      ensureDocumentSize input limits
      preflight.mapError SchemaError.ofPreflight
      decodePack format envelope document limits) = .error e) :
    Exceeds input root document limits e ∨
      Text.byteLength input ≤ limits.documentBytes.toNat ∧
        ∃ refusal, preflight = .error refusal ∧ e = .ofPreflight refusal := by
  rcases bind_eq_error.mp h with hsize | ⟨_, hsize, h⟩
  · rw [ensureDocumentSize, rejectIf_eq_error] at hsize
    obtain ⟨hlt, rfl⟩ := hsize
    exact .inl ⟨rfl, rfl, hlt⟩
  · rcases bind_eq_error.mp h with hpreflight | ⟨_, _, h⟩
    · obtain ⟨refusal, hrefusal, rfl⟩ := mapError_eq_error.mp hpreflight
      exact .inr ⟨ensureDocumentSize_eq_ok.mp hsize, refusal, hrefusal, rfl⟩
    · rcases @decodePack_smaller limits _ _ _ _ _ hdecode with hok | hcount
      · rw [h] at hok
        cases hok
      · obtain ⟨kind, actual, herror, decoded, hdecoded, hlt⟩ := hcount
        rw [h, Except.error.injEq] at herror
        subst herror
        exact .inl ⟨rfl, decoded, hdecoded, hlt⟩

theorem depthRefusal_eq_error {report : Position → String → String} {maximumDepth : UInt64}
    {root : Presented} {refusal : PreflightError}
    (h : depthRefusal format report maximumDepth root = .error refusal) :
    ∃ position, firstTooDeep maximumDepth.toNat [] root = some position ∧
      refusal = classifyDecode format (report position nestingDepthMarker) maximumDepth := by
  unfold depthRefusal at h
  cases hfirst : firstTooDeep maximumDepth.toNat [] root with
  | none => rw [hfirst] at h; cases h
  | some position =>
      rw [hfirst] at h
      exact ⟨position, rfl, (Except.error.inj h).symm⟩

/-- A document accepted under some limits is accepted with the same result under
larger ones. Under smaller ones a JSON document is refused for a limit it
exceeds, if it is refused at all; a YAML document is, exactly when the text of
the depth error shows no other marker. -/
theorem schemaLimits_filter_iff (json : JsonReader) (yaml : YamlReader)
    (hjson : ∀ input position marker, ∃ line column : Nat, json.report input position marker =
      marker ++ " at line " ++ toString line ++ " column " ++ toString column)
    (hyaml : ∀ input position marker, mentions (yaml.report input position marker) marker = true)
    (h : smaller.Within larger) (input : String) :
    (∀ pack, parseJsonWithLimits json input smaller = .ok pack →
      parseJsonWithLimits json input larger = .ok pack) ∧
    (∀ pack, parseYamlWithLimits yaml input smaller = .ok pack →
      parseYamlWithLimits yaml input larger = .ok pack) ∧
    (∀ pack, parseJsonWithLimits json input larger = .ok pack →
      ∀ e, parseJsonWithLimits json input smaller = .error e →
        Exceeds input (json.present input) (json.document input) smaller e) ∧
    ∀ pack root, (yaml.documents input).head? = some root →
      parseYamlWithLimits yaml input larger = .ok pack →
      ((∀ e, parseYamlWithLimits yaml input smaller = .error e →
        Exceeds input root (yaml.document input) smaller e) ↔
          Undisguised yaml input root smaller) := by
  refine ⟨?_, ?_, ?_, ?_⟩
  · intro pack hpass
    obtain ⟨hsize, hpreflight, hdecode⟩ := parseJsonWithLimits_eq_ok.mp hpass
    obtain ⟨hwalk, htrailing⟩ := preflightJson_eq_ok.mp hpreflight
    exact parseJsonWithLimits_eq_ok.mpr ⟨le_trans hsize h.documentBytes,
      preflightJson_eq_ok.mpr ⟨deserialize_larger h.nestingDepth _ _ _ hwalk, htrailing⟩,
      decodePack_larger h hdecode⟩
  · intro pack hpass
    obtain ⟨hsize, hpreflight, hdecode⟩ := parseYamlWithLimits_eq_ok.mp hpass
    obtain ⟨hsubset, root, hdocuments, hwalk⟩ := preflightYaml_eq_ok.mp hpreflight
    exact parseYamlWithLimits_eq_ok.mpr ⟨le_trans hsize h.documentBytes,
      preflightYaml_eq_ok.mpr ⟨hsubset, root, hdocuments,
        deserialize_larger h.nestingDepth _ _ _ hwalk⟩, decodePack_larger h hdecode⟩
  · intro pack hpass e herror
    obtain ⟨_, hpreflight, hdecode⟩ := parseJsonWithLimits_eq_ok.mp hpass
    rcases refusal_cases hdecode herror with hexceeds | ⟨_, refusal, hrefusal, rfl⟩
    · exact hexceeds
    · rw [preflightJson_smaller h.nestingDepth hpreflight] at hrefusal
      obtain ⟨position, hfirst, rfl⟩ := depthRefusal_eq_error hrefusal
      obtain ⟨line, column, htext⟩ := hjson input position nestingDepthMarker
      have hmarkers := mentions_located line column
      rw [htext, classifyDecode_nesting hmarkers.1 hmarkers.2 (by simp)]
      exact ⟨rfl, lt_nesting_of_firstTooDeep _ hfirst⟩
  · intro pack root hroot hpass
    obtain ⟨_, hpreflight, hdecode⟩ := parseYamlWithLimits_eq_ok.mp hpass
    have hless := preflightYaml_smaller h.nestingDepth hpreflight hroot
    constructor
    · intro hexceeds hsize position hfirst
      -- The text decides the error, so another marker in it gives another error.
      by_contra hmarkers
      have herror : parseYamlWithLimits yaml input smaller =
          .error (.ofPreflight (classifyDecode "yaml"
            (yaml.report input position nestingDepthMarker) smaller.nestingDepth)) := by
        rw [parseYamlWithLimits, ensureDocumentSize_eq_ok.mpr hsize, ok_bind, hless,
          depthRefusal, hfirst]
        rfl
      have hwrong := hexceeds _ herror
      have hother := @classifyDecode_other _ smaller.nestingDepth hmarkers
      rcases hother with hclass | hclass
      · rw [hclass] at hwrong
        exact hwrong
      · rw [hclass] at hwrong
        exact hwrong
    · intro hundisguised e herror
      rcases refusal_cases hdecode herror with hexceeds | ⟨hsize, refusal, hrefusal, rfl⟩
      · exact hexceeds
      · rw [hless] at hrefusal
        obtain ⟨position, hfirst, rfl⟩ := depthRefusal_eq_error hrefusal
        have hmarkers := hundisguised hsize position hfirst
        rw [classifyDecode_nesting (hyaml input position nestingDepthMarker) hmarkers.1
          fun _ => hmarkers.2]
        exact ⟨rfl, lt_nesting_of_firstTooDeep _ hfirst⟩

end Tighter

/-! ## A class named like a marker -/

def markerClass : Identifier := ⟨duplicateMappingKeyMarker, by decide +kernel⟩

/-- A profile selects nothing from a class named like a marker. -/
def disguisedText : String :=
  "schema: invokrum.dev/v1\nid: p\nclasses:\n  - id: __invokrum_duplicate_mapping_key__\n" ++
    "    order: 1\n    minimum: 0\nprofiles:\n  - id: q\n    selections:\n" ++
    "      __invokrum_duplicate_mapping_key__: []\n"

def disguisedRoot : Presented :=
  .mapping [(.ok "schema", .scalar), (.ok "id", .scalar),
    (.ok "classes", .sequence [.mapping [(.ok "id", .scalar), (.ok "order", .scalar),
      (.ok "minimum", .scalar)]]),
    (.ok "profiles", .sequence [.mapping [(.ok "id", .scalar),
      (.ok "selections", .mapping [(.ok duplicateMappingKeyMarker, .sequence [])])]])]

def disguisedDocument : PackDocument where
  schema := schemaFamily
  id := "p"
  classes := [⟨duplicateMappingKeyMarker, 1, 0, none⟩]
  overlays := []
  profiles := [⟨"q", [(duplicateMappingKeyMarker, [])], by simp⟩]
  «variables» := []

/-- The YAML library's spelling of a position. -/
def positionText (position : Position) : String :=
  position.foldl (fun text step => match step with
    | .index index => text ++ "[" ++ toString index ++ "]"
    | .key name => if text = "" then name else text ++ "." ++ name) ""

/-- The library on the text above: an error's text begins with its position. -/
def disguisedReader : YamlReader where
  documents := fun _ => [disguisedRoot]
  report := fun _ position marker => positionText position ++ ": " ++ marker ++
    " at line 10 column 43"
  envelope := fun _ => .ok schemaFamily
  document := fun _ => .ok disguisedDocument

def shallowLimits : SchemaLimits := ⟨1048576, 4, .default⟩

theorem shallowLimits_within : shallowLimits.Within .default where
  documentBytes := le_refl _
  nestingDepth := by decide
  declarations := fun _ => le_refl _

theorem zero_le_of_none (m : UInt32) (h : none = some m) : 0 ≤ m := by
  cases h

/-- The parts the document declares. -/
def disguisedParts : PackParts where
  id := ⟨"p", by decide +kernel⟩
  schemaFamily := schemaFamily
  classes := [⟨markerClass, 1, ⟨0, none, zero_le_of_none⟩⟩]
  overlays := []
  profiles := [⟨⟨"q", by decide +kernel⟩, ⟨[(markerClass, [])], by simp⟩⟩]
  «variables» := []

theorem disguisedParts_declared : disguisedParts.Declared where
  schemaFamily_ne := by decide
  classIds := by simp [disguisedParts]
  overlayIds := by simp [disguisedParts]
  profileIds := by simp [disguisedParts]
  variableNames := by simp [disguisedParts]
  classOrders := by simp [disguisedParts]
  overlayClass := by simp [disguisedParts]
  incompatible := by simp [disguisedParts]
  profileClass := by simp [disguisedParts, Ordered.SortedMap.keys]
  selectionClass := by simp [disguisedParts]
  cardinality := by decide
  selectionNodup := by simp [disguisedParts]

theorem disguisedDocument_toPack : ∃ pack, disguisedDocument.toPack = .ok pack := by
  obtain ⟨pack, hnew⟩ := OverlayPack.exists_new_iff.mpr disguisedParts_declared
  have hclasses : collect parseClass disguisedDocument.classes = .ok disguisedParts.classes :=
    collect_eq_ok.mpr (.cons (parseClass_eq_ok.mpr ⟨rfl, rfl, rfl, rfl⟩) .nil)
  have hselections : collect parseSelection [(duplicateMappingKeyMarker, [])] =
      .ok [(markerClass, [])] :=
    collect_eq_ok.mpr (.cons (parseSelection_eq_ok.mpr ⟨rfl, rfl⟩) .nil)
  have hprofiles : collect parseProfile disguisedDocument.profiles =
      .ok disguisedParts.profiles :=
    collect_eq_ok.mpr (.cons (parseProfile_eq_ok.mpr ⟨rfl, _, hselections,
      (Ordered.SortedMap.ofEntries_entries _).symm⟩) .nil)
  exact ⟨pack, PackDocument.toPack_eq_ok.mpr ⟨rfl, disguisedParts, hclasses, rfl, hprofiles, rfl,
    rfl, rfl, hnew⟩⟩

theorem disguisedText_accepted :
    ∃ pack, parseYamlWithLimits disguisedReader disguisedText .default = .ok pack := by
  obtain ⟨pack, hpack⟩ := disguisedDocument_toPack
  have hwalk : preflightYaml disguisedReader disguisedText 32 = .ok () := by decide +kernel
  have hcounts : ∀ kind,
      disguisedDocument.count kind ≤ (DeclarationLimits.default.maximum kind).toNat := by
    intro kind
    cases kind <;> decide
  exact ⟨pack, parseYamlWithLimits_eq_ok.mpr ⟨by decide +kernel, hwalk,
    decodePack_eq_ok.mpr ⟨rfl, disguisedDocument, rfl, hcounts, hpack⟩⟩⟩

/-- The container below the key is too deep, and the key stands in the text of the error. -/
theorem parseYamlWithLimits_disguised :
    shallowLimits.Within .default ∧
      (∃ pack, parseYamlWithLimits disguisedReader disguisedText .default = .ok pack) ∧
      parseYamlWithLimits disguisedReader disguisedText shallowLimits =
        .error (.duplicateMappingKey "yaml") := by
  have hsize : Text.byteLength disguisedText ≤ 1048576 := by decide +kernel
  have hdeep : preflightYaml disguisedReader disguisedText 4 =
      .error (.duplicateMappingKey "yaml") := by
    decide +kernel
  refine ⟨shallowLimits_within, disguisedText_accepted, ?_⟩
  rw [parseYamlWithLimits, ensureDocumentSize_eq_ok.mpr hsize, ok_bind]
  show (do
    (preflightYaml disguisedReader disguisedText 4).mapError SchemaError.ofPreflight
    decodePack _ _ _ _) = _
  rw [hdeep]
  rfl

/-- The JSON library on the same text, which is not JSON. -/
def refusingReader : JsonReader where
  present := fun _ => .unreadable "expected value at line 1 column 1"
  trailing := fun _ => none
  report := fun _ _ marker => marker ++ " at line " ++ toString 1 ++ " column " ++ toString 1
  envelope := fun _ => .error "expected value at line 1 column 1"
  document := fun _ => .error "expected value at line 1 column 1"

theorem disguisedReader_mentions (input : String) (position : Position) (marker : String) :
    mentions (disguisedReader.report input position marker) marker = true := by
  rw [mentions, containsText, decide_eq_true_iff]
  simp only [disguisedReader, String.toList_append]
  exact List.infix_append _ _ _

theorem schemaLimits_filter_iff_disguised :
    (∀ e, parseYamlWithLimits disguisedReader disguisedText shallowLimits = .error e →
      Exceeds disguisedText disguisedRoot (disguisedReader.document disguisedText)
        shallowLimits e) ↔
      Undisguised disguisedReader disguisedText disguisedRoot shallowLimits := by
  obtain ⟨pack, hpass⟩ := disguisedText_accepted
  exact (schemaLimits_filter_iff refusingReader disguisedReader
    (fun _ _ _ => ⟨1, 1, rfl⟩) disguisedReader_mentions shallowLimits_within disguisedText).2.2.2
    pack disguisedRoot rfl hpass

end Invokrum.Schema
