import Invokrum.Base.Delimited
import Invokrum.Base.LossyText
import Invokrum.Core.Composition
import Invokrum.Distribution.ManifestSize
import Invokrum.Install.Record
import Invokrum.Install.Store

/-!
# Human output

Untrusted text reaches standard output through two formatters. `inspect_human`
escapes the source paths; `render_human` displays the two paths of an
installation as they are, so a store path with a line feed adds a line.
-/

namespace Invokrum.Cli

open Invokrum.Core Invokrum.Distribution Invokrum.Acquisition Invokrum.Install Invokrum.Coding
open Text (Bytes)
open Invokrum.FileSystem (Path)

/-! ## Escaping -/

def escapeChar (c : Char) : List Char :=
  if c = '\\' then ['\\', '\\']
  else if c = '\n' then ['\\', 'n']
  else if c = '\r' then ['\\', 'r']
  else if c = '\t' then ['\\', 't']
  else if isControl c then ['\\', 'u', '{'] ++ (Nat.toDigits 16 c.toNat ++ ['}'])
  else [c]

def escapeHuman (value : List Char) : List Char := value.flatMap escapeChar

example : escapeHuman "line\nnext\t\x1b\\".toList = "line\\nnext\\t\\u\x7b1b\x7d\\\\".toList := by
  decide

def hexValue (digits : List Char) : Nat :=
  digits.foldl (fun value d => value * 16 + if d.isDigit then d.toNat - 48 else d.toNat - 87) 0

/-- Reads one character back. -/
def unescape : List Char → Option (Char × List Char)
  | '\\' :: '\\' :: rest => some ('\\', rest)
  | '\\' :: 'n' :: rest => some ('\n', rest)
  | '\\' :: 'r' :: rest => some ('\r', rest)
  | '\\' :: 't' :: rest => some ('\t', rest)
  | '\\' :: 'u' :: '{' :: rest =>
      some (Char.ofNat (hexValue (rest.takeWhile (· ≠ '}'))), (rest.dropWhile (· ≠ '}')).tail)
  | c :: rest => some (c, rest)
  | [] => none

theorem hexValue_append (digits : List Char) (d : Char) : hexValue (digits ++ [d]) =
    hexValue digits * 16 + if d.isDigit then d.toNat - 48 else d.toNat - 87 := by
  simp [hexValue]

/-- Every hexadecimal digit is read back and is no control character. -/
theorem hex_digit {d : Nat} (h : d < 16) :
    (if d.digitChar.isDigit then d.digitChar.toNat - 48 else d.digitChar.toNat - 87) = d ∧
      d.digitChar ≠ '}' ∧ isControl d.digitChar = false := by
  revert d
  decide

theorem hexValue_toDigits (n : Nat) : hexValue (Nat.toDigits 16 n) = n := by
  induction n using Nat.strongRecOn with
  | ind n ih =>
      by_cases hn : n < 16
      · rw [Nat.toDigits_of_lt_base hn, ← List.nil_append [n.digitChar], hexValue_append,
          (hex_digit hn).1]
        exact Nat.zero_add n
      · rw [Nat.toDigits_of_base_le (by decide) (Nat.le_of_not_lt hn), hexValue_append,
          ih (n / 16) (by omega), (hex_digit (Nat.mod_lt n (by decide))).1]
        omega

theorem mem_hex {n : Nat} {c : Char} (h : c ∈ Nat.toDigits 16 n) :
    c ≠ '}' ∧ isControl c = false := by
  induction n using Nat.strongRecOn with
  | ind n ih =>
      by_cases hn : n < 16
      · rw [Nat.toDigits_of_lt_base hn, List.mem_singleton] at h
        rw [h]
        exact (hex_digit hn).2
      · rw [Nat.toDigits_of_base_le (by decide) (Nat.le_of_not_lt hn), List.mem_append,
          List.mem_singleton] at h
        rcases h with h | rfl
        · exact ih (n / 16) (by omega) h
        · exact (hex_digit (Nat.mod_lt n (by decide))).2

theorem unescape_escapeChar (c : Char) (rest : List Char) :
    unescape (escapeChar c ++ rest) = some (c, rest) := by
  unfold escapeChar
  split_ifs with hbackslash hfeed hreturn htab hcontrol
  · rw [hbackslash]; rfl
  · rw [hfeed]; rfl
  · rw [hreturn]; rfl
  · rw [htab]; rfl
  · have hdigits : ∀ d ∈ Nat.toDigits 16 c.toNat, decide (d ≠ '}') = true := by
      intro d hd
      exact decide_eq_true (mem_hex hd).1
    show unescape ('\\' :: 'u' :: '{' :: (Nat.toDigits 16 c.toNat ++ ['}'] ++ rest)) = _
    rw [unescape, List.append_assoc, List.takeWhile_append_of_pos hdigits,
      List.dropWhile_append_of_pos hdigits, List.singleton_append]
    simp [hexValue_toDigits]
  · rw [List.singleton_append]
    unfold unescape
    split <;> simp_all

theorem escapeHuman_injective : Function.Injective escapeHuman := by
  apply Delimited.flatMap_injective (Delimited.of_reader unescape_escapeChar)
  intro c hnil
  have hread := unescape_escapeChar c []
  rw [hnil] at hread
  cases hread

theorem escapeChar_no_control (c : Char) : ∀ d ∈ escapeChar c, isControl d = false := by
  unfold escapeChar
  split_ifs with hbackslash hfeed hreturn htab hcontrol
  · simp [isControl]
  · simp [isControl]
  · simp [isControl]
  · simp [isControl]
  · intro d hd
    rw [List.mem_append, List.mem_append, List.mem_singleton] at hd
    rcases hd with hd | hd | rfl
    · revert d
      simp [isControl]
    · exact (mem_hex hd).2
    · simp [isControl]
  · simpa using hcontrol

theorem escapeHuman_no_control (value : List Char) :
    ∀ c ∈ escapeHuman value, isControl c = false := by
  intro c hc
  obtain ⟨d, _, hmem⟩ := List.mem_flatMap.mp hc
  exact escapeChar_no_control d c hmem

/-! ## Labelled lines -/

/-- Text of one line for each label; what a line adds to its label holds no control character. -/
inductive Lined : List (List Char) → List Char → Prop
  | done : Lined [] []
  | line {labels : List (List Char)} {rest : List Char} (label content : List Char)
      (hcontent : ∀ c ∈ content, isControl c = false) (hrest : Lined labels rest) :
      Lined (label :: labels) (label ++ content ++ '\n' :: rest)

theorem Lined.append {labels labels' : List (List Char)} {text text' : List Char}
    (h : Lined labels text) (h' : Lined labels' text') :
    Lined (labels ++ labels') (text ++ text') := by
  induction h with
  | done => exact h'
  | line label content hcontent _ ih =>
      rw [List.cons_append, List.append_assoc (label ++ content), List.cons_append]
      exact .line label content hcontent ih

theorem Lined.flatMap {α : Type} {labels : List (List Char)} {text : α → List Char}
    (h : ∀ a, Lined labels (text a)) (items : List α) :
    Lined (items.flatMap fun _ => labels) (items.flatMap text) := by
  induction items with
  | nil => exact .done
  | cons item items ih => exact (h item).append ih

/-- Under plain labels the line feeds are the only control characters. -/
theorem Lined.countP_isControl {labels : List (List Char)} {text : List Char}
    (h : Lined labels text) (hlabels : ∀ label ∈ labels, ∀ c ∈ label, isControl c = false) :
    text.countP isControl = labels.length := by
  induction h with
  | done => rfl
  | line label content hcontent _ ih =>
      rw [List.forall_mem_cons] at hlabels
      have hlabel : label.countP isControl = 0 := by
        simpa [List.countP_eq_zero] using hlabels.1
      have hplain : content.countP isControl = 0 := by
        simpa [List.countP_eq_zero] using hcontent
      rw [List.countP_append, List.countP_append, List.countP_cons_of_pos (by decide), hlabel,
        hplain, ih hlabels.2, List.length_cons]
      omega

/-- Whoever splits the text at line feeds sees one line for each label and no others. -/
def SplitAs (labels : List (List Char)) (text : List Char) : Prop :=
  ∃ lines, Text.split '\n' text = lines ++ [[]] ∧ List.Forall₂ (· <+: ·) labels lines

theorem Lined.split {labels : List (List Char)} {text : List Char} (h : Lined labels text)
    (hlabels : ∀ label ∈ labels, ∀ c ∈ label, isControl c = false) : SplitAs labels text := by
  induction h with
  | done => exact ⟨[], rfl, .nil⟩
  | line label content hcontent _ ih =>
      rw [List.forall_mem_cons] at hlabels
      obtain ⟨lines, hsplit, hlines⟩ := ih hlabels.2
      have hfeed : '\n' ∉ label ++ content := by
        rw [List.mem_append, not_or]
        constructor
        · intro hmem
          have hplain := hlabels.1 _ hmem
          exact absurd hplain (by decide)
        · intro hmem
          have hplain := hcontent _ hmem
          exact absurd hplain (by decide)
      refine ⟨(label ++ content) :: lines, ?_, .cons (List.prefix_append _ _) hlines⟩
      rw [Text.split_append, Text.split_of_not_mem hfeed, hsplit]
      rfl

/-! ## Compositions -/

/-- One line of a format string. -/
def line (label : String) (content : List Char) : List Char := label.toList ++ content ++ ['\n']

def inspectEntry (entry : ResolvedEntry) : List Char :=
  line "- class=" (entry.classId.text.toList ++ " overlay=".toList ++ entry.overlay.text.toList
    ++ " source=".toList ++ escapeHuman entry.source.text.toList
    ++ " bytes=".toList ++ Nat.toDigits 10 entry.byteLength)

def inspectText (composition : Composition) : List Char :=
  let manifest := composition.manifest
  line "pack: " manifest.pack.text.toList
    ++ line "profile: " manifest.profile.text.toList
    ++ line "source-bytes: " (Nat.toDigits 10 manifest.sourceBytes)
    ++ line "output-bytes: " (Nat.toDigits 10 manifest.outputBytes)
    ++ manifest.entries.flatMap inspectEntry

def inspectHuman (composition : Composition) : Bytes := Text.utf8 (inspectText composition)

/-- One line for each fixed field and for each entry. -/
def inspectLabels (composition : Composition) : List (List Char) :=
  ["pack: ".toList, "profile: ".toList, "source-bytes: ".toList, "output-bytes: ".toList]
    ++ composition.manifest.entries.flatMap fun _ => ["- class=".toList]

theorem inspectLabels_plain (composition : Composition) :
    ∀ label ∈ inspectLabels composition, ∀ c ∈ label, isControl c = false := by
  have hfields : ∀ label ∈ ["pack: ".toList, "profile: ".toList, "source-bytes: ".toList,
      "output-bytes: ".toList], ∀ c ∈ label, isControl c = false := by
    simp [isControl]
  have hentry : ∀ c ∈ "- class=".toList, isControl c = false := by simp [isControl]
  unfold inspectLabels
  rw [List.forall_mem_append]
  refine ⟨hfields, ?_⟩
  intro label hlabel
  obtain ⟨_, _, hsame⟩ := List.mem_flatMap.mp hlabel
  rw [List.mem_singleton.mp hsame]
  exact hentry

/-- Text of printable bytes. -/
theorem no_control_of_bytes {value : String}
    (h : ∀ b ∈ Text.bytes value, 32 ≤ b.toNat ∧ b.toNat < 127) :
    ∀ c ∈ value.toList, isControl c = false := by
  have hchars := (@ascii_of_bytes value (fun b => 32 ≤ b.toNat ∧ b.toNat < 127) fun b hb =>
    ⟨UInt8.lt_iff_toNat_lt.mpr (Nat.lt_of_lt_of_le (h b hb).2 (by decide)), h b hb⟩).1
  intro c hc
  obtain ⟨hlt, hrange⟩ := hchars c hc
  rw [UInt8.toNat_ofNat', Nat.mod_eq_of_lt (by omega)] at hrange
  simp only [isControl, Bool.or_eq_false_iff, Bool.and_eq_false_iff, decide_eq_false_iff_not]
  omega

theorem Identifier.no_control (identifier : Identifier) :
    ∀ c ∈ identifier.text.toList, isControl c = false := by
  have hbyte : ∀ b : UInt8, (Text.isAsciiAlphanumeric b || b == 45 || b == 95 || b == 46) = true →
      32 ≤ b.toNat ∧ b.toNat < 127 := by
    decide +kernel
  have hvalid := identifier.valid
  simp only [identifierValid, Bool.and_eq_true, List.all_eq_true] at hvalid
  exact no_control_of_bytes fun b hb => hbyte b (hvalid.2 b hb)

theorem Sha256Digest.no_control (digest : Sha256Digest) :
    ∀ c ∈ digest.text.toList, isControl c = false := by
  have hbyte : ∀ b : UInt8, Text.isLowerHexDigit b = true → 32 ≤ b.toNat ∧ b.toNat < 127 := by
    decide +kernel
  have hvalid := digest.valid
  simp only [Digest.validSha256, Bool.and_eq_true, List.all_eq_true] at hvalid
  exact no_control_of_bytes fun b hb => hbyte b (hvalid.2 b hb)

theorem digits_no_control (n : Nat) : ∀ c ∈ Nat.toDigits 10 n, isControl c = false := by
  intro c hc
  have hdigit := Nat.isDigit_of_mem_toDigits (by decide) (by decide) hc
  simp only [Char.isDigit, Bool.and_eq_true, decide_eq_true_eq, ge_iff_le, UInt32.le_iff_toNat_le]
    at hdigit
  have hlow : 48 ≤ c.toNat := hdigit.1
  have hhigh : c.toNat ≤ 57 := hdigit.2
  simp only [isControl, Bool.or_eq_false_iff, Bool.and_eq_false_iff, decide_eq_false_iff_not]
  omega

theorem lined_line (label : String) {content : List Char}
    (h : ∀ c ∈ content, isControl c = false) : Lined [label.toList] (line label content) :=
  .line label.toList content h .done

theorem lined_inspectEntry (entry : ResolvedEntry) :
    Lined ["- class=".toList] (inspectEntry entry) := by
  apply lined_line
  simp only [List.forall_mem_append]
  refine ⟨⟨⟨⟨⟨⟨Identifier.no_control _, ?_⟩, Identifier.no_control _⟩, ?_⟩,
    escapeHuman_no_control _⟩, ?_⟩, digits_no_control _⟩
  · simp [isControl]
  · simp [isControl]
  · simp [isControl]

theorem lined_inspectText (composition : Composition) :
    Lined (inspectLabels composition) (inspectText composition) := by
  have hpack := lined_line "pack: " (Identifier.no_control composition.manifest.pack)
  have hprofile := lined_line "profile: " (Identifier.no_control composition.manifest.profile)
  have hsource := lined_line "source-bytes: " (digits_no_control composition.manifest.sourceBytes)
  have houtput := lined_line "output-bytes: " (digits_no_control composition.manifest.outputBytes)
  have hentries := Lined.flatMap lined_inspectEntry composition.manifest.entries
  exact (((hpack.append hprofile).append hsource).append houtput).append hentries

/-! ## Installations -/

inductive PublisherOutcome where
  | notProvided
  | verifiedAndAuthorized (keySha256 : String)
deriving DecidableEq

/-- `root` and `record` are paths of the operating system: any bytes. -/
structure InstallOutcome where
  installationFormat : String
  subject : Sha256Digest
  root : Bytes
  record : Bytes
  reused : Bool
  publisher : PublisherOutcome
deriving DecidableEq

/-- `directory.join(name)` -/
def joinPath (directory : Bytes) (name : String) : Bytes :=
  if directory = [] ∨ directory.getLast? = some 47 then directory ++ Text.bytes name
  else directory ++ [47] ++ Text.bytes name

/-- A path below the canonical root of the store. -/
def storePath (store : Bytes) (path : Path) : Bytes := path.foldl joinPath store

def outcome (store : Bytes) (receipt : InstalledBundle) (installationFormat : String)
    (publisher : PublisherOutcome) : InstallOutcome where
  installationFormat := installationFormat
  subject := receipt.subject
  root := storePath store receipt.root
  record := storePath store receipt.record
  reused := receipt.reused
  publisher := publisher

/-- The result of `install_digest_only`, or of `install_authenticated` under a trusted key. -/
def installOutcome (store : Bytes) (receipt : InstalledBundle) :
    Option Sha256Digest → InstallOutcome
  | none => outcome store receipt installationRecordFormat .notProvided
  | some trustedKey => outcome store receipt authenticatedInstallationRecordFormat
      (.verifiedAndAuthorized trustedKey.text)

def verificationMechanism : String := "ed25519-subject-v1"

def renderPublisher : PublisherOutcome → List Char
  | .notProvided => line "publisher-authentication: " "not-provided".toList
  | .verifiedAndAuthorized keySha256 =>
      line "publisher-authentication: " "verified-and-authorized".toList
        ++ line "publisher-mechanism: " verificationMechanism.toList
        ++ line "publisher-key-sha256: " keySha256.toList

def renderHuman (outcome : InstallOutcome) : List Char :=
  line "subject: " ("sha256:".toList ++ outcome.subject.text.toList)
    ++ line "root: " (Text.lossy outcome.root)
    ++ line "record: " (Text.lossy outcome.record)
    ++ line "reused: " (if outcome.reused then "true" else "false").toList
    ++ renderPublisher outcome.publisher

def publisherLabels : PublisherOutcome → List (List Char)
  | .notProvided => ["publisher-authentication: ".toList]
  | .verifiedAndAuthorized _ => ["publisher-authentication: ".toList,
      "publisher-mechanism: ".toList, "publisher-key-sha256: ".toList]

/-- One line for each field. -/
def outcomeLabels (outcome : InstallOutcome) : List (List Char) :=
  ["subject: ".toList, "root: ".toList, "record: ".toList, "reused: ".toList]
    ++ publisherLabels outcome.publisher

theorem outcomeLabels_plain (outcome : InstallOutcome) :
    ∀ label ∈ outcomeLabels outcome, ∀ c ∈ label, isControl c = false := by
  unfold outcomeLabels
  cases outcome.publisher <;> simp [publisherLabels, isControl]

/-- The publisher lines of an installation. -/
theorem lined_renderPublisher {publisher : PublisherOutcome}
    (h : ∀ key, publisher = .verifiedAndAuthorized key →
      ∀ c ∈ key.toList, isControl c = false) :
    Lined (publisherLabels publisher) (renderPublisher publisher) := by
  cases publisher with
  | notProvided => exact lined_line _ (by simp [isControl])
  | verifiedAndAuthorized key =>
      have hstatus : ∀ c ∈ "verified-and-authorized".toList, isControl c = false := by
        simp [isControl]
      have hmechanism : ∀ c ∈ verificationMechanism.toList, isControl c = false := by
        simp [verificationMechanism, isControl]
      exact ((lined_line "publisher-authentication: " hstatus).append
        (lined_line "publisher-mechanism: " hmechanism)).append
          (lined_line "publisher-key-sha256: " (h key rfl))

/-! ## Paths without control characters -/

/-- No control character is encoded in the bytes. -/
def NoControl (bytes : Bytes) : Prop :=
  ∀ c, isControl c = true → ¬ String.utf8EncodeChar c <:+: bytes

theorem short_of_isControl {c : Char} (h : isControl c = true) : c.toNat < 2048 := by
  simp only [isControl, Bool.or_eq_true, Bool.and_eq_true, decide_eq_true_eq] at h
  omega

theorem noControl_iff {bytes : Bytes} :
    NoControl bytes ↔ ∀ c ∈ Text.lossy bytes, isControl c = false := by
  constructor
  · intro h c hc
    by_contra hcontrol
    rw [Bool.not_eq_false] at hcontrol
    exact h c hcontrol ((Text.mem_lossy_iff (short_of_isControl hcontrol)).mp hc)
  · intro h c hcontrol hinfix
    have hplain := h c ((Text.mem_lossy_iff (short_of_isControl hcontrol)).mpr hinfix)
    rw [hcontrol] at hplain
    cases hplain

def IsPrintableByte (b : UInt8) : Prop := 32 ≤ b.toNat ∧ b.toNat < 127

theorem control_encoding {c : Char} (h : isControl c = true) {b : UInt8}
    (hb : b ∈ String.utf8EncodeChar c) : ¬ IsPrintableByte b := by
  have hshort := short_of_isControl h
  simp only [isControl, Bool.or_eq_true, Bool.and_eq_true, decide_eq_true_eq] at h
  unfold IsPrintableByte
  rcases Text.short_encoding hshort with ⟨d, henc, hd, hc⟩ | ⟨lead, d, henc, hlead, _, hd, _⟩
  · rw [henc, List.mem_singleton] at hb
    rw [hb]
    omega
  · rw [henc, List.mem_cons, List.mem_singleton] at hb
    have hbounds := Text.continuation_bounds hd
    rcases hb with rfl | rfl <;> omega

/-- Printable bytes at the end add no control character. -/
theorem noControl_append {bytes suffix : Bytes} (h : ∀ b ∈ suffix, IsPrintableByte b) :
    NoControl (bytes ++ suffix) ↔ NoControl bytes := by
  unfold NoControl
  apply forall_congr'
  intro c
  apply imp_congr_right
  intro hcontrol
  apply not_congr
  induction suffix using List.reverseRecOn with
  | nil => rw [List.append_nil]
  | append_singleton suffix b ih =>
      rw [← List.append_assoc, List.infix_concat_iff,
        ih fun d hd => h d (List.mem_append_left _ hd)]
      constructor
      · rintro (hsuffix | hinfix)
        · rw [List.suffix_concat_iff] at hsuffix
          rcases hsuffix with hnil | ⟨front, henc, _⟩
          · rw [hnil]
            exact List.nil_infix
          · have hmem : b ∈ String.utf8EncodeChar c := by
              rw [henc]
              exact List.mem_append_right _ List.mem_cons_self
            exact absurd (h b (List.mem_append_right _ List.mem_cons_self))
              (control_encoding hcontrol hmem)
        · exact hinfix
      · exact .inr

theorem noControl_joinPath {directory : Bytes} {name : String}
    (h : ∀ b ∈ Text.bytes name, IsPrintableByte b) :
    NoControl (joinPath directory name) ↔ NoControl directory := by
  unfold joinPath
  by_cases hend : directory = [] ∨ directory.getLast? = some 47
  · rw [if_pos hend, noControl_append h]
  · rw [if_neg hend, List.append_assoc, noControl_append]
    intro b hb
    rw [List.singleton_append, List.mem_cons] at hb
    rcases hb with rfl | hb
    · exact ⟨by decide, by decide⟩
    · exact h b hb

theorem noControl_storePath {path : Path}
    (h : ∀ name ∈ path, ∀ b ∈ Text.bytes name, IsPrintableByte b) (store : Bytes) :
    NoControl (storePath store path) ↔ NoControl store := by
  unfold storePath
  induction path generalizing store with
  | nil => rfl
  | cons name path ih =>
      rw [List.forall_mem_cons] at h
      rw [List.foldl_cons, ih h.2, noControl_joinPath h.1]

/-- The names an installation adds to the path of its store. -/
theorem receipt_printable (bundle : VerifiedBundle) (reused : Bool) :
    ∀ name ∈ (receipt bundle (subjectRoot bundle.subject) reused).record,
      ∀ b ∈ Text.bytes name, IsPrintableByte b := by
  have hbyte : ∀ b : UInt8, Text.isLowerHexDigit b = true → 32 ≤ b.toNat ∧ b.toNat < 127 := by
    decide +kernel
  have hvalid := bundle.subject.valid
  simp only [Digest.validSha256, Bool.and_eq_true, List.all_eq_true] at hvalid
  intro name hname
  simp only [receipt, subjectRoot, installedDirectory, List.cons_append, List.nil_append,
    List.mem_cons, List.not_mem_nil, or_false] at hname
  rcases hname with rfl | rfl | rfl
  · unfold IsPrintableByte
    decide +kernel
  · exact fun b hb => hbyte b (hvalid.2 b hb)
  · unfold IsPrintableByte
    decide +kernel

/-! ## The contract -/

theorem lined_renderHuman {outcome : InstallOutcome}
    (hroot : ∀ c ∈ Text.lossy outcome.root, isControl c = false)
    (hrecord : ∀ c ∈ Text.lossy outcome.record, isControl c = false)
    (hkey : ∀ key, outcome.publisher = .verifiedAndAuthorized key →
      ∀ c ∈ key.toList, isControl c = false) :
    Lined (outcomeLabels outcome) (renderHuman outcome) := by
  have hsubject : ∀ c ∈ "sha256:".toList ++ outcome.subject.text.toList,
      isControl c = false := by
    rw [List.forall_mem_append]
    exact ⟨by simp [isControl], Sha256Digest.no_control _⟩
  have hreused : ∀ c ∈ (if outcome.reused then "true" else "false").toList,
      isControl c = false := by
    cases outcome.reused <;> simp [isControl]
  exact ((((lined_line "subject: " hsubject).append (lined_line "root: " hroot)).append
    (lined_line "record: " hrecord)).append (lined_line "reused: " hreused)).append
      (lined_renderPublisher hkey)

theorem countP_line (label : String) (content : List Char) :
    (line label content).countP isControl =
      label.toList.countP isControl + content.countP isControl + 1 := by
  rw [line, List.countP_append, List.countP_append]
  rfl

/-- Lines of an outcome leave no room for a control character in its paths. -/
theorem root_plain_of_lined {outcome : InstallOutcome}
    (h : Lined (outcomeLabels outcome) (renderHuman outcome)) :
    ∀ c ∈ Text.lossy outcome.root, isControl c = false := by
  have hcount := h.countP_isControl (outcomeLabels_plain outcome)
  have hpublisher : (publisherLabels outcome.publisher).length ≤
      (renderPublisher outcome.publisher).countP isControl := by
    cases outcome.publisher with
    | notProvided =>
        rw [renderPublisher, countP_line]
        exact Nat.le_add_left 1 _
    | verifiedAndAuthorized key =>
        rw [renderPublisher, List.countP_append, List.countP_append, countP_line, countP_line,
          countP_line]
        simp only [publisherLabels, List.length_cons, List.length_nil]
        omega
  simp only [renderHuman, List.countP_append, countP_line, outcomeLabels, List.length_append,
    List.length_cons, List.length_nil] at hcount
  have hzero : (Text.lossy outcome.root).countP isControl = 0 := by omega
  simpa [List.countP_eq_zero] using hzero

/-- The human output of an installation cannot be forged exactly when the path of the store holds
no control character; that of a composition never can, whatever its sources are called. -/
theorem humanOutput_exact (composition : Composition) (store : Bytes) (bundle : VerifiedBundle)
    (reused : Bool) (trusted : Option Sha256Digest) :
    let installed := installOutcome store
      (receipt bundle (subjectRoot bundle.subject) reused) trusted
    ((∃ text, inspectHuman composition = Text.utf8 text ∧ Lined (inspectLabels composition) text ∧
        SplitAs (inspectLabels composition) text) ∧
      (∀ value, ∀ c ∈ escapeHuman value, isControl c = false) ∧
      Function.Injective escapeHuman ∧
      Lined (outcomeLabels installed) (renderHuman installed) ∧
      SplitAs (outcomeLabels installed) (renderHuman installed)) ↔ NoControl store := by
  intro installed
  have hroot : NoControl installed.root ↔ NoControl store := by
    have hpath : installed.root = storePath store (subjectRoot bundle.subject) := by
      cases trusted <;> rfl
    rw [hpath]
    apply noControl_storePath
    intro name hname
    exact receipt_printable bundle reused name (List.mem_append_left _ hname)
  have hrecord : NoControl installed.record ↔ NoControl store := by
    have hpath : installed.record =
        storePath store (receipt bundle (subjectRoot bundle.subject) reused).record := by
      cases trusted <;> rfl
    rw [hpath]
    exact noControl_storePath (receipt_printable bundle reused) store
  constructor
  · intro h
    exact hroot.mp (noControl_iff.mpr (root_plain_of_lined h.2.2.2.1))
  · intro h
    have hinspect := lined_inspectText composition
    have hkey : ∀ key, installed.publisher = .verifiedAndAuthorized key →
        ∀ c ∈ key.toList, isControl c = false := by
      intro key hkey
      cases trusted with
      | none => cases hkey
      | some digest =>
          cases hkey
          exact Sha256Digest.no_control digest
    have hrender := lined_renderHuman (noControl_iff.mp (hroot.mpr h))
      (noControl_iff.mp (hrecord.mpr h)) hkey
    exact ⟨⟨_, rfl, hinspect, hinspect.split (inspectLabels_plain composition)⟩,
      escapeHuman_no_control, escapeHuman_injective, hrender,
      hrender.split (outcomeLabels_plain installed)⟩

/-- `--store` names a directory whose name continues with a line of its own. -/
def forgedStore : Bytes := Text.bytes "/srv/s\npublisher-authentication: verified-and-authorized"

theorem humanOutput_forged :
    ¬ Lined (outcomeLabels (installOutcome forgedStore
        (receipt sampleBundle (subjectRoot sampleBundle.subject) false) none))
      (renderHuman (installOutcome forgedStore
        (receipt sampleBundle (subjectRoot sampleBundle.subject) false) none)) := by
  intro h
  have hplain := root_plain_of_lined h '\n' ?_
  · cases hplain
  · decide +kernel

end Invokrum.Cli
