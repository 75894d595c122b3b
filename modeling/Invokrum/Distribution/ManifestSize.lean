import Invokrum.Distribution.ManifestJson

/-!
# The size of encoded manifests

The length of a manifest's document as a sum over its files. JSON writes a
double quote in a path as two bytes, so the paths of a manifest decide whether
the document stays within the bound of the decoder.
-/

namespace Invokrum.Distribution

open Outcome Ordered
open Text (Bytes)
open Json (ReadsCompact)

/-! ## Lengths of JSON texts -/

/-- A character of a bundle path: printable ASCII other than the backslash. -/
def IsPathChar (c : Char) : Prop := 32 ≤ c.toNat ∧ c.toNat < 127 ∧ c ≠ '\\'

theorem escapeChar_length {c : Char} (h : IsPathChar c) :
    (Text.utf8 (Json.escapeChar c)).length = 1 + if c = '"' then 1 else 0 := by
  obtain ⟨hlow, hhigh, hbackslash⟩ := h
  by_cases hquote : c = '"'
  · subst hquote
    rfl
  · have hnone : Json.shortEscape c = none := by
      unfold Json.shortEscape
      have hne : ∀ d : Char, d.toNat < 32 → c ≠ d := by
        intro d hd hcd
        rw [hcd] at hlow
        omega
      rw [if_neg hquote, if_neg hbackslash, if_neg (hne _ (by decide)), if_neg (hne _ (by decide)),
        if_neg (hne _ (by decide)), if_neg (hne _ (by decide)), if_neg (hne _ (by decide))]
    have hplain : Json.escapeChar c = [c] := by
      unfold Json.escapeChar
      rw [hnone]
      exact if_neg (by omega)
    rw [hplain, Text.utf8_ascii (by simpa using by omega), if_neg hquote]
    rfl

theorem escape_length {cs : List Char} (h : ∀ c ∈ cs, IsPathChar c) :
    (Text.utf8 (Json.escape cs)).length = cs.length + cs.count '"' := by
  induction cs with
  | nil => rfl
  | cons c cs ih =>
      have hrest := ih fun d hd => h d (List.mem_cons_of_mem c hd)
      have hhead := escapeChar_length (h c List.mem_cons_self)
      unfold Json.escape at hrest ⊢
      rw [List.flatMap_cons, Text.utf8_append, List.length_append, hrest, hhead, List.length_cons,
        List.count_cons]
      simp only [beq_iff_eq]
      omega

theorem quoted_length {s : String} (h : ∀ c ∈ s.toList, IsPathChar c) :
    (Text.utf8 (Json.quoted s)).length = s.toList.length + s.toList.count '"' + 2 := by
  have hquote : (String.utf8EncodeChar '"').length = 1 := by decide
  unfold Json.quoted
  rw [Text.utf8_cons, Text.utf8_append, Text.utf8_cons, Text.utf8_nil, List.append_nil,
    List.length_append, List.length_append, escape_length h, hquote]
  omega

/-- Items after the first are preceded by one comma each. -/
theorem compactItems_length (items : List Json) :
    (Text.utf8 (Json.compactItems [','] items)).length =
      (items.map fun item => item.toVec.length + 1).sum := by
  have hcomma : (Text.utf8 [',']).length = 1 := by decide
  induction items with
  | nil => rfl
  | cons item rest ih =>
      rw [Json.compactItems, Text.utf8_append, Text.utf8_append, List.length_append,
        List.length_append, hcomma, ih, List.map_cons, List.sum_cons, Json.toVec]
      omega

theorem array_length {item : Json} {rest : List Json} :
    (Json.array (item :: rest)).toVec.length =
      1 + ((item :: rest).map fun item => item.toVec.length + 1).sum := by
  have hopen : (String.utf8EncodeChar '[').length = 1 := by decide
  have hclose : (Text.utf8 [']']).length = 1 := by decide
  rw [Json.toVec, Json.compact, Text.utf8_cons, Text.utf8_append, Json.compactItems,
    Text.utf8_append, Text.utf8_append, Text.utf8_nil, List.nil_append, List.length_append,
    List.length_append, List.length_append, hopen, hclose, compactItems_length, List.map_cons,
    List.sum_cons, Json.toVec]
  omega

/-! ## Lengths of documents -/

/-- Text whose bytes are ASCII has one byte a character. -/
theorem ascii_of_bytes {s : String} {P : UInt8 → Prop}
    (h : ∀ b ∈ Text.bytes s, b < 128 ∧ P b) :
    (∀ c ∈ s.toList, c.toNat < 128 ∧ P c.toNat.toUInt8) ∧ s.toList.length = Text.byteLength s := by
  have hchars : ∀ c ∈ s.toList, c.toNat < 128 ∧ P c.toNat.toUInt8 := by
    intro c hc
    have hbyte : ∀ b ∈ String.utf8EncodeChar c, b < 128 ∧ P b := fun b hb =>
      h b (List.mem_flatMap.mpr ⟨c, hc, hb⟩)
    rcases Text.utf8EncodeChar_cases c with ⟨hlt, hbytes⟩ | ⟨hge, hbytes⟩
    · rw [hbytes] at hbyte
      exact ⟨hlt, (hbyte _ List.mem_cons_self).2⟩
    · have hne : String.utf8EncodeChar c ≠ [] := by
        intro hnil
        have hsize := congrArg List.length hnil
        rw [String.length_utf8EncodeChar, List.length_nil] at hsize
        exact absurd hsize (Nat.ne_of_gt c.utf8Size_pos)
      obtain ⟨b, hb⟩ := List.exists_mem_of_ne_nil _ hne
      have hlt := UInt8.lt_iff_toNat_lt.mp (hbyte b hb).1
      exact absurd hlt (Nat.not_lt.mpr (hbytes b hb))
  refine ⟨hchars, ?_⟩
  rw [Text.byteLength, Text.bytes, Text.utf8_ascii fun c hc => (hchars c hc).1, List.length_map]

theorem BundlePath.isPathChar (path : BundlePath) : ∀ c ∈ path.text.toList, IsPathChar c := by
  have hvalid := path.valid
  simp only [bundlePathValid, Bool.not_eq_true', Bool.or_eq_false_iff, Bool.not_eq_false',
    decide_eq_false_iff_not] at hvalid
  obtain ⟨⟨⟨⟨⟨⟨⟨⟨_, _⟩, hascii⟩, _⟩, _⟩, hbackslash⟩, _⟩, hcontrol⟩, _⟩ := hvalid
  have hchars := (@ascii_of_bytes path.text (fun b => Text.isAsciiControl b = false) (by
    intro b hb
    exact ⟨by simpa using List.all_eq_true.mp hascii b hb, by
      simpa using List.any_eq_false.mp hcontrol b hb⟩)).1
  intro c hc
  obtain ⟨hlt, hprintable⟩ := hchars c hc
  have hbyte : c.toNat.toUInt8.toNat = c.toNat := by
    rw [UInt8.toNat_ofNat', Nat.mod_eq_of_lt (by omega)]
  simp only [Text.isAsciiControl, Bool.or_eq_false_iff, decide_eq_false_iff_not,
    beq_eq_false_iff_ne, ne_eq, UInt8.lt_iff_toNat_lt, hbyte] at hprintable
  refine ⟨Nat.le_of_not_lt hprintable.1, ?_, ?_⟩
  · have hdelete : c.toNat ≠ 127 := by
      intro hsame
      exact hprintable.2 (by rw [hsame]; rfl)
    omega
  · intro hsame
    rw [hsame] at hc
    simp [hc] at hbackslash

theorem Sha256Digest.quoted_length (digest : Sha256Digest) :
    (Text.utf8 (Json.quoted digest.text)).length = 66 := by
  have hvalid := digest.valid
  simp only [Digest.validSha256, Bool.and_eq_true, beq_iff_eq, List.all_eq_true] at hvalid
  have hhex : ∀ b : UInt8, Text.isLowerHexDigit b = true →
      b < 128 ∧ 32 ≤ b.toNat ∧ b.toNat < 127 ∧ b ≠ 92 ∧ b ≠ 34 := by
    decide +kernel
  obtain ⟨hchars, hlength⟩ := @ascii_of_bytes digest.text
    (fun b => 32 ≤ b.toNat ∧ b.toNat < 127 ∧ b ≠ 92 ∧ b ≠ 34) fun b hb => hhex b (hvalid.2 b hb)
  have hplain : ∀ c ∈ digest.text.toList, IsPathChar c ∧ c ≠ '"' := by
    intro c hc
    obtain ⟨hlt, hlow, hhigh, hbackslash, hquote⟩ := hchars c hc
    have hbyte : c.toNat.toUInt8.toNat = c.toNat := by
      rw [UInt8.toNat_ofNat', Nat.mod_eq_of_lt (by omega)]
    rw [hbyte] at hlow hhigh
    refine ⟨⟨hlow, hhigh, ?_⟩, ?_⟩
    · intro hsame
      exact hbackslash (by rw [hsame]; rfl)
    · intro hsame
      exact hquote (by rw [hsame]; rfl)
  have hcount : digest.text.toList.count '"' = 0 :=
    List.count_eq_zero.mpr fun hmem => (hplain _ hmem).2 rfl
  rw [Distribution.quoted_length fun c hc => (hplain c hc).1, hlength, hvalid.1, hcount]

/-- The bytes of a path as a JSON string. -/
def BundlePath.quotedLength (path : BundlePath) : Nat :=
  path.text.toList.length + path.text.toList.count '"' + 2

/-- The bytes of a file record. -/
def BundleFile.encodedLength (file : BundleFile) : Nat :=
  100 + file.path.quotedLength + (Nat.toDigits 10 file.byteLength.toNat).length

/-- The bytes of a manifest: every file record is followed by a comma or by the
closing bracket. -/
def BundleManifest.encodedLength (manifest : BundleManifest) : Nat :=
  89 + manifest.entryPoint.quotedLength +
    (manifest.files.map fun file => file.encodedLength + 1).sum

theorem toDigits_length_utf8 (n : Nat) :
    (Text.utf8 (Nat.toDigits 10 n)).length = (Nat.toDigits 10 n).length := by
  rw [Text.utf8_ascii, List.length_map]
  intro c hc
  have hdigit := Nat.isDigit_of_mem_toDigits (by decide) (by decide) hc
  simp only [Char.isDigit, Bool.and_eq_true, decide_eq_true_eq, UInt32.le_iff_toNat_le] at hdigit
  exact Nat.lt_of_le_of_lt hdigit.2 (by decide)

theorem BundleFile.document_length (file : BundleFile) :
    file.document.toJson.toVec.length = file.encodedLength := by
  have hpath := quoted_length file.path.isPathChar
  have hdigest := file.digest.quoted_length
  have hdigits := toDigits_length_utf8 file.byteLength.toNat
  have hkeys : (Text.utf8 (Json.quoted "path")).length = 6 ∧
      (Text.utf8 (Json.quoted "byte_length")).length = 13 ∧
      (Text.utf8 (Json.quoted "digest")).length = 8 := by decide
  have hmarks : (String.utf8EncodeChar '{').length = 1 ∧ (String.utf8EncodeChar '}').length = 1 ∧
      (String.utf8EncodeChar ':').length = 1 ∧ (String.utf8EncodeChar ',').length = 1 := by decide
  simp only [Json.toVec, FileDocument.toJson, BundleFile.document, Json.compact,
    Json.compactMembers, Json.ofUInt64, Text.utf8_cons, Text.utf8_append, Text.utf8_nil,
    List.length_append, List.length_nil, List.append_nil, hpath, hdigest, hdigits, hkeys, hmarks,
    BundleFile.encodedLength, BundlePath.quotedLength]
  omega

theorem BundleManifest.document_length (manifest : BundleManifest) :
    manifest.document.toJson.toVec.length = manifest.encodedLength := by
  have hentry := quoted_length manifest.entryPoint.isPathChar
  have hkeys : (Text.utf8 (Json.quoted "format")).length = 8 ∧
      (Text.utf8 (Json.quoted "digest_algorithm")).length = 18 ∧
      (Text.utf8 (Json.quoted "entry_point")).length = 13 ∧
      (Text.utf8 (Json.quoted "files")).length = 7 ∧
      (Text.utf8 (Json.quoted bundleFormat)).length = 25 ∧
      (Text.utf8 (Json.quoted sha256Algorithm)).length = 8 := by decide
  have hmarks : (String.utf8EncodeChar '{').length = 1 ∧ (String.utf8EncodeChar '}').length = 1 ∧
      (String.utf8EncodeChar ':').length = 1 ∧ (String.utf8EncodeChar ',').length = 1 := by decide
  have hfiles : (Text.utf8 (Json.array
        ((manifest.files.map BundleFile.document).map FileDocument.toJson)).compact).length =
      1 + (manifest.files.map fun file => file.encodedLength + 1).sum := by
    obtain ⟨file, rest, hcons⟩ := List.exists_cons_of_ne_nil manifest.accepted.nonempty
    have hlength := @array_length file.document.toJson
      ((rest.map BundleFile.document).map FileDocument.toJson)
    rw [Json.toVec] at hlength
    rw [hcons, List.map_cons, List.map_cons, hlength, ← List.map_cons, ← List.map_cons, List.map_map,
      List.map_map]
    simp only [Function.comp_def, BundleFile.document_length]
  have hstring : ∀ s, (Json.string s).compact = Json.quoted s := fun _ => rfl
  simp only [Json.toVec, BundleDocument.toJson, BundleManifest.document] at hfiles ⊢
  rw [Json.compact]
  simp only [Json.compactMembers, hstring, Text.utf8_cons, Text.utf8_append, Text.utf8_nil,
    List.length_append, List.length_nil, List.append_nil, hentry, hkeys, hmarks, hfiles,
    BundleManifest.encodedLength, BundlePath.quotedLength]
  omega

/-! ## Manifests that fit -/

/-- The double quotes in the entry point and the paths of a manifest. -/
def BundleManifest.quoteCount (manifest : BundleManifest) : Nat :=
  manifest.entryPoint.text.toList.count '"' +
    (manifest.files.map fun file => file.path.text.toList.count '"').sum

theorem BundlePath.length_le (path : BundlePath) :
    path.text.toList.length ≤ maxBundlePathBytes := by
  have hvalid := path.valid
  simp only [bundlePathValid, Bool.not_eq_true', Bool.or_eq_false_iff, Bool.not_eq_false',
    decide_eq_false_iff_not, not_lt] at hvalid
  have hascii := hvalid.1.1.1.1.1.1.2
  have hlength := (@ascii_of_bytes path.text (fun _ => True) fun b hb =>
    ⟨by simpa using List.all_eq_true.mp hascii b hb, trivial⟩).2
  rw [hlength]
  exact hvalid.1.1.1.1.1.1.1.2

/-- Without its double quotes a file record is bounded. -/
theorem BundleFile.encodedLength_le {file : BundleFile}
    (h : file.byteLength.toNat ≤ maxBundleFileBytes) :
    file.encodedLength + 1 ≤ file.path.text.toList.count '"' + 1134 := by
  have hpath := file.path.length_le
  have hdigits : (Nat.toDigits 10 file.byteLength.toNat).length ≤ 7 :=
    (Nat.length_toDigits_le_iff (by decide) (by decide)).mpr
      (Nat.lt_of_le_of_lt h (by decide))
  have hbound : maxBundlePathBytes = 1024 := rfl
  unfold BundleFile.encodedLength BundlePath.quotedLength
  omega

/-- Few double quotes leave room for any other paths. -/
theorem BundleManifest.encodedLength_le {manifest : BundleManifest}
    (h : manifest.quoteCount ≤ 450000) :
    manifest.encodedLength ≤ maxBundleManifestBytes := by
  have hfiles : ∀ files : List BundleFile, (∀ file ∈ files, file.byteLength.toNat ≤ maxBundleFileBytes) →
      (files.map fun file => file.encodedLength + 1).sum ≤
        (files.map fun file => file.path.text.toList.count '"').sum + 1134 * files.length := by
    intro files hbytes
    induction files with
    | nil => simp
    | cons file rest ih =>
        have hhead := BundleFile.encodedLength_le (hbytes file List.mem_cons_self)
        have hrest := ih fun other hother => hbytes other (List.mem_cons_of_mem file hother)
        simp only [List.map_cons, List.sum_cons, List.length_cons]
        omega
  have hsum := hfiles manifest.files fun file hfile =>
    Nat.le_trans (manifest.accepted.fileBytes file hfile) BundleLimits.default.fileBytes_le
  have hcount := Nat.le_trans manifest.accepted.count BundleLimits.default.files_le
  have hentry := manifest.entryPoint.length_le
  have hpathBound : maxBundlePathBytes = 1024 := rfl
  have hfileBound : maxBundleFiles = 512 := rfl
  have hbound : maxBundleManifestBytes = 1048576 := rfl
  unfold BundleManifest.quoteCount at h
  unfold BundleManifest.encodedLength BundlePath.quotedLength
  omega

/-- The decoder refuses an encoding above the document bound. -/
theorem decodeBundleManifest_tooLarge (fromSlice : Bytes → Except Json Json) (limits : BundleLimits)
    {m : BundleManifest} (h : maxBundleManifestBytes < m.encodedLength) :
    ∃ bytes, encodeBundleManifest m = .ok bytes ∧ maxBundleManifestBytes < bytes.length ∧
      decodeBundleManifest fromSlice bytes limits = .error .inputTooLarge := by
  have hlong : maxBundleManifestBytes < m.document.toJson.toVec.length := by
    rw [m.document_length]
    exact h
  exact ⟨_, rfl, hlong, by rw [decodeBundleManifest, rejectIf_of _ hlong, error_bind]⟩

/-- The decoder returns a manifest from its encoding exactly when the encoding
is within the document bound, which few double quotes ensure; a longer encoding
is refused for its size. -/
theorem decodeBundleManifest_encode {fromSlice : Bytes → Except Json Json}
    (hreader : ReadsCompact fun bytes => (fromSlice bytes).toOption) (limits : BundleLimits) (m : BundleManifest)
    (hm : Constructible limits m) :
    ∃ bytes, encodeBundleManifest m = .ok bytes ∧ bytes.length = m.encodedLength ∧
      decodeBundleManifest fromSlice bytes limits =
        (if m.encodedLength ≤ maxBundleManifestBytes then .ok m else .error .inputTooLarge) ∧
      (m.quoteCount ≤ 450000 → m.encodedLength ≤ maxBundleManifestBytes) := by
  have hlength := m.document_length
  refine ⟨_, rfl, hlength, ?_, m.encodedLength_le⟩
  by_cases hfits : m.encodedLength ≤ maxBundleManifestBytes
  · rw [if_pos hfits]
    exact decodeBundleManifest_complete hreader (hlength ▸ hfits) hm rfl
  · obtain ⟨bytes, hencode, _, hdecode⟩ := decodeBundleManifest_tooLarge fromSlice limits
      (not_le.mp hfits)
    rw [if_neg hfits, Except.ok.inj hencode]
    exact hdecode

theorem decodeBundleManifest_encode_sample :
    Constructible .default sampleManifest ∧
      ∃ bytes, encodeBundleManifest sampleManifest = .ok bytes ∧
        decodeBundleManifest Json.visitBytes bytes .default =
          if sampleManifest.encodedLength ≤ maxBundleManifestBytes then .ok sampleManifest
          else .error .inputTooLarge := by
  have hm := constructible_iff.mpr sampleManifest.accepted
  obtain ⟨bytes, hencode, _, hdecode, _⟩ := decodeBundleManifest_encode Json.visitBytes_readsCompact
    .default sampleManifest hm
  exact ⟨hm, bytes, hencode, hdecode⟩

/-! ## A manifest of double quotes -/

/-- Double quotes and a number of three digits. -/
def quoteName (i : Nat) : List Char :=
  List.replicate 1020 '"' ++
    [Nat.digitChar (i / 100 % 10), Nat.digitChar (i / 10 % 10), Nat.digitChar (i % 10)]

theorem digitChar_name : ∀ n < 10, IsNameChar (Nat.digitChar n) ∧ Nat.digitChar n ≠ '"' := by
  decide

theorem quoteName_length (i : Nat) : (quoteName i).length = 1023 := by
  unfold quoteName
  rw [List.length_append, List.length_replicate]
  rfl

theorem quoteName_count (i : Nat) : (quoteName i).count '"' = 1020 := by
  have hdigit : ∀ n, Nat.digitChar (n % 10) ≠ '"' := fun n =>
    (digitChar_name _ (Nat.mod_lt n (by decide))).2
  unfold quoteName
  rw [List.count_append, List.count_replicate_self, List.count_cons_of_ne (hdigit _),
    List.count_cons_of_ne (hdigit _), List.count_cons_of_ne (hdigit _), List.count_nil]

theorem quoteName_valid (i : Nat) : bundlePathValid (String.ofList (quoteName i)) = true := by
  have hchars : ∀ c ∈ quoteName i, IsNameChar c := by
    intro c hc
    unfold quoteName at hc
    rcases List.mem_append.mp hc with hc | hc
    · rw [(List.mem_replicate.mp hc).2]
      decide
    · simp only [List.mem_cons, List.not_mem_nil, or_false] at hc
      rcases hc with rfl | rfl | rfl <;> exact (digitChar_name _ (Nat.mod_lt _ (by decide))).1
  have hne : quoteName i ≠ [] := by
    intro hnil
    have hlength := quoteName_length i
    rw [hnil] at hlength
    cases hlength
  exact @bundlePathValid_join [quoteName i] (by simp) (by simpa using ⟨hne, hchars⟩)
    (by
      change (quoteName i).length ≤ _
      rw [quoteName_length]
      decide)

def quotePath (i : Nat) : BundlePath := ⟨String.ofList (quoteName i), quoteName_valid i⟩

theorem quotePath_quotedLength (i : Nat) : (quotePath i).quotedLength = 2045 := by
  unfold BundlePath.quotedLength quotePath
  rw [String.toList_ofList, quoteName_length, quoteName_count]

theorem quoteDigest_valid : Digest.validSha256 (Digest.sha256LowerHex []) = true :=
  Digest.sha256LowerHex_valid []

def quoteFile (i : Nat) : BundleFile :=
  ⟨quotePath i, 0, ⟨_, quoteDigest_valid⟩⟩

def quoteFiles : List BundleFile := (List.range 512).map quoteFile

theorem quotePath_inj {i j : Nat} (hi : i < 1000) (hj : j < 1000) (h : quotePath i = quotePath j) :
    i = j := by
  have hnames := String.ofList_injective (congrArg BundlePath.text h)
  have htails := List.append_cancel_left hnames
  simp only [List.cons.injEq, and_true] at htails
  have hdigit : ∀ m n, Nat.digitChar (m % 10) = Nat.digitChar (n % 10) → m % 10 = n % 10 :=
    fun m n heq => Digest.digitChar_injective (by omega) (by omega) heq
  have h0 := hdigit _ _ htails.1
  have h1 := hdigit _ _ htails.2.1
  have h2 := hdigit _ _ htails.2.2
  omega

theorem quoteFiles_accepted : Accepted .default (quotePath 0) quoteFiles where
  nonempty := List.ne_nil_of_mem (List.mem_map_of_mem (List.mem_range.mpr (by decide : 0 < 512)))
  count := by
    unfold quoteFiles
    rw [List.length_map, List.length_range]
    decide
  distinct := by
    unfold quoteFiles
    rw [List.map_map]
    apply List.Nodup.map_on _ List.nodup_range
    intro i hi j hj heq
    have hi := List.mem_range.mp hi
    have hj := List.mem_range.mp hj
    exact quotePath_inj (by omega) (by omega) heq
  fileBytes := by
    intro file hfile
    obtain ⟨i, _, rfl⟩ := List.mem_map.mp hfile
    exact Nat.zero_le _
  expanded := by
    have hzero : (quoteFiles.map (·.byteLength.toNat)).sum = 0 := by
      rw [List.sum_eq_zero_iff]
      intro size hsize
      obtain ⟨file, hfile, rfl⟩ := List.mem_map.mp hsize
      obtain ⟨i, _, rfl⟩ := List.mem_map.mp hfile
      rfl
    rw [hzero]
    exact Nat.zero_le _
  entry := by
    unfold quoteFiles
    exact List.mem_map.mpr ⟨quoteFile 0, List.mem_map.mpr ⟨0, List.mem_range.mpr (by decide), rfl⟩, rfl⟩

def quoteManifest : BundleManifest where
  entryPoint := quotePath 0
  files := sortByKey (·.path) quoteFiles
  accepted := quoteFiles_accepted.of_perm (sortByKey_perm _ _).symm
  sorted := sortByKey_strict _ quoteFiles_accepted.distinct

theorem quoteManifest_files : quoteManifest.files = sortByKey (·.path) quoteFiles := by
  rw [quoteManifest]

/-- 512 files with 1020 double quotes each are too many. -/
theorem encodedLength_of_quotes {m : BundleManifest} (hcount : m.files.length = 512)
    (hfiles : ∀ file ∈ m.files, file.path.quotedLength = 2045) :
    maxBundleManifestBytes < m.encodedLength := by
  have hsum : ∀ files : List BundleFile, (∀ file ∈ files, file.path.quotedLength = 2045) →
      2146 * files.length ≤ (files.map fun file => file.encodedLength + 1).sum := by
    intro files hquotes
    induction files with
    | nil => simp
    | cons file rest ih =>
        have hhead := hquotes file List.mem_cons_self
        have hrest := ih fun other hother => hquotes other (List.mem_cons_of_mem file hother)
        simp only [List.map_cons, List.sum_cons, List.length_cons, BundleFile.encodedLength] at hrest ⊢
        omega
  have hall := hsum m.files hfiles
  have hbound : maxBundleManifestBytes = 1048576 := rfl
  unfold BundleManifest.encodedLength
  omega

theorem quoteManifest_long : maxBundleManifestBytes < quoteManifest.encodedLength := by
  apply encodedLength_of_quotes
  · rw [quoteManifest_files, length_sortByKey, quoteFiles, List.length_map, List.length_range]
  · intro file hfile
    rw [quoteManifest_files, mem_sortByKey, quoteFiles] at hfile
    obtain ⟨i, _, hi⟩ := List.mem_map.mp hfile
    rw [← hi]
    exact quotePath_quotedLength i

/-- A manifest the constructor accepts under the default limits whose encoding
the decoder refuses. -/
theorem decodeBundleManifest_refuses_quotes :
    Constructible .default quoteManifest ∧
      ∃ bytes, encodeBundleManifest quoteManifest = .ok bytes ∧
        maxBundleManifestBytes < bytes.length ∧
        decodeBundleManifest Json.visitBytes bytes .default = .error .inputTooLarge :=
  ⟨constructible_iff.mpr quoteManifest.accepted,
    decodeBundleManifest_tooLarge Json.visitBytes .default quoteManifest_long⟩

end Invokrum.Distribution
