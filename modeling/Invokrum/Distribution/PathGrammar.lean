import Invokrum.Base.Regex
import Invokrum.Distribution.ManifestSize

/-!
# The published path grammar

The bundle schema describes a path by its length and a pattern with lookaheads;
the parser tests bytes and segments. Both come down to the same conditions on
the characters and segments of the text.
-/

namespace Invokrum.Distribution

open Regex

/-! ## The schema -/

/-- `[ -~]` -/
def isPrintable (c : Char) : Bool := 32 ≤ c.toNat && c.toNat ≤ 126

/-- The pattern `^(?=[ -~]+$)(?!/)(?!.*//)(?!.*\\)(?!.*:)(?!.*(?:^|/)\.{1,2}(?:/|$)).*[^/]$`. -/
def pathPattern : Regex :=
  sequence [
    .start,
    .ahead (sequence [plus (.chars isPrintable), .stop]),
    .notAhead (lit '/'),
    .notAhead (sequence [.star dot, lit '/', lit '/']),
    .notAhead (sequence [.star dot, lit '\\']),
    .notAhead (sequence [.star dot, lit ':']),
    .notAhead (sequence [.star dot, .alt .start (lit '/'), lit '.', optional (lit '.'),
      .alt (lit '/') .stop]),
    .star dot,
    .chars (· ≠ '/'),
    .stop]

/-- The `path` definition: `minLength`, `maxLength` and `pattern`. -/
def SchemaPath (value : String) : Prop :=
  1 ≤ value.toList.length ∧ value.toList.length ≤ 1024 ∧ pathPattern.Test value.toList

/-! ## Segments -/

/-- Where a piece of a split text stands: between two separators or ends. -/
theorem mem_split_iff {separator : Char} {text piece : List Char} :
    piece ∈ Text.split separator text ↔ separator ∉ piece ∧ ∃ x y, text = x ++ (piece ++ y) ∧
      (x = [] ∨ ∃ w, x = w ++ [separator]) ∧ (y = [] ∨ ∃ w, y = separator :: w) := by
  constructor
  · intro h
    refine ⟨Text.not_mem_of_mem_split h, ?_⟩
    obtain ⟨front, back, hsplit⟩ := List.append_of_mem h
    have htail : ∃ y, Text.join separator (piece :: back) = piece ++ y ∧
        (y = [] ∨ ∃ w, y = separator :: w) := by
      by_cases hback : back = []
      · exact ⟨[], by rw [hback, List.append_nil]; rfl, .inl rfl⟩
      · exact ⟨_, Text.join_cons separator piece hback, .inr ⟨_, rfl⟩⟩
    obtain ⟨y, hjoin, hy⟩ := htail
    have htext := Text.join_split separator text
    rw [hsplit] at htext
    by_cases hfront : front = []
    · rw [hfront, List.nil_append, hjoin] at htext
      exact ⟨[], y, htext.symm, .inl rfl, hy⟩
    · rw [Text.join_append separator hfront (List.cons_ne_nil _ _), hjoin] at htext
      refine ⟨Text.join separator front ++ [separator], y, ?_, .inr ⟨_, rfl⟩, hy⟩
      rw [← htext, List.append_assoc, List.singleton_append]
  · intro h
    obtain ⟨hpiece, x, y, rfl, hx, hy⟩ := h
    have htail : piece ∈ Text.split separator (piece ++ y) := by
      rcases hy with rfl | ⟨w, rfl⟩
      · rw [List.append_nil, Text.split_of_not_mem hpiece]
        exact List.mem_singleton_self piece
      · rw [Text.split_append, Text.split_of_not_mem hpiece]
        exact List.mem_cons_self
    rcases hx with rfl | ⟨w, rfl⟩
    · exact htail
    · rw [List.append_assoc, List.singleton_append, Text.split_append]
      exact List.mem_append_right _ htail

/-- An empty segment is an empty text, a slash at an end or two slashes in a row. -/
theorem nil_mem_split_iff {text : List Char} : [] ∈ Text.split '/' text ↔
    text = [] ∨ (∃ tail, text = '/' :: tail) ∨ (∃ front, text = front ++ ['/']) ∨
      ∃ front tail, text = front ++ '/' :: '/' :: tail := by
  rw [mem_split_iff]
  constructor
  · intro h
    obtain ⟨_, _, _, rfl, rfl | ⟨front, rfl⟩, rfl | ⟨tail, rfl⟩⟩ := h
    · exact .inl rfl
    · exact .inr (.inl ⟨tail, rfl⟩)
    · exact .inr (.inr (.inl ⟨front, by simp⟩))
    · exact .inr (.inr (.inr ⟨front, tail, by simp⟩))
  · intro h
    refine ⟨List.not_mem_nil, ?_⟩
    rcases h with rfl | ⟨tail, rfl⟩ | ⟨front, rfl⟩ | ⟨front, tail, rfl⟩
    · exact ⟨[], [], rfl, .inl rfl, .inl rfl⟩
    · exact ⟨[], '/' :: tail, rfl, .inl rfl, .inr ⟨tail, rfl⟩⟩
    · exact ⟨front ++ ['/'], [], by simp, .inr ⟨front, rfl⟩, .inl rfl⟩
    · exact ⟨front ++ ['/'], '/' :: tail, by simp, .inr ⟨front, rfl⟩, .inr ⟨tail, rfl⟩⟩

/-! ## The common conditions -/

/-- What both sides ask of a path's characters. -/
structure PathText (text : List Char) : Prop where
  printable : ∀ c ∈ text, isPrintable c = true
  noBackslash : '\\' ∉ text
  noColon : ':' ∉ text
  noEmpty : [] ∉ Text.split '/' text
  noDot : ['.'] ∉ Text.split '/' text
  noDots : ['.', '.'] ∉ Text.split '/' text

theorem PathText.ne_nil {text : List Char} (h : PathText text) : text ≠ [] := by
  intro hnil
  exact h.noEmpty (by simp [hnil, Text.split])

theorem isDot_of_isPrintable {c : Char} (h : isPrintable c = true) : isDot c = true := by
  simp only [isPrintable, Bool.and_eq_true, decide_eq_true_eq] at h
  simp only [isDot, Bool.and_eq_true, decide_eq_true_eq]
  refine ⟨⟨⟨?_, ?_⟩, ?_⟩, ?_⟩ <;> intro hsame <;> subst hsame <;> revert h <;> decide

/-! ## The parser -/

theorem printable_of_bytes {value : String}
    (h : ∀ b ∈ Text.bytes value, b < 128 ∧ Text.isAsciiControl b = false) :
    (∀ c ∈ value.toList, isPrintable c = true) ∧ value.toList.length = Text.byteLength value := by
  obtain ⟨hchars, hlength⟩ := ascii_of_bytes h
  refine ⟨?_, hlength⟩
  intro c hc
  obtain ⟨hlow, hcontrol⟩ := hchars c hc
  simp only [Text.isAsciiControl, Bool.or_eq_false_iff, decide_eq_false_iff_not,
    beq_eq_false_iff_ne, ne_eq, UInt8.lt_iff_toNat_lt, ← UInt8.toNat_inj, UInt8.toNat_ofNat',
    UInt8.reduceToNat] at hcontrol
  simp only [isPrintable, Bool.and_eq_true, decide_eq_true_eq]
  omega

theorem bytes_of_printable {value : String}
    (h : ∀ c ∈ value.toList, isPrintable c = true) :
    (∀ b ∈ Text.bytes value, b < 128 ∧ Text.isAsciiControl b = false) ∧
      value.toList.length = Text.byteLength value := by
  have hrange : ∀ c ∈ value.toList, 32 ≤ c.toNat ∧ c.toNat ≤ 126 := by
    intro c hc
    simpa [isPrintable] using h c hc
  have hascii : ∀ c ∈ value.toList, c.toNat < 128 := by
    intro c hc
    have hlow := hrange c hc
    omega
  have hbytes : Text.bytes value = value.toList.map fun c => c.toNat.toUInt8 :=
    Text.utf8_ascii hascii
  constructor
  · rw [hbytes]
    intro b hb
    obtain ⟨c, hc, rfl⟩ := List.mem_map.mp hb
    have hlow := hrange c hc
    simp only [Text.isAsciiControl, Bool.or_eq_false_iff, decide_eq_false_iff_not,
      beq_eq_false_iff_ne, ne_eq, UInt8.lt_iff_toNat_lt, ← UInt8.toNat_inj, UInt8.toNat_ofNat',
      UInt8.reduceToNat]
    omega
  · rw [Text.byteLength, hbytes, List.length_map]

theorem bundlePathValid_iff {value : String} : bundlePathValid value = true ↔
    value.toList.length ≤ maxBundlePathBytes ∧ PathText value.toList := by
  constructor
  · intro h
    simp only [bundlePathValid, Bool.not_eq_true', Bool.or_eq_false_iff, Bool.not_eq_false',
      decide_eq_false_iff_not, List.all_eq_true, List.any_eq_false, decide_eq_true_eq] at h
    obtain ⟨⟨⟨⟨⟨⟨⟨⟨_, hshort⟩, hascii⟩, _⟩, _⟩, hbackslash⟩, hcolon⟩, hcontrol⟩, hsegments⟩ := h
    obtain ⟨hprintable, hlength⟩ := printable_of_bytes fun b (hb : b ∈ Text.bytes value) =>
      ⟨hascii b hb, by simpa using hcontrol b hb⟩
    have hno : ∀ segment, (segment.isEmpty || segment == ['.'] || segment == ['.', '.']) = true →
        segment ∉ Text.split '/' value.toList := by
      intro segment hbad hmem
      exact hsegments segment hmem hbad
    refine ⟨by omega, hprintable, ?_, ?_, hno _ rfl, hno _ rfl, hno _ rfl⟩
    · simpa using hbackslash
    · simpa using hcolon
  · intro h
    obtain ⟨hshort, htext⟩ := h
    obtain ⟨hbytes, hlength⟩ := bytes_of_printable htext.printable
    have hsegments : ∀ segment ∈ Text.split '/' value.toList, segment ≠ [] := by
      intro segment hmem hnil
      exact htext.noEmpty (hnil ▸ hmem)
    obtain ⟨hempty, hhead, hlast⟩ := Text.ends_of_segments hsegments
    simp only [bundlePathValid, Bool.not_eq_true', Bool.or_eq_false_iff, Bool.not_eq_false',
      decide_eq_false_iff_not, List.all_eq_true, List.any_eq_false, decide_eq_true_eq,
      beq_eq_false_iff_ne, ne_eq, List.isEmpty_eq_false_iff]
    refine ⟨⟨⟨⟨⟨⟨⟨⟨hempty, by omega⟩, fun b hb => (hbytes b hb).1⟩, hhead⟩, hlast⟩, ?_⟩, ?_⟩,
      ?_⟩, ?_⟩
    · simpa using htext.noBackslash
    · simpa using htext.noColon
    · intro b hb
      simp [(hbytes b hb).2]
    · intro segment hmem
      simp only [Bool.or_eq_true, List.isEmpty_iff, beq_iff_eq, not_or]
      refine ⟨⟨hsegments segment hmem, ?_⟩, ?_⟩
      · intro hdot
        exact htext.noDot (hdot ▸ hmem)
      · intro hdots
        exact htext.noDots (hdots ▸ hmem)

/-! ## The pattern -/

theorem test_start {r : Regex} {text : List Char} :
    (Regex.seq .start r).Test text ↔ r.Accepts [] text := by
  simp [Regex.Test]

/-- `(?=[ -~]+$)` -/
theorem accepts_plus_stop {p : Char → Bool} {before rest : List Char} :
    (sequence [plus (.chars p), .stop]).Accepts before rest ↔
      rest ≠ [] ∧ ∀ c ∈ rest, p c = true := by
  rw [sequence_cons, plus, accepts_seq_assoc]
  simp only [sequence_cons, sequence_nil, accepts_seq_chars, accepts_seq_star_chars,
    accepts_seq_stop, accepts_empty, and_true]
  constructor
  · intro h
    obtain ⟨c, _, rfl, hc, left, _, rfl, hleft, rfl⟩ := h
    rw [List.append_nil]
    exact ⟨List.cons_ne_nil c left, List.forall_mem_cons.mpr ⟨hc, hleft⟩⟩
  · intro h
    obtain ⟨hne, hall⟩ := h
    cases rest with
    | nil => exact absurd rfl hne
    | cons c tail =>
        rw [List.forall_mem_cons] at hall
        exact ⟨c, tail, rfl, hall.1, tail, [], (List.append_nil tail).symm, hall.2, rfl⟩

/-- `.*` reaches any place of a text without line terminators. -/
theorem accepts_dots {r : Regex} {before text : List Char} (h : ∀ c ∈ text, isDot c = true) :
    (Regex.seq (.star dot) r).Accepts before text ↔
      ∃ left right, text = left ++ right ∧ r.Accepts (before ++ left) right :=
  accepts_star_all h

theorem accepts_dots_lit {c : Char} {text : List Char} (h : ∀ d ∈ text, isDot d = true) :
    (sequence [.star dot, lit c]).Accepts [] text ↔ c ∈ text := by
  rw [sequence_cons, accepts_dots h, List.mem_iff_append]
  simp

theorem accepts_dots_twice {c : Char} {text : List Char} (h : ∀ d ∈ text, isDot d = true) :
    (sequence [.star dot, lit c, lit c]).Accepts [] text ↔
      ∃ front tail, text = front ++ c :: c :: tail := by
  rw [sequence_cons, accepts_dots h]
  simp

/-- A segment `piece` begins here. -/
def SegmentAt (piece rest : List Char) : Prop :=
  ∃ y, rest = piece ++ y ∧ (y = [] ∨ ∃ w, y = '/' :: w)

theorem mem_split_slash {piece text : List Char} (hpiece : '/' ∉ piece) :
    piece ∈ Text.split '/' text ↔
      SegmentAt piece text ∨ ∃ w rest, text = w ++ '/' :: rest ∧ SegmentAt piece rest := by
  rw [mem_split_iff]
  constructor
  · intro h
    obtain ⟨_, _, y, rfl, rfl | ⟨w, rfl⟩, hy⟩ := h
    · exact .inl ⟨y, rfl, hy⟩
    · exact .inr ⟨w, piece ++ y, by simp, y, rfl, hy⟩
  · intro h
    refine ⟨hpiece, ?_⟩
    rcases h with ⟨y, rfl, hy⟩ | ⟨w, _, rfl, y, rfl, hy⟩
    · exact ⟨[], y, rfl, .inl rfl, hy⟩
    · exact ⟨w ++ ['/'], y, by simp, .inr ⟨w, rfl⟩, hy⟩

/-- `\.{1,2}(?:/|$)` -/
theorem accepts_dots_end {before rest : List Char} :
    (sequence [lit '.', optional (lit '.'), .alt (lit '/') .stop]).Accepts before rest ↔
      SegmentAt ['.'] rest ∨ SegmentAt ['.', '.'] rest := by
  simp only [sequence_cons, sequence_nil, Regex.optional, accepts_seq_alt, accepts_seq_lit,
    accepts_seq_empty, accepts_seq_stop, accepts_empty, and_true]
  constructor
  · intro h
    obtain ⟨_, rfl, ⟨_, rfl, ⟨w, rfl⟩ | rfl⟩ | ⟨w, rfl⟩ | rfl⟩ := h
    · exact .inr ⟨'/' :: w, rfl, .inr ⟨w, rfl⟩⟩
    · exact .inr ⟨[], rfl, .inl rfl⟩
    · exact .inl ⟨'/' :: w, rfl, .inr ⟨w, rfl⟩⟩
    · exact .inl ⟨[], rfl, .inl rfl⟩
  · intro h
    rcases h with ⟨y, rfl, hy⟩ | ⟨y, rfl, hy⟩
    · exact ⟨y, rfl, .inr hy.symm⟩
    · exact ⟨'.' :: y, rfl, .inl ⟨y, rfl, hy.symm⟩⟩

/-- `.*(?:^|/)\.{1,2}(?:/|$)` finds the segments `.` and `..`. -/
theorem accepts_dot_segment {text : List Char} (h : ∀ c ∈ text, isDot c = true) :
    (sequence [.star dot, .alt .start (lit '/'), lit '.', optional (lit '.'),
      .alt (lit '/') .stop]).Accepts [] text ↔
      ['.'] ∈ Text.split '/' text ∨ ['.', '.'] ∈ Text.split '/' text := by
  rw [sequence_cons, accepts_dots h, mem_split_slash (by decide), mem_split_slash (by decide)]
  constructor
  · intro hex
    obtain ⟨left, right, rfl, hright⟩ := hex
    rw [sequence_cons, accepts_seq_alt, accepts_seq_start, accepts_seq_lit] at hright
    rcases hright with ⟨hleft, hend⟩ | ⟨tail, rfl, hend⟩
    · rw [List.nil_append] at hleft
      rw [hleft, List.nil_append]
      exact (accepts_dots_end.mp hend).imp .inl .inl
    · exact (accepts_dots_end.mp hend).imp (fun hdot => .inr ⟨left, tail, rfl, hdot⟩)
        fun hdots => .inr ⟨left, tail, rfl, hdots⟩
  · intro hex
    have hstart : (SegmentAt ['.'] text ∨ SegmentAt ['.', '.'] text) ∨
        ∃ w rest, text = w ++ '/' :: rest ∧ (SegmentAt ['.'] rest ∨ SegmentAt ['.', '.'] rest) := by
      rcases hex with (hdot | ⟨w, rest, htext, hdot⟩) | hdots | ⟨w, rest, htext, hdots⟩
      · exact .inl (.inl hdot)
      · exact .inr ⟨w, rest, htext, .inl hdot⟩
      · exact .inl (.inr hdots)
      · exact .inr ⟨w, rest, htext, .inr hdots⟩
    rcases hstart with hhere | ⟨w, rest, htext, hthere⟩
    · refine ⟨[], text, rfl, ?_⟩
      rw [sequence_cons, accepts_seq_alt, accepts_seq_start]
      exact .inl ⟨rfl, accepts_dots_end.mpr hhere⟩
    · refine ⟨w, '/' :: rest, htext, ?_⟩
      rw [sequence_cons, accepts_seq_alt, accepts_seq_lit]
      exact .inr ⟨rest, rfl, accepts_dots_end.mpr hthere⟩

/-- `.*[^/]$` -/
theorem accepts_last {text : List Char} (h : ∀ c ∈ text, isDot c = true) :
    (sequence [.star dot, .chars (· ≠ '/'), .stop]).Accepts [] text ↔
      text ≠ [] ∧ ¬ ∃ front, text = front ++ ['/'] := by
  rw [sequence_cons, accepts_dots h]
  simp only [sequence_cons, sequence_nil, accepts_seq_chars, accepts_seq_stop, accepts_empty,
    and_true, decide_eq_true_eq]
  constructor
  · intro hex
    obtain ⟨left, _, rfl, c, _, rfl, hc, rfl⟩ := hex
    refine ⟨by simp, ?_⟩
    intro hslash
    obtain ⟨front, heq⟩ := hslash
    exact hc (List.cons.inj (List.append_inj' heq rfl).2).1
  · intro hex
    obtain ⟨hne, hslash⟩ := hex
    refine ⟨text.dropLast, [text.getLast hne], (List.dropLast_append_getLast hne).symm,
      text.getLast hne, [], rfl, ?_, rfl⟩
    intro hlast
    exact hslash ⟨text.dropLast, by rw [← hlast, List.dropLast_append_getLast hne]⟩

theorem pathPattern_iff {text : List Char} : pathPattern.Test text ↔ PathText text := by
  have hreduce : pathPattern.Test text ↔
      (text ≠ [] ∧ ∀ c ∈ text, isPrintable c = true) ∧ (¬ ∃ tail, text = '/' :: tail) ∧
      (¬ (sequence [.star dot, lit '/', lit '/']).Accepts [] text) ∧
      (¬ (sequence [.star dot, lit '\\']).Accepts [] text) ∧
      (¬ (sequence [.star dot, lit ':']).Accepts [] text) ∧
      (¬ (sequence [.star dot, .alt .start (lit '/'), lit '.', optional (lit '.'),
        .alt (lit '/') .stop]).Accepts [] text) ∧
      (sequence [.star dot, .chars (· ≠ '/'), .stop]).Accepts [] text := by
    rw [pathPattern, sequence_cons, test_start, sequence_cons, accepts_seq_ahead,
      accepts_plus_stop]
    simp only [sequence_cons (.notAhead _), accepts_seq_notAhead, accepts_lit]
  rw [hreduce]
  constructor
  · intro h
    obtain ⟨⟨hne, hprintable⟩, hhead, htwice, hbackslash, hcolon, hdots, hlast⟩ := h
    have hdot : ∀ c ∈ text, isDot c = true := fun c hc => isDot_of_isPrintable (hprintable c hc)
    rw [accepts_dots_twice hdot] at htwice
    rw [accepts_dots_lit hdot] at hbackslash hcolon
    rw [accepts_dot_segment hdot, not_or] at hdots
    rw [accepts_last hdot] at hlast
    refine ⟨hprintable, hbackslash, hcolon, ?_, hdots.1, hdots.2⟩
    rw [nil_mem_split_iff]
    rintro (hnil | hslash | hend | hmiddle)
    · exact hne hnil
    · exact hhead hslash
    · exact hlast.2 hend
    · exact htwice hmiddle
  · intro h
    have hdot : ∀ c ∈ text, isDot c = true := fun c hc => isDot_of_isPrintable (h.printable c hc)
    have hempty := h.noEmpty
    rw [nil_mem_split_iff, not_or, not_or, not_or] at hempty
    rw [accepts_dots_twice hdot, accepts_dots_lit hdot, accepts_dots_lit hdot,
      accepts_dot_segment hdot, accepts_last hdot, not_or]
    exact ⟨⟨h.ne_nil, h.printable⟩, hempty.2.1, hempty.2.2.2, h.noBackslash, h.noColon,
      ⟨h.noDot, h.noDots⟩, hempty.1, hempty.2.2.1⟩

/-! ## Agreement -/

/-- The parser takes exactly the texts of the published definition. -/
theorem parse_iff_schemaPath (value : String) :
    (∃ path, BundlePath.parse value = .ok path) ↔ SchemaPath value := by
  have hparse : (∃ path, BundlePath.parse value = .ok path) ↔ bundlePathValid value = true := by
    constructor
    · intro h
      obtain ⟨path, hpath⟩ := h
      rw [← BundlePath.parse_eq_ok.mp hpath]
      exact path.valid
    · intro h
      exact ⟨⟨value, h⟩, BundlePath.parse_eq_ok.mpr rfl⟩
  rw [hparse, bundlePathValid_iff, SchemaPath, pathPattern_iff]
  constructor
  · intro h
    exact ⟨List.length_pos_iff.mpr h.2.ne_nil, h.1, h.2⟩
  · intro h
    exact ⟨h.2.1, h.2.2⟩

end Invokrum.Distribution
