import Invokrum.Base.Text

/-!
# Displaying bytes as text

`Path::display` decodes UTF-8 and puts U+FFFD in the place of every longest
start of a sequence that does not go on. A character of at most two bytes is
shown exactly where its encoding stands, whatever surrounds it.
-/

namespace Invokrum.Text

/-! ## Decoding -/

def replacement : Char := '\ufffd'

def isContinuation (b : UInt8) : Bool := 0x80 ≤ b && b ≤ 0xBF

/-- What may be the second byte of a sequence of three or four. -/
def followsLead (lead next : UInt8) : Bool :=
  if lead = 0xE0 then 0xA0 ≤ next && next ≤ 0xBF
  else if lead = 0xED then 0x80 ≤ next && next ≤ 0x9F
  else if lead = 0xF0 then 0x90 ≤ next && next ≤ 0xBF
  else if lead = 0xF4 then 0x80 ≤ next && next ≤ 0x8F
  else isContinuation next

/-- The rest of a sequence, byte after byte, and what stands behind it. -/
def decodeTail (value : Nat) : List (UInt8 → Bool) → Bytes → Char × Bytes
  | [], rest => (Char.ofNat value, rest)
  | _ :: _, [] => (replacement, [])
  | test :: tests, b :: rest =>
      if test b then decodeTail (value * 64 + b.toNat % 64) tests rest
      else (replacement, b :: rest)

/-- The character shown for the sequence that `lead` begins. -/
def decodeNext (lead : UInt8) (rest : Bytes) : Char × Bytes :=
  if lead < 0x80 then (Char.ofNat lead.toNat, rest)
  else if 0xC2 ≤ lead ∧ lead ≤ 0xDF then decodeTail (lead.toNat % 32) [isContinuation] rest
  else if 0xE0 ≤ lead ∧ lead ≤ 0xEF then
    decodeTail (lead.toNat % 16) [followsLead lead, isContinuation] rest
  else if 0xF0 ≤ lead ∧ lead ≤ 0xF4 then
    decodeTail (lead.toNat % 8) [followsLead lead, isContinuation, isContinuation] rest
  else (replacement, rest)

def lossyFuel : Nat → Bytes → List Char
  | 0, _ => []
  | _ + 1, [] => []
  | fuel + 1, lead :: rest =>
      (decodeNext lead rest).1 :: lossyFuel fuel (decodeNext lead rest).2

/-- `path.display()`, character by character. -/
def lossy (bytes : Bytes) : List Char := lossyFuel bytes.length bytes

example : lossy [0x61, 0xC2, 0x9B, 0xE2, 0x82, 0x0A, 0xF0, 0x9F, 0x98, 0x80] =
    ['a', '\u009b', '\ufffd', '\n', '😀'] := by decide

/-! ## Sequences -/

theorem isContinuation_of_followsLead {lead next : UInt8} (h : followsLead lead next = true) :
    isContinuation next = true := by
  revert h
  unfold followsLead isContinuation
  simp only [Bool.and_eq_true, decide_eq_true_eq, UInt8.le_iff_toNat_le, UInt8.reduceToNat]
  split_ifs <;> simp <;> omega

/-- A sequence takes continuation bytes, those it needs or too few. -/
theorem decodeTail_spec {tests : List (UInt8 → Bool)}
    (htests : ∀ test ∈ tests, ∀ b, test b = true → isContinuation b = true)
    (value : Nat) (rest : Bytes) :
    ∃ used tail, rest = used ++ tail ∧ (∀ b ∈ used, isContinuation b = true) ∧
      (decodeTail value tests rest = (replacement, tail) ∨
        List.Forall₂ (fun test b => test b = true) tests used ∧ decodeTail value tests rest =
          (Char.ofNat (used.foldl (fun v b => v * 64 + b.toNat % 64) value), tail)) := by
  induction tests generalizing value rest with
  | nil => exact ⟨[], rest, rfl, by simp, .inr ⟨.nil, rfl⟩⟩
  | cons test tests ih =>
      cases rest with
      | nil => exact ⟨[], [], rfl, by simp, .inl rfl⟩
      | cons b rest =>
          by_cases hb : test b = true
          · obtain ⟨used, tail, rfl, hused, hcases⟩ := ih
              (fun test' h' => htests test' (List.mem_cons_of_mem _ h'))
              (value * 64 + b.toNat % 64) rest
            refine ⟨b :: used, tail, rfl, ?_, ?_⟩
            · rw [List.forall_mem_cons]
              exact ⟨htests test List.mem_cons_self b hb, hused⟩
            · rw [decodeTail, if_pos hb]
              exact hcases.imp id fun h => ⟨.cons hb h.1, h.2⟩
          · refine ⟨[], b :: rest, rfl, by simp, .inl ?_⟩
            rw [decodeTail, if_neg hb]

theorem toNat_ofNat {n : Nat} (h : n < 0xD800 ∨ 0xDFFF < n ∧ n < 0x110000) :
    (Char.ofNat n).toNat = n := by
  rw [Char.ofNat, dif_pos h]
  rfl

/-! ## Short characters -/

/-- A character of at most two bytes. -/
theorem short_encoding {c : Char} (h : c.toNat < 2048) :
    (∃ b : UInt8, String.utf8EncodeChar c = [b] ∧ b.toNat < 128 ∧ c.toNat = b.toNat) ∨
      ∃ lead b : UInt8, String.utf8EncodeChar c = [lead, b] ∧ 0xC2 ≤ lead.toNat ∧
        lead.toNat ≤ 0xDF ∧ isContinuation b = true ∧
        c.toNat = lead.toNat % 32 * 64 + b.toNat % 64 := by
  have hval : c.val.toNat = c.toNat := rfl
  unfold String.utf8EncodeChar
  simp only [hval]
  by_cases hone : c.toNat ≤ 0x7f
  · left
    refine ⟨_, if_pos hone, ?_⟩
    rw [UInt8.toNat_ofNat', Nat.mod_eq_of_lt (by omega)]
    exact ⟨by omega, rfl⟩
  · right
    rw [if_neg hone, if_pos (by omega)]
    refine ⟨_, _, rfl, ?_⟩
    simp only [isContinuation, Bool.and_eq_true, decide_eq_true_eq, UInt8.le_iff_toNat_le,
      UInt8.toNat_ofNat', UInt8.reduceToNat]
    omega

/-- The first byte of such an encoding. -/
theorem short_head {c : Char} (h : c.toNat < 2048) {b : UInt8} {rest : Bytes}
    (hstarts : String.utf8EncodeChar c <+: b :: rest) :
    b.toNat < 128 ∨ 0xC2 ≤ b.toNat ∧ b.toNat ≤ 0xDF := by
  rcases short_encoding h with ⟨b', henc, hlow, _⟩ | ⟨lead, b', henc, hlow, hhigh, _⟩
  · rw [henc, List.cons_prefix_cons] at hstarts
    rw [← hstarts.1]
    exact .inl hlow
  · rw [henc, List.cons_prefix_cons] at hstarts
    rw [← hstarts.1]
    exact .inr ⟨hlow, hhigh⟩

/-- No short encoding begins in the middle of a sequence. -/
theorem infix_continuations {c : Char} (h : c.toNat < 2048) {used tail : Bytes}
    (hused : ∀ b ∈ used, isContinuation b = true) :
    String.utf8EncodeChar c <:+: used ++ tail ↔ String.utf8EncodeChar c <:+: tail := by
  induction used with
  | nil => rfl
  | cons b used ih =>
      rw [List.forall_mem_cons] at hused
      rw [List.cons_append, List.infix_cons_iff, ih hused.2]
      constructor
      · rintro (hstarts | hinfix)
        · have hb := hused.1
          have hhead := short_head h hstarts
          simp only [isContinuation, Bool.and_eq_true, decide_eq_true_eq, UInt8.le_iff_toNat_le,
            UInt8.reduceToNat] at hb
          omega
        · exact hinfix
      · exact .inr

/-- A byte that begins no short encoding. -/
theorem infix_cons_of_head {c : Char} (h : c.toNat < 2048) {b : UInt8} {rest : Bytes}
    (hb : ¬ (b.toNat < 128 ∨ 0xC2 ≤ b.toNat ∧ b.toNat ≤ 0xDF)) :
    String.utf8EncodeChar c <:+: b :: rest ↔ String.utf8EncodeChar c <:+: rest := by
  rw [List.infix_cons_iff]
  constructor
  · rintro (hstarts | hinfix)
    · exact absurd (short_head h hstarts) hb
    · exact hinfix
  · exact .inr

/-! ## What is shown -/

theorem replacement_not_short : ¬ replacement.toNat < 2048 := by decide

/-- Sequences of three and four bytes show no short character. -/
theorem decodeTail_long {c : Char} (h : c.toNat < 2048) {lead : UInt8} {rest : Bytes}
    {tests : List (UInt8 → Bool)} {value : Nat}
    (htests : ∀ test ∈ tests, ∀ b, test b = true → isContinuation b = true)
    (hlong : ∀ used, List.Forall₂ (fun test b => test b = true) tests used →
      2048 ≤ (Char.ofNat (used.foldl (fun v b => v * 64 + b.toNat % 64) value)).toNat)
    (hlead : ¬ (lead.toNat < 128 ∨ 0xC2 ≤ lead.toNat ∧ lead.toNat ≤ 0xDF)) :
    (c = (decodeTail value tests rest).1 ∨
        String.utf8EncodeChar c <:+: (decodeTail value tests rest).2) ↔
      String.utf8EncodeChar c <:+: lead :: rest := by
  obtain ⟨used, tail, rfl, hused, hcases⟩ := decodeTail_spec htests value rest
  rw [infix_cons_of_head h hlead, infix_continuations h hused]
  rcases hcases with heq | ⟨hfull, heq⟩
  · rw [heq]
    constructor
    · rintro (rfl | hinfix)
      · exact absurd h replacement_not_short
      · exact hinfix
    · exact .inr
  · rw [heq]
    constructor
    · rintro (rfl | hinfix)
      · exact absurd h (Nat.not_lt.mpr (hlong used hfull))
      · exact hinfix
    · exact .inr

theorem followsLead_bounds {lead b : UInt8} (h : followsLead lead b = true) :
    0x80 ≤ b.toNat ∧ b.toNat ≤ 0xBF ∧ (lead.toNat = 0xE0 → 0xA0 ≤ b.toNat) ∧
      (lead.toNat = 0xED → b.toNat ≤ 0x9F) ∧ (lead.toNat = 0xF0 → 0x90 ≤ b.toNat) ∧
      (lead.toNat = 0xF4 → b.toNat ≤ 0x8F) := by
  revert h
  unfold followsLead isContinuation
  simp only [← UInt8.toNat_inj, UInt8.reduceToNat]
  split_ifs <;> simp [UInt8.le_iff_toNat_le] <;> omega

theorem continuation_bounds {b : UInt8} (h : isContinuation b = true) :
    0x80 ≤ b.toNat ∧ b.toNat ≤ 0xBF := by
  simpa [isContinuation, UInt8.le_iff_toNat_le] using h

theorem long_of_three {lead : UInt8} (hlow : 0xE0 ≤ lead.toNat) (hhigh : lead.toNat ≤ 0xEF)
    (used : Bytes) (h : List.Forall₂ (fun test b => test b = true)
      [followsLead lead, isContinuation] used) :
    2048 ≤ (Char.ofNat
      (used.foldl (fun v b => v * 64 + b.toNat % 64) (lead.toNat % 16))).toNat := by
  obtain _ | ⟨hone, _ | ⟨htwo, _ | _⟩⟩ := h
  have hone := followsLead_bounds hone
  have htwo := continuation_bounds htwo
  simp only [List.foldl_cons, List.foldl_nil]
  rw [toNat_ofNat] <;> omega

theorem long_of_four {lead : UInt8} (hlow : 0xF0 ≤ lead.toNat) (hhigh : lead.toNat ≤ 0xF4)
    (used : Bytes) (h : List.Forall₂ (fun test b => test b = true)
      [followsLead lead, isContinuation, isContinuation] used) :
    2048 ≤ (Char.ofNat
      (used.foldl (fun v b => v * 64 + b.toNat % 64) (lead.toNat % 8))).toNat := by
  obtain _ | ⟨hone, _ | ⟨htwo, _ | ⟨hthree, _ | _⟩⟩⟩ := h
  have hone := followsLead_bounds hone
  have htwo := continuation_bounds htwo
  have hthree := continuation_bounds hthree
  simp only [List.foldl_cons, List.foldl_nil]
  rw [toNat_ofNat] <;> omega

theorem prefix_one {c : Char} (h : c.toNat < 2048) {lead : UInt8} {rest : Bytes}
    (hlead : lead.toNat < 128) :
    String.utf8EncodeChar c <+: lead :: rest ↔ c = Char.ofNat lead.toNat := by
  have hchar : (Char.ofNat lead.toNat).toNat = lead.toNat := toNat_ofNat (by omega)
  rcases short_encoding h with ⟨b, henc, _, hc⟩ | ⟨first, b, henc, hlow, hhigh, _, hc⟩
  · rw [henc, List.cons_prefix_cons]
    constructor
    · intro hstarts
      rw [← hstarts.1, ← hc, Char.ofNat_toNat]
    · intro heq
      rw [heq, hchar] at hc
      exact ⟨(UInt8.toNat_inj.mp hc).symm, List.nil_prefix⟩
  · rw [henc, List.cons_prefix_cons]
    constructor
    · intro hstarts
      rw [hstarts.1] at hlow
      omega
    · intro heq
      rw [heq, hchar] at hc
      omega

theorem prefix_two {c : Char} (h : c.toNat < 2048) {lead b : UInt8} {after : Bytes}
    (hlow : 0xC2 ≤ lead.toNat) (hhigh : lead.toNat ≤ 0xDF) :
    String.utf8EncodeChar c <+: lead :: b :: after ↔
      isContinuation b = true ∧ c = Char.ofNat (lead.toNat % 32 * 64 + b.toNat % 64) := by
  have hchar : (Char.ofNat (lead.toNat % 32 * 64 + b.toNat % 64)).toNat =
      lead.toNat % 32 * 64 + b.toNat % 64 := toNat_ofNat (by omega)
  rcases short_encoding h with ⟨d, henc, hd, hc⟩ | ⟨first, d, henc, _, _, hcont, hc⟩
  · rw [henc, List.cons_prefix_cons]
    constructor
    · intro hstarts
      rw [hstarts.1] at hd
      omega
    · rintro ⟨_, heq⟩
      rw [heq, hchar] at hc
      omega
  · rw [henc, List.cons_prefix_cons, List.cons_prefix_cons]
    constructor
    · rintro ⟨rfl, rfl, _⟩
      rw [← hc, Char.ofNat_toNat]
      exact ⟨hcont, rfl⟩
    · rintro ⟨hb, heq⟩
      rw [heq, hchar] at hc
      have hb := continuation_bounds hb
      have hd := continuation_bounds hcont
      exact ⟨UInt8.toNat_inj.mp (by omega), UInt8.toNat_inj.mp (by omega), List.nil_prefix⟩

/-- Sequences of two bytes show exactly the characters encoded in two bytes. -/
theorem decodeTail_two {c : Char} (h : c.toNat < 2048) {lead : UInt8} {rest : Bytes}
    (hlow : 0xC2 ≤ lead.toNat) (hhigh : lead.toNat ≤ 0xDF) :
    (c = (decodeTail (lead.toNat % 32) [isContinuation] rest).1 ∨
        String.utf8EncodeChar c <:+: (decodeTail (lead.toNat % 32) [isContinuation] rest).2) ↔
      String.utf8EncodeChar c <:+: lead :: rest := by
  have hother : c ≠ replacement := by
    rintro rfl
    exact replacement_not_short h
  cases rest with
  | nil =>
      rcases short_encoding h with ⟨d, henc, hd, _⟩ | ⟨first, d, henc, _⟩
      · have hne : d ≠ lead := by
          rintro rfl
          omega
        simp [decodeTail, henc, hother, List.infix_cons_iff, hne]
      · simp [decodeTail, henc, hother, List.infix_cons_iff]
  | cons b after =>
      rw [List.infix_cons_iff, prefix_two h hlow hhigh, decodeTail]
      by_cases hb : isContinuation b = true
      · have hhead : ¬ (b.toNat < 128 ∨ 0xC2 ≤ b.toNat ∧ b.toNat ≤ 0xDF) := by
          have hbounds := continuation_bounds hb
          omega
        rw [if_pos hb, infix_cons_of_head h hhead, decodeTail]
        exact or_congr ⟨fun heq => ⟨hb, heq⟩, fun heq => heq.2⟩ Iff.rfl
      · rw [if_neg hb]
        exact or_congr ⟨fun heq => absurd heq hother, fun heq => absurd heq.1 hb⟩ Iff.rfl

/-- One step of the display. -/
theorem decodeNext_spec {c : Char} (h : c.toNat < 2048) (lead : UInt8) (rest : Bytes) :
    (c = (decodeNext lead rest).1 ∨ String.utf8EncodeChar c <:+: (decodeNext lead rest).2) ↔
      String.utf8EncodeChar c <:+: lead :: rest := by
  unfold decodeNext
  simp only [UInt8.lt_iff_toNat_lt, UInt8.le_iff_toNat_le, UInt8.reduceToNat]
  by_cases hone : lead.toNat < 128
  · rw [if_pos hone, List.infix_cons_iff, prefix_one h hone]
  · rw [if_neg hone]
    by_cases htwo : 0xC2 ≤ lead.toNat ∧ lead.toNat ≤ 0xDF
    · rw [if_pos htwo]
      exact decodeTail_two h htwo.1 htwo.2
    · rw [if_neg htwo]
      have hlead : ¬ (lead.toNat < 128 ∨ 0xC2 ≤ lead.toNat ∧ lead.toNat ≤ 0xDF) :=
        not_or.mpr ⟨hone, htwo⟩
      have htests : ∀ test ∈ [followsLead lead, isContinuation], ∀ b,
          test b = true → isContinuation b = true := by
        rw [List.forall_mem_cons, List.forall_mem_singleton]
        exact ⟨fun _ => isContinuation_of_followsLead, fun _ hb => hb⟩
      by_cases hthree : 0xE0 ≤ lead.toNat ∧ lead.toNat ≤ 0xEF
      · rw [if_pos hthree]
        exact decodeTail_long h htests (long_of_three hthree.1 hthree.2) hlead
      · rw [if_neg hthree]
        by_cases hfour : 0xF0 ≤ lead.toNat ∧ lead.toNat ≤ 0xF4
        · rw [if_pos hfour]
          apply decodeTail_long h _ (long_of_four hfour.1 hfour.2) hlead
          intro test htest
          apply htests test
          simpa using htest
        · rw [if_neg hfour, infix_cons_of_head h hlead]
          constructor
          · rintro (rfl | hinfix)
            · exact absurd h replacement_not_short
            · exact hinfix
          · exact .inr

theorem decodeTail_length (value : Nat) (tests : List (UInt8 → Bool)) (rest : Bytes) :
    (decodeTail value tests rest).2.length ≤ rest.length := by
  induction tests generalizing value rest with
  | nil => exact Nat.le_refl _
  | cons test tests ih =>
      cases rest with
      | nil => exact Nat.le_refl _
      | cons b rest =>
          by_cases hb : test b = true
          · rw [decodeTail, if_pos hb, List.length_cons]
            exact Nat.le_succ_of_le (ih _ rest)
          · rw [decodeTail, if_neg hb]

theorem decodeNext_length (lead : UInt8) (rest : Bytes) :
    (decodeNext lead rest).2.length ≤ rest.length := by
  unfold decodeNext
  split_ifs
  · exact Nat.le_refl _
  · exact decodeTail_length _ _ rest
  · exact decodeTail_length _ _ rest
  · exact decodeTail_length _ _ rest
  · exact Nat.le_refl _

/-- A short character is shown exactly where its encoding stands. -/
theorem mem_lossy_iff {c : Char} (h : c.toNat < 2048) {bytes : Bytes} :
    c ∈ lossy bytes ↔ String.utf8EncodeChar c <:+: bytes := by
  have hfuel : ∀ fuel bytes, bytes.length ≤ fuel →
      (c ∈ lossyFuel fuel bytes ↔ String.utf8EncodeChar c <:+: bytes) := by
    intro fuel
    induction fuel with
    | zero =>
        intro bytes hlength
        rw [List.length_eq_zero_iff.mp (Nat.le_zero.mp hlength)]
        simp [lossyFuel]
    | succ fuel ih =>
        intro bytes hlength
        cases bytes with
        | nil => simp [lossyFuel]
        | cons lead rest =>
            have hshort : (decodeNext lead rest).2.length ≤ fuel :=
              Nat.le_trans (decodeNext_length lead rest) (Nat.le_of_succ_le_succ hlength)
            rw [lossyFuel, List.mem_cons, ih _ hshort, decodeNext_spec h]
  exact hfuel bytes.length bytes (Nat.le_refl _)

end Invokrum.Text
