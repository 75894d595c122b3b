import Invokrum.Base.JsonGrammar
import Invokrum.Base.Machine
import Invokrum.Base.Outcome

/-!
# The depth scan of requests

A request is scanned byte by byte for its nesting before it is parsed. On a
JSON text the scan returns normally exactly when the document the text denotes
nests at most as deep as allowed.
-/

namespace Invokrum.Rpc

open JsonGrammar Machine Outcome
open Text (Bytes)

/-! ## The scan -/

structure DepthState where
  depth : Nat
  inString : Bool
  escaped : Bool

/-- `a.saturating_add(b)` on machine words. -/
def saturatingAdd (a b : Nat) : Nat := min (a + b) (wordSize - 1)

def depthExceeded : String := "request exceeds the configured JSON depth limit"

/-- One byte of the scan. -/
def depthStep (maximumDepth : Nat) (s : DepthState) (byte : UInt8) : Except String DepthState :=
  if s.inString then
    if s.escaped then .ok { s with escaped := false }
    else if byte = 92 then .ok { s with escaped := true }
    else if byte = 34 then .ok { s with inString := false }
    else .ok s
  else if byte = 34 then .ok { s with inString := true }
  else if byte = 123 ∨ byte = 91 then
    let depth := saturatingAdd s.depth 1
    if maximumDepth < depth then .error depthExceeded else .ok { s with depth := depth }
  else if byte = 125 ∨ byte = 93 then .ok { s with depth := s.depth - 1 }
  else .ok s

def validateJsonDepth (bytes : Bytes) (maximumDepth : Nat) : Except String Unit := do
  let _ ← bytes.foldlM (depthStep maximumDepth) ⟨0, false, false⟩
  .ok ()

/-! ## Single characters -/

def outside (depth : Nat) : DepthState := ⟨depth, false, false⟩

def inside (depth : Nat) : DepthState := ⟨depth, true, false⟩

/-- The scan over the bytes of a text. -/
def scan (maximumDepth : Nat) (s : DepthState) (cs : List Char) : Except String DepthState :=
  (Text.utf8 cs).foldlM (depthStep maximumDepth) s

section Scan

variable {maximumDepth depth : Nat}

theorem scan_append {s s' : DepthState} {xs : List Char} (h : scan maximumDepth s xs = .ok s')
    (ys : List Char) : scan maximumDepth s (xs ++ ys) = scan maximumDepth s' ys := by
  unfold scan at h ⊢
  rw [Text.utf8_append, List.foldlM_append, h]
  rfl

theorem scan_append_error {s : DepthState} {message : String} {xs : List Char}
    (h : scan maximumDepth s xs = .error message) (ys : List Char) :
    scan maximumDepth s (xs ++ ys) = .error message := by
  unfold scan at h ⊢
  rw [Text.utf8_append, List.foldlM_append, h]
  rfl

theorem scan_ascii {s : DepthState} {c : Char} (h : c.toNat < 128) :
    scan maximumDepth s [c] = depthStep maximumDepth s c.toNat.toUInt8 := by
  unfold scan
  rw [Text.utf8_ascii (by simpa using h)]
  simp

/-- A character the scan passes over outside strings. -/
def IsNeutral (c : Char) : Prop :=
  c.toNat < 128 ∧ c ≠ '"' ∧ c ≠ '{' ∧ c ≠ '[' ∧ c ≠ '}' ∧ c ≠ ']'

theorem byte_inj {c d : Char} (hc : c.toNat < 128) (hd : d.toNat < 128)
    (h : c.toNat.toUInt8 = d.toNat.toUInt8) : c = d := by
  have hnat := congrArg UInt8.toNat h
  simp only [UInt8.toNat_ofNat'] at hnat
  exact Char.toNat_inj.mp (by omega)

theorem scan_neutral {cs : List Char} (h : ∀ c ∈ cs, IsNeutral c) :
    scan maximumDepth (outside depth) cs = .ok (outside depth) := by
  induction cs with
  | nil => rfl
  | cons c cs ih =>
      obtain ⟨hascii, hquote, hbrace, hbracket, hbrace', hbracket'⟩ := h c List.mem_cons_self
      have hne : ∀ d : Char, d.toNat < 128 → c ≠ d → c.toNat.toUInt8 ≠ d.toNat.toUInt8 :=
        fun d hd hcd heq => hcd (byte_inj hascii hd heq)
      have hhead : scan maximumDepth (outside depth) [c] = .ok (outside depth) := by
        rw [scan_ascii hascii]
        have h34 : c.toNat.toUInt8 ≠ 34 := hne '"' (by decide) hquote
        have h123 : c.toNat.toUInt8 ≠ 123 := hne '{' (by decide) hbrace
        have h91 : c.toNat.toUInt8 ≠ 91 := hne '[' (by decide) hbracket
        have h125 : c.toNat.toUInt8 ≠ 125 := hne '}' (by decide) hbrace'
        have h93 : c.toNat.toUInt8 ≠ 93 := hne ']' (by decide) hbracket'
        unfold depthStep outside
        rw [if_neg (by simp), if_neg h34, if_neg (not_or.mpr ⟨h123, h91⟩),
          if_neg (not_or.mpr ⟨h125, h93⟩)]
      exact (scan_append hhead cs).trans (ih fun d hd => h d (List.mem_cons_of_mem c hd))

theorem scan_open {bracket : Char} (hbracket : bracket = '[' ∨ bracket = '{')
    (hword : depth + 1 < wordSize) :
    scan maximumDepth (outside depth) [bracket] =
      if depth + 1 ≤ maximumDepth then .ok (outside (depth + 1)) else .error depthExceeded := by
  have hsaturating : saturatingAdd depth 1 = depth + 1 := by
    unfold saturatingAdd
    omega
  have hstep : scan maximumDepth (outside depth) [bracket] =
      if maximumDepth < depth + 1 then .error depthExceeded else .ok (outside (depth + 1)) := by
    rcases hbracket with rfl | rfl
    · rw [scan_ascii (by decide), ← hsaturating]
      rfl
    · rw [scan_ascii (by decide), ← hsaturating]
      rfl
  rw [hstep]
  by_cases hlt : maximumDepth < depth + 1
  · rw [if_pos hlt, if_neg (Nat.not_le.mpr hlt)]
  · rw [if_neg hlt, if_pos (Nat.not_lt.mp hlt)]

theorem scan_close {bracket : Char} (hbracket : bracket = ']' ∨ bracket = '}') :
    scan maximumDepth (outside (depth + 1)) [bracket] = .ok (outside depth) := by
  rcases hbracket with rfl | rfl
  · rw [scan_ascii (by decide)]
    rfl
  · rw [scan_ascii (by decide)]
    rfl

/-! ## Strings -/

/-- Inside a string only quotes and backslashes change the state. -/
theorem scan_plain {c : Char} (hquote : c ≠ '"') (hbackslash : c ≠ '\\') :
    scan maximumDepth (inside depth) [c] = .ok (inside depth) := by
  have hstay : ∀ bytes : Bytes, (∀ b ∈ bytes, b ≠ 92 ∧ b ≠ 34) →
      bytes.foldlM (depthStep maximumDepth) (inside depth) = .ok (inside depth) := by
    intro bytes hbytes
    induction bytes with
    | nil => rfl
    | cons b bytes ih =>
        have hb := hbytes b List.mem_cons_self
        have hstep : depthStep maximumDepth (inside depth) b = .ok (inside depth) := by
          unfold depthStep inside
          rw [if_pos rfl, if_neg (by simp), if_neg hb.1, if_neg hb.2]
        rw [List.foldlM_cons, hstep]
        exact ih fun b' hb' => hbytes b' (List.mem_cons_of_mem b hb')
  apply hstay
  intro b hb
  rw [Text.utf8_cons, Text.utf8_nil, List.append_nil] at hb
  rcases Text.utf8EncodeChar_cases c with ⟨hascii, hbytes⟩ | ⟨_, hbytes⟩
  · rw [hbytes, List.mem_singleton] at hb
    subst hb
    exact ⟨fun heq => hbackslash (byte_inj hascii (by decide) heq),
      fun heq => hquote (byte_inj hascii (by decide) heq)⟩
  · have hlow := hbytes b hb
    constructor
    · intro heq
      rw [heq] at hlow
      exact absurd hlow (by decide)
    · intro heq
      rw [heq] at hlow
      exact absurd hlow (by decide)

theorem scan_plains {cs : List Char} (h : ∀ c ∈ cs, c ≠ '"' ∧ c ≠ '\\') :
    scan maximumDepth (inside depth) cs = .ok (inside depth) := by
  induction cs with
  | nil => rfl
  | cons c cs ih =>
      have hc := h c List.mem_cons_self
      exact (scan_append (scan_plain hc.1 hc.2) cs).trans
        (ih fun d hd => h d (List.mem_cons_of_mem c hd))

/-- The character after a backslash is passed over, whatever it is. -/
theorem scan_escaped {c : Char} (h : c.toNat < 128) :
    scan maximumDepth (inside depth) ['\\', c] = .ok (inside depth) := by
  have hbackslash : scan maximumDepth (inside depth) ['\\'] = .ok ⟨depth, true, true⟩ := by
    rw [scan_ascii (by decide)]
    rfl
  refine (scan_append hbackslash [c]).trans ?_
  rw [scan_ascii h]
  rfl

theorem escapeLetter_ascii {letter c : Char} (h : escapeLetter letter = some c) :
    letter.toNat < 128 := by
  unfold escapeLetter at h
  repeat' split at h
  all_goals first
    | (subst_vars; decide)
    | cases h

theorem hexDigit_plain {c : Char} (h : IsHexDigit c) : c ≠ '"' ∧ c ≠ '\\' := by
  constructor
  · intro heq
    rw [heq] at h
    exact absurd h (by unfold IsHexDigit; decide)
  · intro heq
    rw [heq] at h
    exact absurd h (by unfold IsHexDigit; decide)

theorem scan_codeUnit {digits : List Char} {unit : Nat} (h : CodeUnit digits unit) :
    scan maximumDepth (inside depth) ('\\' :: 'u' :: digits) = .ok (inside depth) :=
  (scan_append (scan_escaped (by decide)) digits).trans
    (scan_plains fun c hc => hexDigit_plain (h.2.1 c hc))

theorem scan_unescapes {body s : List Char} (h : Unescapes body s) :
    scan maximumDepth (inside depth) body = .ok (inside depth) := by
  induction h with
  | nil => rfl
  | plain _ hquote hbackslash _ ih => exact (scan_append (scan_plain hquote hbackslash) _).trans ih
  | letter hletter _ ih =>
      exact (scan_append (scan_escaped (escapeLetter_ascii hletter)) _).trans ih
  | unit hunit _ _ _ ih => exact (scan_append (scan_codeUnit hunit) _).trans ih
  | pair hhigh _ hlow _ _ ih =>
      exact (scan_append (scan_codeUnit hhigh) _).trans
        ((scan_append (scan_codeUnit hlow) _).trans ih)
  | lone hunit _ _ ih => exact (scan_append (scan_codeUnit hunit) _).trans ih

/-- A whole string leaves the state as it was. -/
theorem scan_quoted {cs : List Char} {s : String} (h : Quoted cs s) :
    scan maximumDepth (outside depth) cs = .ok (outside depth) := by
  obtain ⟨hbody⟩ := h
  have hopen : scan maximumDepth (outside depth) ['"'] = .ok (inside depth) := by
    rw [scan_ascii (by decide)]
    rfl
  have hclose : scan maximumDepth (inside depth) ['"'] = .ok (outside depth) := by
    rw [scan_ascii (by decide)]
    rfl
  exact (scan_append hopen _).trans ((scan_append (scan_unescapes hbody) _).trans hclose)

/-! ## Documents -/

/-- The nesting below the brackets a derivation does not include. -/
def contentNesting : Symbol → Json → Nat
  | .value, j => j.nesting
  | .items, .array items => Json.nestingItems items
  | .members, .object members => Json.nestingMembers members
  | _, _ => 0

theorem neutral_of_space {cs : List Char} (h : Space cs) : ∀ c ∈ cs, IsNeutral c := by
  intro c hc
  rcases h c hc with rfl | rfl | rfl | rfl <;> (unfold IsNeutral; decide)

theorem neutral_of_digit {c : Char} (h : c.isDigit = true) : IsNeutral c := by
  have hhigh : c.toNat ≤ 57 := by
    simp only [Char.isDigit, Bool.and_eq_true, decide_eq_true_eq, UInt32.le_iff_toNat_le] at h
    exact h.2
  refine ⟨by omega, ?_, ?_, ?_, ?_, ?_⟩ <;>
    · intro heq
      rw [heq] at h
      exact absurd h (by decide)

theorem neutral_of_letters {cs : List Char} (h : ∀ c ∈ cs, 97 ≤ c.toNat ∧ c.toNat ≤ 122) :
    ∀ c ∈ cs, IsNeutral c := by
  intro c hc
  have hletter := h c hc
  refine ⟨by omega, ?_, ?_, ?_, ?_, ?_⟩ <;>
    · intro heq
      rw [heq] at hletter
      exact absurd hletter (by decide)

theorem neutral_of_number {sign integer fraction exponent : List Char}
    (hsign : sign = [] ∨ sign = ['-']) (hinteger : Integer integer) (hfraction : Fraction fraction)
    (hexponent : Exponent exponent) :
    ∀ c ∈ sign ++ integer ++ fraction ++ exponent, IsNeutral c := by
  have hdigits : ∀ {digits : List Char}, Digits digits → ∀ c ∈ digits, IsNeutral c :=
    fun hdigits c hc => neutral_of_digit (hdigits.2 c hc)
  have hmark : ∀ c ∈ ['-', '+', '.', 'e', 'E', '0'], IsNeutral c := by
    intro c hc
    simp only [List.mem_cons, List.not_mem_nil, or_false] at hc
    rcases hc with rfl | rfl | rfl | rfl | rfl | rfl <;> (unfold IsNeutral; decide)
  intro c hc
  simp only [List.mem_append] at hc
  rcases hc with ((hc | hc) | hc) | hc
  · rcases hsign with rfl | rfl
    · cases hc
    · exact hmark c (by simp at hc; simp [hc])
  · rcases hinteger with rfl | ⟨hinteger, _⟩
    · exact hmark c (by simp at hc; simp [hc])
    · exact hdigits hinteger c hc
  · rcases hfraction with rfl | ⟨digits, hfraction, rfl⟩
    · cases hc
    · rcases List.mem_cons.mp hc with rfl | hc
      · exact hmark _ (by simp)
      · exact hdigits hfraction c hc
  · rcases hexponent with rfl | ⟨mark, sign, digits, hletter, hsign, hexponent, rfl⟩
    · cases hc
    · rcases List.mem_cons.mp hc with rfl | hc
      · rcases hletter with rfl | rfl <;> exact hmark _ (by simp)
      · rcases List.mem_append.mp hc with hc | hc
        · rcases hsign with rfl | rfl | rfl
          · cases hc
          · exact hmark c (by simp at hc; simp [hc])
          · exact hmark c (by simp at hc; simp [hc])
        · exact hdigits hexponent c hc

/-- The outcome of a part of a document that nests `nesting` deep. -/
def scanned (maximumDepth depth nesting : Nat) : Except String DepthState :=
  if depth + nesting ≤ maximumDepth then .ok (outside depth) else .error depthExceeded

theorem nesting_numberValue (sign integer fraction exponent : List Char) :
    (numberValue sign integer fraction exponent).nesting = 0 := by
  unfold numberValue
  dsimp only
  split
  · rfl
  · split <;> rfl

/-- One part after another nests as deep as the deeper of the two. -/
theorem scanned_append {xs ys : List Char} {m n : Nat}
    (hxs : scan maximumDepth (outside depth) xs = scanned maximumDepth depth m)
    (hys : scan maximumDepth (outside depth) ys = scanned maximumDepth depth n) :
    scan maximumDepth (outside depth) (xs ++ ys) = scanned maximumDepth depth (max m n) := by
  unfold scanned at *
  by_cases hm : depth + m ≤ maximumDepth
  · rw [if_pos hm] at hxs
    rw [scan_append hxs, hys]
    by_cases hn : depth + n ≤ maximumDepth
    · rw [if_pos hn, if_pos (by omega)]
    · rw [if_neg hn, if_neg (by omega)]
  · rw [if_neg hm] at hxs
    rw [scan_append_error hxs, if_neg (by omega)]

/-- Brackets add one to the nesting of their contents. -/
theorem scanned_brackets {opening closing : Char} {cs : List Char} {n : Nat}
    (hopening : opening = '[' ∨ opening = '{') (hclosing : closing = ']' ∨ closing = '}')
    (hword : depth + 1 < wordSize)
    (hcs : depth + 1 ≤ maximumDepth →
      scan maximumDepth (outside (depth + 1)) cs = scanned maximumDepth (depth + 1) n) :
    scan maximumDepth (outside depth) (opening :: (cs ++ [closing])) =
      scanned maximumDepth depth (1 + n) := by
  have hopen := @scan_open maximumDepth depth opening hopening hword
  unfold scanned at *
  by_cases hdepth : depth + 1 ≤ maximumDepth
  · rw [if_pos hdepth] at hopen
    have hinner := hcs hdepth
    refine (scan_append hopen (cs ++ [closing])).trans ?_
    by_cases hn : depth + 1 + n ≤ maximumDepth
    · rw [if_pos hn] at hinner
      rw [scan_append hinner, scan_close hclosing, if_pos (by omega)]
    · rw [if_neg hn] at hinner
      rw [scan_append_error hinner, if_neg (by omega)]
  · rw [if_neg hdepth] at hopen
    rw [if_neg (by omega)]
    exact scan_append_error hopen (cs ++ [closing])

/-- The scan of a derivation: it passes exactly when the brackets it goes into
stay within the maximum. -/
theorem scan_derives {symbol : Symbol} {cs : List Char} {j : Json} (h : Derives symbol cs j) :
    ∀ depth, depth ≤ maximumDepth → depth + cs.length < wordSize →
      scan maximumDepth (outside depth) cs =
        scanned maximumDepth depth (contentNesting symbol j) := by
  have hflat : ∀ {depth : Nat} {cs : List Char}, depth ≤ maximumDepth →
      scan maximumDepth (outside depth) cs = .ok (outside depth) →
      scan maximumDepth (outside depth) cs = scanned maximumDepth depth 0 := by
    intro depth cs hdepth hscan
    rw [hscan, scanned, if_pos (by omega)]
  have hspaces : ∀ {depth : Nat} {cs : List Char}, depth ≤ maximumDepth → Space cs →
      scan maximumDepth (outside depth) cs = scanned maximumDepth depth 0 :=
    fun hdepth hspace => hflat hdepth (scan_neutral (neutral_of_space hspace))
  have hcomma : ∀ {depth : Nat}, depth ≤ maximumDepth →
      scan maximumDepth (outside depth) [','] = scanned maximumDepth depth 0 :=
    fun hdepth => hflat hdepth (scan_neutral (by simp [IsNeutral]))
  have hmark : ∀ {depth : Nat}, depth ≤ maximumDepth →
      scan maximumDepth (outside depth) [':'] = scanned maximumDepth depth 0 :=
    fun hdepth => hflat hdepth (scan_neutral (by simp [IsNeutral]))
  induction h with
  | null =>
      intro depth hdepth _
      exact hflat hdepth (scan_neutral (neutral_of_letters (by simp)))
  | true =>
      intro depth hdepth _
      exact hflat hdepth (scan_neutral (neutral_of_letters (by simp)))
  | false =>
      intro depth hdepth _
      exact hflat hdepth (scan_neutral (neutral_of_letters (by simp)))
  | number hsign hinteger hfraction hexponent =>
      intro depth hdepth _
      rw [contentNesting, nesting_numberValue]
      exact hflat hdepth (scan_neutral (neutral_of_number hsign hinteger hfraction hexponent))
  | string hquoted =>
      intro depth hdepth _
      exact hflat hdepth (scan_quoted hquoted)
  | emptyArray hspace =>
      intro depth hdepth hword
      rw [List.length_cons] at hword
      exact scanned_brackets (.inl rfl) (.inl rfl) (by omega) fun hinner => hspaces hinner hspace
  | array _ ih =>
      intro depth hdepth hword
      rw [List.length_cons, List.length_append, List.length_singleton] at hword
      exact scanned_brackets (.inl rfl) (.inl rfl) (by omega) fun hinner =>
        ih (depth + 1) hinner (by omega)
  | emptyObject hspace =>
      intro depth hdepth hword
      rw [List.length_cons] at hword
      exact scanned_brackets (.inr rfl) (.inr rfl) (by omega) fun hinner => hspaces hinner hspace
  | object _ ih =>
      intro depth hdepth hword
      rw [List.length_cons, List.length_append, List.length_singleton] at hword
      exact scanned_brackets (.inr rfl) (.inr rfl) (by omega) fun hinner =>
        ih (depth + 1) hinner (by omega)
  | oneItem hbefore _ hafter ih =>
      intro depth hdepth hword
      simp only [List.length_append] at hword
      have hitem := ih depth hdepth (by omega)
      have hall := scanned_append (scanned_append (hspaces hdepth hbefore) hitem)
        (hspaces hdepth hafter)
      simpa [contentNesting, Json.nestingItems] using hall
  | moreItems hbefore _ hafter _ ih ihrest =>
      intro depth hdepth hword
      simp only [List.length_append, List.length_cons] at hword
      have hitem := ih depth hdepth (by omega)
      have hrest := ihrest depth hdepth (by omega)
      have hall := scanned_append (scanned_append (scanned_append (hspaces hdepth hbefore) hitem)
        (hspaces hdepth hafter)) (scanned_append (hcomma hdepth) hrest)
      simpa [contentNesting, Json.nestingItems] using hall
  | oneMember hbefore hname hbetween hcolon _ hafter ih =>
      intro depth hdepth hword
      simp only [List.length_append, List.length_cons] at hword
      have hvalue := ih depth hdepth (by omega)
      have hkey := scanned_append (scanned_append (scanned_append (hspaces hdepth hbefore)
        (hflat hdepth (scan_quoted hname))) (hspaces hdepth hbetween)) (hmark hdepth)
      have hall := scanned_append hkey (scanned_append
        (scanned_append (hspaces hdepth hcolon) hvalue) (hspaces hdepth hafter))
      simpa [contentNesting, Json.nestingMembers] using hall
  | moreMembers hbefore hname hbetween hcolon _ hafter _ ih ihrest =>
      intro depth hdepth hword
      simp only [List.length_append, List.length_cons] at hword
      have hvalue := ih depth hdepth (by omega)
      have hrest := ihrest depth hdepth (by omega)
      have hkey := scanned_append (scanned_append (scanned_append (hspaces hdepth hbefore)
        (hflat hdepth (scan_quoted hname))) (hspaces hdepth hbetween)) (hmark hdepth)
      have hall := scanned_append hkey (scanned_append (scanned_append
        (scanned_append (hspaces hdepth hcolon) hvalue) (hspaces hdepth hafter))
        (scanned_append (hcomma hdepth) hrest))
      simpa [contentNesting, Json.nestingMembers] using hall

end Scan

theorem validateJsonDepth_eq_ok {text : String} {j : Json} (h : Document text.toList j)
    (hlength : (Text.bytes text).length < wordSize) (maximumDepth : Nat) :
    validateJsonDepth (Text.bytes text) maximumDepth = .ok () ↔ j.nesting ≤ maximumDepth := by
  obtain ⟨before, cs, after, hbefore, hvalue, hafter, htext⟩ := h
  have hbytes : Text.bytes text = Text.utf8 (before ++ cs ++ after) := by
    rw [← htext]
    rfl
  have hchars : cs.length ≤ (Text.bytes text).length := by
    have hlong := Text.length_le_utf8 (before ++ cs ++ after)
    simp only [List.length_append] at hlong
    rw [hbytes]
    omega
  have hscan := @scan_derives maximumDepth _ _ _ hvalue 0 (Nat.zero_le _) (by omega)
  have hrun : (Text.bytes text).foldlM (depthStep maximumDepth) ⟨0, false, false⟩ =
      scanned maximumDepth 0 j.nesting := by
    have hspaces : ∀ {space : List Char}, Space space →
        scan maximumDepth (outside 0) space = scanned maximumDepth 0 0 := by
      intro space hspace
      rw [scan_neutral (neutral_of_space hspace), scanned, if_pos (Nat.zero_le _)]
    have hall := scanned_append (scanned_append (hspaces hbefore) hscan) (hspaces hafter)
    rw [Nat.max_zero, Nat.zero_max] at hall
    rw [hbytes]
    exact hall
  unfold validateJsonDepth
  rw [hrun, scanned, Nat.zero_add]
  by_cases hnesting : j.nesting ≤ maximumDepth
  · rw [if_pos hnesting]
    simp [hnesting]
  · rw [if_neg hnesting]
    simp [hnesting]

/-- On a JSON text the scan returns normally exactly when the document nests at
most as deep as allowed; what is inside a string never changes the depth. -/
theorem validateJsonDepth_iff {text : String} {j : Json} (h : Document text.toList j)
    (hlength : (Text.bytes text).length < wordSize) :
    (∀ maximumDepth, validateJsonDepth (Text.bytes text) maximumDepth = .ok () ↔
      j.nesting ≤ maximumDepth) ∧
    ∀ maximumDepth depth cs s, Quoted cs s →
      (Text.utf8 cs).foldlM (depthStep maximumDepth) ⟨depth, false, false⟩ =
        .ok ⟨depth, false, false⟩ :=
  ⟨validateJsonDepth_eq_ok h hlength, fun _ _ _ _ hquoted => scan_quoted hquoted⟩

/-- A bracket inside a string, and one nested array. -/
theorem document_sample : Document "[\"[\"]".toList (.array [.string "["]) := by
  have hbody : Unescapes ['['] ['['] :=
    .plain (by decide) (by decide) (by decide) .nil
  have hitem : Derives .value ['"', '[', '"'] (.string "[") := .string (.mk hbody)
  have hspace : Space [] := fun c hc => absurd hc List.not_mem_nil
  exact ⟨[], ['[', '"', '[', '"', ']'], [], hspace,
    .array (@Derives.oneItem [] _ [] _ hspace hitem hspace), hspace, by decide⟩

theorem validateJsonDepth_iff_sample :
    validateJsonDepth (Text.bytes "[\"[\"]") 1 = .ok () :=
  ((validateJsonDepth_iff document_sample (by decide)).1 1).mpr (by decide)

end Invokrum.Rpc
