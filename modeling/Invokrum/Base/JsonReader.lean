import Invokrum.Base.Json
import Invokrum.Base.Outcome

/-!
# A reader for compact JSON

The reader inverts `Json.compact` on every printable document, so compact text
determines its document: printing is injective. Its fuel counts twice the input
length, one unit for each nested call between two consumed characters.
-/

namespace Invokrum.Json

open Text (Bytes)
open Outcome (okOr okOr_eq_ok)

/-! ## Numbers -/

def readNat (input : List Char) : Option (Nat × List Char) :=
  match input.takeWhile Char.isDigit with
  | [] => none
  | digits => some (Nat.ofDigitChars 10 digits 0, input.dropWhile Char.isDigit)

/-- The rest of the input does not continue a number. -/
def EndsNumber (rest : List Char) : Prop := ∀ c cs, rest = c :: cs → c.isDigit = false

theorem EndsNumber.nil : EndsNumber [] := by
  intro c cs h
  cases h

theorem EndsNumber.cons {c : Char} {cs : List Char} (h : c.isDigit = false) :
    EndsNumber (c :: cs) := by
  intro c' cs' heq
  cases heq
  exact h

theorem takeWhile_digits {digits rest : List Char} (hd : ∀ c ∈ digits, c.isDigit = true)
    (hr : EndsNumber rest) :
    (digits ++ rest).takeWhile Char.isDigit = digits ∧
      (digits ++ rest).dropWhile Char.isDigit = rest := by
  induction digits with
  | nil =>
      cases rest with
      | nil => exact ⟨rfl, rfl⟩
      | cons c cs => simp [hr c cs rfl]
  | cons c digits ih =>
      obtain ⟨htake, hdrop⟩ := ih fun x hx => hd x (List.mem_cons_of_mem c hx)
      simp [hd c List.mem_cons_self, htake, hdrop]

theorem readNat_toDigits (n : Nat) {rest : List Char} (hr : EndsNumber rest) :
    readNat (Nat.toDigits 10 n ++ rest) = some (n, rest) := by
  have hdigits : ∀ c ∈ Nat.toDigits 10 n, c.isDigit = true := fun c hc =>
    Nat.isDigit_of_mem_toDigits (by decide) (by decide) hc
  obtain ⟨htake, hdrop⟩ := takeWhile_digits hdigits hr
  unfold readNat
  rw [htake, hdrop]
  cases hcases : Nat.toDigits 10 n with
  | nil => exact absurd hcases Nat.toDigits_ne_nil
  | cons d ds =>
      simp only
      rw [← hcases, Nat.ofDigitChars_ten_toDigits]

/-! ## Strings -/

def hexValue (c : Char) : Option Nat :=
  if c.isDigit then some (c.toNat - 48)
  else if 97 ≤ c.toNat ∧ c.toNat ≤ 102 then some (c.toNat - 87)
  else none

def unescapeLetter (c : Char) : Option Char :=
  if c = '"' then some '"'
  else if c = '\\' then some '\\'
  else if c = 'b' then some '\x08'
  else if c = 'f' then some '\x0c'
  else if c = 'n' then some '\n'
  else if c = 'r' then some '\r'
  else if c = 't' then some '\t'
  else none

/-- One character of a string body, escapes decoded. -/
def readChar : List Char → Option (Char × List Char)
  | '\\' :: 'u' :: a :: b :: c :: d :: rest => do
      let a ← hexValue a
      let b ← hexValue b
      let c ← hexValue c
      let d ← hexValue d
      some (Char.ofNat (((a * 16 + b) * 16 + c) * 16 + d), rest)
  | '\\' :: letter :: rest => (unescapeLetter letter).map fun c => (c, rest)
  | c :: rest => some (c, rest)
  | [] => none

/-- A string body up to and including its closing quote. -/
def readBody : Nat → List Char → Option (List Char × List Char)
  | 0, _ => none
  | fuel + 1, input =>
      if input.head? = some '"' then some ([], input.tail)
      else do
        let (c, rest) ← readChar input
        let (cs, rest) ← readBody fuel rest
        some (c :: cs, rest)

theorem unescapeLetter_shortEscape {c letter : Char} (h : shortEscape c = some letter) :
    unescapeLetter letter = some c ∧ letter ≠ 'u' := by
  unfold shortEscape at h
  repeat' split at h
  all_goals first
    | (cases h; subst_vars; decide)
    | cases h

theorem hexValue_hexDigit : ∀ n < 16, hexValue (hexDigit n) = some n := by decide

theorem escapeChar_head (c : Char) (rest : List Char) :
    (escapeChar c ++ rest).head? ≠ some '"' := by
  unfold escapeChar
  split
  · simp
  · next h =>
      split
      · simp
      · have hne : c ≠ '"' := by
          rintro rfl
          simp [shortEscape] at h
        simpa using hne

theorem readChar_escapeChar (c : Char) (rest : List Char) :
    readChar (escapeChar c ++ rest) = some (c, rest) := by
  unfold escapeChar
  split
  · next letter h =>
      obtain ⟨hletter, hu⟩ := unescapeLetter_shortEscape h
      simp only [List.cons_append, List.nil_append]
      rw [readChar.eq_2 _ _ (by simp [hu]), hletter]
      rfl
  · next h =>
      split
      · next hlt =>
          have hhigh := hexValue_hexDigit (c.toNat / 16) (by omega)
          have hlow := hexValue_hexDigit (c.toNat % 16) (by omega)
          have hzero : hexValue '0' = some 0 := by decide
          have hvalue : ((0 * 16 + 0) * 16 + c.toNat / 16) * 16 + c.toNat % 16 = c.toNat := by
            omega
          simp only [List.cons_append, List.nil_append, readChar, hhigh, hlow, hzero,
            Option.bind_eq_bind, Option.bind_some, hvalue, Char.ofNat_toNat]
      · have hne : c ≠ '\\' := by
          rintro rfl
          simp [shortEscape] at h
        simp only [List.cons_append, List.nil_append]
        rw [readChar.eq_def]
        split <;> simp_all

theorem readBody_escape (cs rest : List Char) (fuel : Nat)
    (hfuel : (escape cs ++ '"' :: rest).length ≤ fuel) :
    readBody fuel (escape cs ++ '"' :: rest) = some (cs, rest) := by
  induction cs generalizing fuel with
  | nil =>
      cases fuel with
      | zero => simp [escape] at hfuel
      | succ fuel => simp [escape, readBody]
  | cons c cs ih =>
      cases fuel with
      | zero => simp at hfuel
      | succ fuel =>
          have hpos : 0 < (escapeChar c).length := by
            unfold escapeChar
            split
            · simp
            · split <;> simp
          simp only [escape, List.flatMap_cons, List.append_assoc, List.length_append] at hfuel ⊢
          have hrest := ih fuel (by simp only [escape, List.length_append]; omega)
          rw [readBody, if_neg (escapeChar_head c _), readChar_escapeChar]
          simp only [escape] at hrest
          simp [hrest]

/-- A quoted string, the opening quote already consumed. -/
def readString (input : List Char) : Option (String × List Char) :=
  (readBody input.length input).map fun (cs, rest) => (String.ofList cs, rest)

theorem readString_quoted (s : String) (rest : List Char) :
    readString (escape s.toList ++ '"' :: rest) = some (s, rest) := by
  simp [readString, readBody_escape]

/-! ## Documents -/

def expect (c : Char) : List Char → Option (List Char)
  | [] => none
  | c' :: rest => if c' = c then some rest else none

def expectAll : List Char → List Char → Option (List Char)
  | [], input => some input
  | c :: cs, input => (expect c input).bind (expectAll cs)

mutual

def readValue : Nat → List Char → Option (Json × List Char)
  | 0, _ => none
  | _, [] => none
  | fuel + 1, c :: rest =>
      if c = '"' then (readString rest).map fun (s, r) => (.string s, r)
      else if c = '[' then (readItems fuel true rest).map fun (items, r) => (.array items, r)
      else if c = '{' then (readMembers fuel true rest).map fun (ms, r) => (.object ms, r)
      else if c = 'n' then (expectAll ['u', 'l', 'l'] rest).map fun r => (.null, r)
      else if c = 't' then (expectAll ['r', 'u', 'e'] rest).map fun r => (.bool true, r)
      else if c = 'f' then (expectAll ['a', 'l', 's', 'e'] rest).map fun r => (.bool false, r)
      else if c = '-' then (readNat rest).map fun (n, r) => (.negative n, r)
      else (readNat (c :: rest)).map fun (n, r) => (.unsigned n, r)

/-- Array items up to and including the closing bracket. -/
def readItems : Nat → Bool → List Char → Option (List Json × List Char)
  | 0, _, _ => none
  | fuel + 1, first, input =>
      if input.head? = some ']' then some ([], input.tail)
      else do
        let input ← if first then some input else expect ',' input
        let (item, rest) ← readValue fuel input
        let (items, rest) ← readItems fuel false rest
        some (item :: items, rest)

/-- Object members up to and including the closing brace. -/
def readMembers : Nat → Bool → List Char → Option (List (String × Json) × List Char)
  | 0, _, _ => none
  | fuel + 1, first, input =>
      if input.head? = some '}' then some ([], input.tail)
      else do
        let input ← if first then some input else expect ',' input
        let input ← expect '"' input
        let (name, rest) ← readString input
        let rest ← expect ':' rest
        let (value, rest) ← readValue fuel rest
        let (members, rest) ← readMembers fuel false rest
        some ((name, value) :: members, rest)

end

/-- A complete document and nothing after it. -/
def read (input : List Char) : Option Json :=
  match readValue (2 * input.length + 1) input with
  | some (j, []) => some j
  | _ => none

/-! ## Inversion -/

@[simp] theorem expect_cons (c : Char) (rest : List Char) : expect c (c :: rest) = some rest := by
  simp [expect]

theorem toDigits_head (n : Nat) : ∃ d ds, Nat.toDigits 10 n = d :: ds ∧ d.isDigit = true := by
  cases h : Nat.toDigits 10 n with
  | nil => exact absurd h Nat.toDigits_ne_nil
  | cons d ds =>
      refine ⟨d, ds, rfl, Nat.isDigit_of_mem_toDigits (b := 10) (n := n) (by decide) (by decide) ?_⟩
      rw [h]
      exact List.mem_cons_self

/-- No printable document starts with a closing bracket. -/
theorem compact_head {j : Json} {depth : Nat} (hp : j.printable depth = true) :
    ∃ c cs, j.compact = c :: cs ∧ c ≠ ']' := by
  cases j with
  | null => exact ⟨_, _, rfl, by decide⟩
  | bool value => cases value <;> exact ⟨_, _, rfl, by decide⟩
  | unsigned n =>
      obtain ⟨d, ds, hds, hd⟩ := toDigits_head n
      refine ⟨d, ds, hds, ?_⟩
      rintro rfl
      exact absurd hd (by decide)
  | negative n => exact ⟨_, _, rfl, by decide⟩
  | real literal => simp [printable] at hp
  | string value => exact ⟨_, _, rfl, by decide⟩
  | array items => exact ⟨_, _, rfl, by decide⟩
  | object members => exact ⟨_, _, rfl, by decide⟩

theorem endsNumber_items (items : List Json) (rest : List Char) :
    EndsNumber (compactItems [','] items ++ ']' :: rest) := by
  cases items <;> exact .cons (by decide)

theorem endsNumber_members (members : List (String × Json)) (rest : List Char) :
    EndsNumber (compactMembers [','] members ++ '}' :: rest) := by
  cases members <;> exact .cons (by decide)

theorem readValue_unsigned (n : Nat) {rest : List Char} (hr : EndsNumber rest) (fuel : Nat) :
    readValue (fuel + 1) (Nat.toDigits 10 n ++ rest) = some (.unsigned n, rest) := by
  obtain ⟨d, ds, hds, hd⟩ := toDigits_head n
  have hread := readNat_toDigits n hr
  have hne : ∀ c : Char, c.isDigit = false → d ≠ c := by
    rintro c hc rfl
    simp [hd] at hc
  rw [hds, List.cons_append] at hread ⊢
  simp [readValue, hne, hread]

mutual

theorem readValue_compact : ∀ (j : Json) (depth fuel : Nat) (rest : List Char),
    j.printable depth = true → EndsNumber rest → 2 * (j.compact ++ rest).length + 1 ≤ fuel →
      readValue fuel (j.compact ++ rest) = some (j, rest)
  | j, _, 0, _, _, _, hf => by omega
  | .null, _, fuel + 1, rest, _, _, _ => by simp [compact, readValue, expectAll]
  | .bool true, _, fuel + 1, rest, _, _, _ => by simp [compact, readValue, expectAll]
  | .bool false, _, fuel + 1, rest, _, _, _ => by simp [compact, readValue, expectAll]
  | .unsigned n, _, fuel + 1, rest, _, hr, _ => readValue_unsigned n hr fuel
  | .negative n, _, fuel + 1, rest, _, hr, _ => by
      simp [compact, readValue, readNat_toDigits n hr]
  | .real _, _, _ + 1, _, hp, _, _ => by simp [printable] at hp
  | .string s, _, fuel + 1, rest, _, _, _ => by
      simp [compact, quoted, readValue, readString_quoted]
  | .array items, depth, fuel + 1, rest, hp, _, hf => by
      simp only [printable, Bool.and_eq_true] at hp
      have hitems := readItems_compact items (depth - 1) fuel true rest hp.2 (by
        simp only [compact, List.cons_append, List.length_cons, List.append_assoc,
          List.nil_append, if_true] at hf ⊢
        omega)
      simp only [compact, List.cons_append, List.append_assoc, List.nil_append]
      simpa [readValue] using hitems
  | .object members, depth, fuel + 1, rest, hp, _, hf => by
      simp only [printable, Bool.and_eq_true] at hp
      have hmembers := readMembers_compact members (depth - 1) fuel true rest hp.2 (by
        simp only [compact, List.cons_append, List.length_cons, List.append_assoc,
          List.nil_append, if_true] at hf ⊢
        omega)
      simp only [compact, List.cons_append, List.append_assoc, List.nil_append]
      simpa [readValue] using hmembers

theorem readItems_compact : ∀ (items : List Json) (depth fuel : Nat) (first : Bool)
    (rest : List Char), printableItems depth items = true →
      2 * (compactItems (if first then [] else [',']) items ++ ']' :: rest).length + 2 ≤ fuel →
        readItems fuel first (compactItems (if first then [] else [',']) items ++ ']' :: rest) =
          some (items, rest)
  | _, _, 0, _, _, _, hf => by omega
  | [], _, fuel + 1, first, rest, _, _ => by simp [compactItems, readItems]
  | item :: items, depth, fuel + 1, first, rest, hp, hf => by
      simp only [printableItems, Bool.and_eq_true] at hp
      simp only [compactItems, List.append_assoc, List.length_append] at hf
      have hitem := readValue_compact item depth fuel (compactItems [','] items ++ ']' :: rest)
        hp.1 (endsNumber_items items rest) (by
          simp only [List.length_append]
          omega)
      have hpos : 0 < item.compact.length := by
        obtain ⟨c, cs, hhead, _⟩ := compact_head hp.1
        simp [hhead]
      have hitems := readItems_compact items depth fuel false rest hp.2 (by
        simp only [Bool.false_eq_true, if_false, List.length_append]
        omega)
      simp only [Bool.false_eq_true, if_false] at hitems
      cases first with
      | false =>
          simp [compactItems, readItems, hitem, hitems]
      | true =>
          have hhead : (item.compact ++ (compactItems [','] items ++ ']' :: rest)).head? ≠
              some ']' := by
            obtain ⟨c, cs, hhead, hc⟩ := compact_head hp.1
            simpa [hhead] using hc
          simp only [if_true, compactItems, List.nil_append, List.append_assoc]
          rw [readItems, if_neg hhead]
          simp [hitem, hitems]

theorem readMembers_compact : ∀ (members : List (String × Json)) (depth fuel : Nat)
    (first : Bool) (rest : List Char), printableMembers depth members = true →
      2 * (compactMembers (if first then [] else [',']) members ++ '}' :: rest).length + 2 ≤ fuel →
        readMembers fuel first
            (compactMembers (if first then [] else [',']) members ++ '}' :: rest) =
          some (members, rest)
  | _, _, 0, _, _, _, hf => by omega
  | [], _, fuel + 1, first, rest, _, _ => by simp [compactMembers, readMembers]
  | (name, value) :: members, depth, fuel + 1, first, rest, hp, hf => by
      simp only [printableMembers, Bool.and_eq_true] at hp
      simp only [compactMembers, quoted, List.append_assoc, List.length_append,
        List.cons_append, List.length_cons] at hf
      have hvalue := readValue_compact value depth fuel
        (compactMembers [','] members ++ '}' :: rest) hp.1 (endsNumber_members members rest) (by
          simp only [List.length_append, List.length_cons]
          omega)
      have hmembers := readMembers_compact members depth fuel false rest hp.2 (by
        simp only [Bool.false_eq_true, if_false, List.length_append, List.length_cons]
        omega)
      simp only [Bool.false_eq_true, if_false] at hmembers
      have hname := readString_quoted name
        (':' :: (value.compact ++ (compactMembers [','] members ++ '}' :: rest)))
      cases first <;>
        simp [compactMembers, readMembers, quoted, hname, hvalue, hmembers]

end

/-- The reader inverts compact printing on every printable document. -/
theorem read_compact {j : Json} {depth : Nat} (hp : j.printable depth = true) :
    read j.compact = some j := by
  have h := readValue_compact j depth (2 * j.compact.length + 1) [] hp .nil (by simp)
  rw [List.append_nil] at h
  simp [read, h]

/-- Compact text determines the document. -/
theorem compact_injective {j k : Json} {d d' : Nat} (hj : j.printable d = true)
    (hk : k.printable d' = true) (h : j.compact = k.compact) : j = k := by
  have hread := read_compact hj
  rw [h, read_compact hk] at hread
  exact (Option.some.inj hread).symm

theorem toVec_injective {j k : Json} {d d' : Nat} (hj : j.printable d = true)
    (hk : k.printable d' = true) (h : j.toVec = k.toVec) : j = k :=
  compact_injective hj hk (Text.utf8_injective h)

/-! ## Bytes -/

/-- The reader on UTF-8 input. -/
def readBytes (bytes : Bytes) : Option Json :=
  bytes.toByteArray.utf8Decode?.bind fun cs => read cs.toList

/-- A reader with the relied-on behaviour exists. -/
theorem readBytes_readsCompact : ReadsCompact readBytes where
  roundTrip := fun j hp => by
    rw [readBytes, toVec, Text.utf8_toByteArray, List.utf8Decode?_utf8Encode]
    simpa using read_compact hp

/-- The reader with the part of a malformed text it has visited: none of it. -/
def visitBytes (bytes : Bytes) : Except Json Json :=
  okOr (readBytes bytes) .null

theorem visitBytes_readsCompact : ReadsCompact fun bytes => (visitBytes bytes).toOption where
  roundTrip := fun j hp => by
    have hread : visitBytes j.toVec = .ok j :=
      okOr_eq_ok.mpr (readBytes_readsCompact.roundTrip j hp)
    rw [hread, Except.toOption]

end Invokrum.Json
