import Invokrum.Base.JsonGrammar

/-!
# Compact text in the grammar

What `compact` prints of a document that a reader can represent derives from
the grammar and denotes the document.
-/

namespace Invokrum.JsonGrammar

open Json (compact compactItems compactMembers escape escapeChar hexDigit printable quoted
  shortEscape)

/-! ## Numbers -/

/-- Decimal digits start with a zero only for zero itself. -/
theorem toDigits_head_ne_zero {n : Nat} (h : 0 < n) : (Nat.toDigits 10 n).head? ≠ some '0' := by
  induction n using Nat.strongRecOn with
  | ind n ih =>
      by_cases hlt : n < 10
      · rw [Nat.toDigits_of_lt_base hlt, List.head?_cons]
        have hdigit : ∀ k < 10, 0 < k → k.digitChar ≠ '0' := by decide
        exact fun heq => hdigit n hlt h (Option.some.inj heq)
      · have hle : 10 ≤ n := Nat.not_lt.mp hlt
        rw [Nat.toDigits_of_base_le (by decide) hle, List.head?_append_of_ne_nil _
          Nat.toDigits_ne_nil]
        exact ih (n / 10) (by omega) (by omega)

theorem integer_toDigits (n : Nat) : Integer (Nat.toDigits 10 n) := by
  by_cases h : n = 0
  · subst h
    exact .inl (Nat.toDigits_zero 10)
  · refine .inr ⟨⟨Nat.toDigits_ne_nil, ?_⟩, toDigits_head_ne_zero (Nat.pos_of_ne_zero h)⟩
    exact fun c hc => Nat.isDigit_of_mem_toDigits (by decide) (by decide) hc

/-- A literal without fraction and exponent. -/
theorem derives_integer (sign : List Char) (hsign : sign = [] ∨ sign = ['-']) (n : Nat) :
    Derives .value (sign ++ Nat.toDigits 10 n) (numberValue sign (Nat.toDigits 10 n) [] []) := by
  have h := Derives.number hsign (integer_toDigits n) (.inl rfl) (.inl rfl)
  simpa using h

/-! ## Strings -/

theorem escapeLetter_shortEscape {c letter : Char} (h : shortEscape c = some letter) :
    escapeLetter letter = some c := by
  unfold shortEscape at h
  split_ifs at h <;> simp_all [escapeLetter] <;> subst_vars <;> decide

theorem codeUnit_control {n : Nat} (h : n < 32) :
    CodeUnit ['0', '0', hexDigit (n / 16), hexDigit (n % 16)] n := by
  have hdigit : ∀ k < 16, (hexDigit k).isDigit = true ∨
      (97 ≤ (hexDigit k).toNat ∧ (hexDigit k).toNat ≤ 102) := by decide
  have hvalue : ∀ k < 32, k = ['0', '0', hexDigit (k / 16), hexDigit (k % 16)].foldl
      (fun n c => 16 * n + hexDigitValue c) 0 := by decide
  refine ⟨rfl, ?_, hvalue n h⟩
  simp only [List.forall_mem_cons, List.not_mem_nil, false_imp_iff, implies_true, and_true]
  have hhex : ∀ k < 16, IsHexDigit (hexDigit k) := fun k hk =>
    (hdigit k hk).elim .inl fun hletter => .inr (.inl hletter)
  exact ⟨hhex 0 (by decide), hhex 0 (by decide), hhex _ (by omega), hhex _ (by omega)⟩

theorem unescapes_escape (cs : List Char) : Unescapes (escape cs) cs := by
  induction cs with
  | nil => exact .nil
  | cons c cs ih =>
      have hsplit : escape (c :: cs) = escapeChar c ++ escape cs := rfl
      rw [hsplit, escapeChar]
      cases hshort : shortEscape c with
      | some letter => exact .letter (escapeLetter_shortEscape hshort) ih
      | none =>
          simp only
          by_cases hcontrol : c.toNat < 32
          · rw [if_pos hcontrol]
            have hunit := @Unescapes.unit _ (escape cs) cs _ (codeUnit_control hcontrol)
              (by unfold IsHighSurrogate; omega) (by unfold IsLowSurrogate; omega) ih
            rwa [Char.ofNat_toNat] at hunit
          · rw [if_neg hcontrol]
            have hquote : c ≠ '"' := by
              rintro rfl
              cases hshort
            have hbackslash : c ≠ '\\' := by
              rintro rfl
              cases hshort
            exact .plain (Nat.not_lt.mp hcontrol) hquote hbackslash ih

theorem quoted_denotes (s : String) : Quoted (quoted s) s := by
  have h := Quoted.mk (unescapes_escape s.toList)
  rwa [String.ofList_toList] at h

/-! ## Documents -/

theorem space_nil : Space [] := fun _ hc => absurd hc List.not_mem_nil

/-- The items behind a first one. -/
theorem derives_items {first : Json} {rest : List Json}
    (h : ∀ item ∈ first :: rest, Derives .value item.compact item) :
    Derives .items (compactItems [] (first :: rest)) (.array (first :: rest)) := by
  induction rest generalizing first with
  | nil =>
      have hone := Derives.oneItem space_nil (h first List.mem_cons_self) space_nil
      simpa [compactItems] using hone
  | cons second rest ih =>
      rw [List.forall_mem_cons] at h
      have hmore := Derives.moreItems space_nil h.1 space_nil (ih h.2)
      simpa [compactItems] using hmore

theorem derives_members {first : String × Json} {rest : List (String × Json)}
    (h : ∀ member ∈ first :: rest, Derives .value member.2.compact member.2) :
    Derives .members (compactMembers [] (first :: rest)) (.object (first :: rest)) := by
  induction rest generalizing first with
  | nil =>
      have hone := Derives.oneMember space_nil (quoted_denotes first.1) space_nil space_nil
        (h first List.mem_cons_self) space_nil
      simpa [compactMembers] using hone
  | cons second rest ih =>
      rw [List.forall_mem_cons] at h
      have hmore := Derives.moreMembers space_nil (quoted_denotes first.1) space_nil space_nil h.1
        space_nil (ih h.2)
      simpa [compactMembers] using hmore

theorem derives_compact (depth : Nat) :
    ∀ j : Json, j.printable depth = true → Derives .value j.compact j := by
  induction depth using Nat.strongRecOn with
  | ind depth ih =>
      intro j h
      cases j with
      | null => exact .null
      | bool value => cases value with
          | true => exact .true
          | false => exact .false
      | unsigned n =>
          have hlt : n < 2 ^ 64 := by simpa only [printable, decide_eq_true_eq] using h
          have hvalue : numberValue [] (Nat.toDigits 10 n) [] [] = .unsigned n := by
            simp only [numberValue, Nat.ofDigitChars_ten_toDigits, hlt, and_self, if_true]
          have hderives := derives_integer [] (.inl rfl) n
          rwa [hvalue] at hderives
      | negative n =>
          have hbounds : 0 < n ∧ n ≤ 2 ^ 63 := by
            simpa only [printable, decide_eq_true_eq] using h
          have hvalue : numberValue ['-'] (Nat.toDigits 10 n) [] [] = .negative n := by
            simpa [numberValue, Nat.ofDigitChars_ten_toDigits, hbounds.1] using hbounds.2
          have hderives := derives_integer ['-'] (.inr rfl) n
          rwa [hvalue] at hderives
      | real literal => simp [printable] at h
      | string s => exact .string (quoted_denotes s)
      | array items =>
          simp only [printable, Bool.and_eq_true, Json.printableItems_eq_true,
            decide_eq_true_eq] at h
          have hitems : ∀ item ∈ items, Derives .value item.compact item :=
            fun item hitem => ih (depth - 1) (by omega) item (h.2 item hitem)
          cases items with
          | nil => exact .emptyArray space_nil
          | cons first rest => exact .array (derives_items hitems)
      | object members =>
          simp only [printable, Bool.and_eq_true, Json.printableMembers_eq_true,
            decide_eq_true_eq] at h
          have hmembers : ∀ member ∈ members, Derives .value member.2.compact member.2 :=
            fun member hmember => ih (depth - 1) (by omega) member.2 (h.2 member hmember)
          cases members with
          | nil => exact .emptyObject space_nil
          | cons first rest => exact .object (derives_members hmembers)

/-- Compact text is a JSON text of its document. -/
theorem document_compact {j : Json} {depth : Nat} (h : j.printable depth = true) :
    Document j.compact j :=
  ⟨[], j.compact, [], space_nil, derives_compact depth j h, space_nil, by simp⟩

/-- A value is written with some character. -/
theorem derives_ne_nil {cs : List Char} {j : Json} (h : Derives .value cs j) : cs ≠ [] := by
  cases h with
  | number hsign hinteger _ _ =>
      rcases hinteger with rfl | ⟨hdigits, _⟩
      · simp
      · simp [hdigits.1]
  | string hquoted =>
      obtain ⟨_⟩ := hquoted
      exact List.cons_ne_nil _ _
  | _ => exact List.cons_ne_nil _ _

theorem document_ne_nil {text : List Char} {j : Json} (h : Document text j) : text ≠ [] := by
  obtain ⟨before, cs, after, _, hvalue, _, rfl⟩ := h
  simp [derives_ne_nil hvalue]

end Invokrum.JsonGrammar
