import Invokrum.Base.Json

/-!
# Bounds on the size of compact JSON

A string without control characters takes at most two bytes for each of its
own. Arrays and objects add a separator to each of their parts, and numbers
have no more bytes than digits.
-/

namespace Invokrum.Json

/-! ## Strings -/

theorem escapeChar_size_le {c : Char} (h : 32 ≤ c.toNat) :
    (Text.utf8 (escapeChar c)).length ≤ 2 * (String.utf8EncodeChar c).length := by
  have hpos : 1 ≤ (String.utf8EncodeChar c).length := by
    rw [String.length_utf8EncodeChar]
    exact c.utf8Size_pos
  unfold escapeChar
  cases hshort : shortEscape c with
  | some letter =>
      have hletter : (Text.utf8 ['\\', letter]).length = 2 := by
        unfold shortEscape at hshort
        split_ifs at hshort <;> cases hshort <;> rfl
      rw [hletter]
      omega
  | none =>
      simp only
      rw [if_neg (by omega), Text.utf8_cons, Text.utf8_nil, List.append_nil]
      omega

theorem escape_size_le {cs : List Char} (h : ∀ c ∈ cs, 32 ≤ c.toNat) :
    (Text.utf8 (escape cs)).length ≤ 2 * (Text.utf8 cs).length := by
  induction cs with
  | nil => exact Nat.zero_le _
  | cons c cs ih =>
      have hhead := escapeChar_size_le (h c List.mem_cons_self)
      have hrest := ih fun d hd => h d (List.mem_cons_of_mem c hd)
      unfold escape at hrest ⊢
      rw [List.flatMap_cons, Text.utf8_append, Text.utf8_cons, List.length_append,
        List.length_append]
      omega

theorem quoted_size_le {s : String} (h : ∀ c ∈ s.toList, 32 ≤ c.toNat) :
    (Text.utf8 (quoted s)).length ≤ 2 * Text.byteLength s + 2 := by
  have hquote : (String.utf8EncodeChar '"').length = 1 := by decide
  have hescape := escape_size_le h
  unfold quoted
  rw [Text.utf8_cons, Text.utf8_append, Text.utf8_cons, Text.utf8_nil, List.append_nil,
    List.length_append, List.length_append, hquote]
  unfold Text.byteLength Text.bytes
  omega

theorem string_size (s : String) :
    (Json.string s).toVec.length = (Text.utf8 (quoted s)).length := rfl

theorem unsigned_size_le {n k : Nat} (hk : 0 < k) (h : n < 10 ^ k) :
    (Json.unsigned n).toVec.length ≤ k := by
  have hdigits : ∀ c ∈ Nat.toDigits 10 n, c.toNat < 128 := by
    intro c hc
    have hdigit := Nat.isDigit_of_mem_toDigits (by decide) (by decide) hc
    simp only [Char.isDigit, Bool.and_eq_true, decide_eq_true_eq, UInt32.le_iff_toNat_le] at hdigit
    exact Nat.lt_of_le_of_lt hdigit.2 (by decide)
  rw [toVec, compact, Text.utf8_ascii hdigits, List.length_map]
  exact (Nat.length_toDigits_le_iff (by decide) hk).mpr h

/-! ## Containers -/

theorem compactItems_size_le (lead : List Char) (hlead : (Text.utf8 lead).length ≤ 1)
    (items : List Json) : (Text.utf8 (compactItems lead items)).length ≤
      (items.map fun item => item.toVec.length + 1).sum := by
  induction items generalizing lead with
  | nil => exact Nat.zero_le _
  | cons item rest ih =>
      have hrest := ih [','] (by decide)
      rw [compactItems, Text.utf8_append, Text.utf8_append, List.length_append,
        List.length_append, List.map_cons, List.sum_cons, toVec]
      omega

theorem array_size_le (items : List Json) :
    (Json.array items).toVec.length ≤ 2 + (items.map fun item => item.toVec.length + 1).sum := by
  have hopen : (String.utf8EncodeChar '[').length = 1 := by decide
  have hclose : (Text.utf8 [']']).length = 1 := by decide
  have hitems := compactItems_size_le [] (Nat.zero_le _) items
  rw [toVec, compact, Text.utf8_cons, Text.utf8_append, List.length_append, List.length_append,
    hopen, hclose]
  omega

/-- The bytes of a member, with its colon and a separator. -/
def memberSize (member : String × Json) : Nat :=
  (Text.utf8 (quoted member.1)).length + member.2.toVec.length + 2

@[simp] theorem memberSize_mk (name : String) (value : Json) :
    memberSize (name, value) = (Text.utf8 (quoted name)).length + value.toVec.length + 2 := rfl

theorem compactMembers_size_le (lead : List Char) (hlead : (Text.utf8 lead).length ≤ 1)
    (members : List (String × Json)) : (Text.utf8 (compactMembers lead members)).length ≤
      (members.map memberSize).sum := by
  have hcolon : (String.utf8EncodeChar ':').length = 1 := by decide
  induction members generalizing lead with
  | nil => exact Nat.zero_le _
  | cons member rest ih =>
      obtain ⟨name, value⟩ := member
      have hrest := ih [','] (by decide)
      rw [compactMembers, Text.utf8_append, Text.utf8_append, Text.utf8_cons, Text.utf8_append,
        List.length_append, List.length_append, List.length_append, List.length_append, hcolon,
        List.map_cons, List.sum_cons, memberSize_mk, toVec]
      omega

theorem object_size_le (members : List (String × Json)) :
    (Json.object members).toVec.length ≤ 2 + (members.map memberSize).sum := by
  have hopen : (String.utf8EncodeChar '{').length = 1 := by decide
  have hclose : (Text.utf8 ['}']).length = 1 := by decide
  have hmembers := compactMembers_size_le [] (Nat.zero_le _) members
  rw [toVec, compact, Text.utf8_cons, Text.utf8_append, List.length_append, List.length_append,
    hopen, hclose]
  omega

/-- The members of an object that has no more than `count` of them, none above `size`. -/
theorem sum_size_le {α : Type} {xs : List α} {f : α → Nat} {count size : Nat}
    (hcount : xs.length ≤ count) (hsize : ∀ x ∈ xs, f x ≤ size) :
    (xs.map f).sum ≤ count * size := by
  have hsum := List.sum_le_card_nsmul (xs.map f) size (by simpa using hsize)
  rw [List.length_map, smul_eq_mul] at hsum
  exact Nat.le_trans hsum (Nat.mul_le_mul_right size hcount)

/-! ## Parts -/

/-- A document is no longer than one it is a part of. -/
theorem member_size_le {members : List (String × Json)} {member : String × Json}
    (h : member ∈ members) : member.2.toVec.length ≤ (Json.object members).toVec.length := by
  have hinner : ∀ lead, member.2.toVec.length ≤ (Text.utf8 (compactMembers lead members)).length := by
    induction members with
    | nil => cases h
    | cons first rest ih =>
        intro lead
        obtain ⟨name, value⟩ := first
        simp only [compactMembers, Text.utf8_append, Text.utf8_cons, List.length_append]
        rcases List.mem_cons.mp h with rfl | hrest
        · show (Text.utf8 value.compact).length ≤ _
          omega
        · have hlater := ih hrest [',']
          omega
  have hobject : (Text.utf8 (compactMembers [] members)).length ≤
      (Json.object members).toVec.length := by
    rw [toVec, compact, Text.utf8_cons, Text.utf8_append, List.length_append, List.length_append]
    omega
  exact (hinner []).trans hobject

/-- A string is no longer than its text. -/
theorem string_size_ge (s : String) : s.toList.length ≤ (Json.string s).toVec.length := by
  have hescape : ∀ cs : List Char, cs.length ≤ (escape cs).length := by
    intro cs
    induction cs with
    | nil => exact Nat.le_refl _
    | cons c cs ih =>
        have hchar : 1 ≤ (escapeChar c).length := by
          unfold escapeChar
          cases shortEscape c with
          | some letter => simp
          | none =>
              simp only
              split <;> simp
        rw [escape, List.flatMap_cons, List.length_append, ← escape, List.length_cons]
        omega
  have hutf8 := Text.length_le_utf8 (quoted s)
  have hquoted : s.toList.length ≤ (quoted s).length := by
    have hbody := hescape s.toList
    rw [quoted, List.length_cons, List.length_append]
    omega
  rw [string_size]
  omega

end Invokrum.Json
