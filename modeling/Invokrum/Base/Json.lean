import Invokrum.Base.Text

/-!
# JSON trees and their compact text

A tree keeps the members of an object in document order, repeated names
included. `compact` prints without whitespace, escaping the double quote, the
backslash and the control characters only.
-/

namespace Invokrum

open Text (Bytes)

/-- A JSON document. Integers are kept by sign; any other number keeps its literal. -/
inductive Json where
  | null
  | bool (value : Bool)
  | unsigned (value : Nat)
  | negative (magnitude : Nat)
  | real (literal : String)
  | string (value : String)
  | array (items : List Json)
  | object (members : List (String × Json))

namespace Json

/-! ## Strings -/

def hexDigit (n : Nat) : Char := Nat.digitChar n

/-- The escape letter of a character that has a two-character escape. -/
def shortEscape (c : Char) : Option Char :=
  if c = '"' then some '"'
  else if c = '\\' then some '\\'
  else if c = '\x08' then some 'b'
  else if c = '\x0c' then some 'f'
  else if c = '\n' then some 'n'
  else if c = '\r' then some 'r'
  else if c = '\t' then some 't'
  else none

def escapeChar (c : Char) : List Char :=
  match shortEscape c with
  | some letter => ['\\', letter]
  | none =>
      if c.toNat < 32 then
        ['\\', 'u', '0', '0', hexDigit (c.toNat / 16), hexDigit (c.toNat % 16)]
      else [c]

def escape (cs : List Char) : List Char := cs.flatMap escapeChar

/-- A quoted JSON string. -/
def quoted (s : String) : List Char := '"' :: (escape s.toList ++ ['"'])

/-! ## Documents -/

mutual

/-- The compact text of a document. -/
def compact : Json → List Char
  | .null => ['n', 'u', 'l', 'l']
  | .bool true => ['t', 'r', 'u', 'e']
  | .bool false => ['f', 'a', 'l', 's', 'e']
  | .unsigned n => Nat.toDigits 10 n
  | .negative n => '-' :: Nat.toDigits 10 n
  | .real literal => literal.toList
  | .string s => quoted s
  | .array items => '[' :: (compactItems [] items ++ [']'])
  | .object members => '{' :: (compactMembers [] members ++ ['}'])

/-- Array items, the first one preceded by `lead` and every later one by a comma. -/
def compactItems (lead : List Char) : List Json → List Char
  | [] => []
  | item :: rest => lead ++ (compact item ++ compactItems [','] rest)

/-- Object members, the first one preceded by `lead` and every later one by a comma. -/
def compactMembers (lead : List Char) : List (String × Json) → List Char
  | [] => []
  | (name, value) :: rest =>
      lead ++ (quoted name ++ (':' :: (compact value ++ compactMembers [','] rest)))

end

/-- `serde_json::to_vec`: the compact text in UTF-8. -/
def toVec (j : Json) : Bytes := Text.utf8 j.compact

/-! ## Documents a 64-bit reader can represent -/

mutual

/-- Integers fit 64 bits, no other number occurs, and containers nest at most `depth` deep. -/
def printable (depth : Nat) : Json → Bool
  | .null => true
  | .bool _ => true
  | .unsigned n => decide (n < 2 ^ 64)
  | .negative n => decide (0 < n ∧ n ≤ 2 ^ 63)
  | .real _ => false
  | .string _ => true
  | .array items => decide (0 < depth) && printableItems (depth - 1) items
  | .object members => decide (0 < depth) && printableMembers (depth - 1) members

def printableItems (depth : Nat) : List Json → Bool
  | [] => true
  | item :: rest => printable depth item && printableItems depth rest

def printableMembers (depth : Nat) : List (String × Json) → Bool
  | [] => true
  | (_, value) :: rest => printable depth value && printableMembers depth rest

end

section

-- Makes the equations here, once, before the proofs that ask for them.
attribute [local simp] compact compactItems compactMembers printable printableItems
  printableMembers

end

@[simp] theorem printableItems_eq_true {depth : Nat} {items : List Json} :
    printableItems depth items = true ↔ ∀ item ∈ items, printable depth item = true := by
  induction items with
  | nil => simp [printableItems]
  | cons item rest ih => simp [printableItems, ih]

@[simp] theorem printableMembers_eq_true {depth : Nat} {members : List (String × Json)} :
    printableMembers depth members = true ↔
      ∀ member ∈ members, printable depth member.2 = true := by
  induction members with
  | nil => simp [printableMembers]
  | cons member rest ih =>
      obtain ⟨name, value⟩ := member
      simp [printableMembers, ih]

@[simp] theorem printable_string (depth : Nat) (s : String) :
    (Json.string s).printable depth = true := by
  simp [printable]

@[simp] theorem printable_array_map {α : Type} {toJson : α → Json} {xs : List α} {depth : Nat} :
    (Json.array (xs.map toJson)).printable (depth + 1) = true ↔
      ∀ x ∈ xs, (toJson x).printable depth = true := by
  simp only [printable, Nat.zero_lt_succ, decide_true, Bool.true_and, Nat.add_sub_cancel,
    printableItems_eq_true, List.forall_mem_map]

@[simp] theorem printable_object {depth : Nat} {members : List (String × Json)} :
    (Json.object members).printable (depth + 1) = true ↔
      ∀ member ∈ members, member.2.printable depth = true := by
  simp [printable]

/-! ## Nesting -/

mutual

/-- How deep arrays and objects nest. -/
def nesting : Json → Nat
  | .array items => 1 + nestingItems items
  | .object members => 1 + nestingMembers members
  | _ => 0

def nestingItems : List Json → Nat
  | [] => 0
  | item :: rest => max (nesting item) (nestingItems rest)

def nestingMembers : List (String × Json) → Nat
  | [] => 0
  | (_, value) :: rest => max (nesting value) (nestingMembers rest)

end

theorem nestingItems_le {depth : Nat} {items : List Json} :
    nestingItems items ≤ depth ↔ ∀ item ∈ items, nesting item ≤ depth := by
  induction items with
  | nil => simp [nestingItems]
  | cons item rest ih => rw [nestingItems, max_le_iff, ih, List.forall_mem_cons]

theorem nestingMembers_le {depth : Nat} {members : List (String × Json)} :
    nestingMembers members ≤ depth ↔ ∀ member ∈ members, nesting member.2 ≤ depth := by
  induction members with
  | nil => simp [nestingMembers]
  | cons member rest ih => rw [nestingMembers, max_le_iff, ih, List.forall_mem_cons]

@[simp] theorem nesting_array_le {depth : Nat} {items : List Json} :
    nesting (.array items) ≤ depth + 1 ↔ ∀ item ∈ items, nesting item ≤ depth := by
  rw [nesting, Nat.add_comm, Nat.add_le_add_iff_right, nestingItems_le]

@[simp] theorem nesting_object_le {depth : Nat} {members : List (String × Json)} :
    nesting (.object members) ≤ depth + 1 ↔ ∀ member ∈ members, nesting member.2 ≤ depth := by
  rw [nesting, Nat.add_comm, Nat.add_le_add_iff_right, nestingMembers_le]

/-- The nesting a reader accepts below its recursion limit of 128. -/
def readerDepth : Nat := 127

/-- What a strict reader is relied on for: it inverts compact printing. -/
structure ReadsCompact (fromSlice : Bytes → Option Json) : Prop where
  roundTrip : ∀ j : Json, j.printable readerDepth = true → fromSlice j.toVec = some j

end Json

end Invokrum
