import Invokrum.Base.Json

/-!
# The JSON grammar

A derivation says that a text denotes a document. Any whitespace may surround
values, any character may be escaped, and repeated member names are allowed.
The three symbols share one relation: the items of an array denote the array,
and the members of an object the object.
-/

namespace Invokrum.JsonGrammar

/-! ## Whitespace and numbers -/

def IsSpace (c : Char) : Prop := c = ' ' ∨ c = '\t' ∨ c = '\n' ∨ c = '\r'

def Space (cs : List Char) : Prop := ∀ c ∈ cs, IsSpace c

def Digits (cs : List Char) : Prop := cs ≠ [] ∧ ∀ c ∈ cs, c.isDigit = true

/-- An integer without leading zeros. -/
def Integer (cs : List Char) : Prop := cs = ['0'] ∨ Digits cs ∧ cs.head? ≠ some '0'

def Fraction (cs : List Char) : Prop := cs = [] ∨ ∃ digits, Digits digits ∧ cs = '.' :: digits

def Exponent (cs : List Char) : Prop :=
  cs = [] ∨ ∃ mark sign digits, (mark = 'e' ∨ mark = 'E') ∧
    (sign = [] ∨ sign = ['+'] ∨ sign = ['-']) ∧ Digits digits ∧ cs = mark :: (sign ++ digits)

/-- The value of a number: an integer of 64 bits by its sign, any other literal
as it is written. -/
def numberValue (sign integer fraction exponent : List Char) : Json :=
  let n := Nat.ofDigitChars 10 integer 0
  if fraction = [] ∧ exponent = [] ∧ sign = [] ∧ n < 2 ^ 64 then .unsigned n
  else if fraction = [] ∧ exponent = [] ∧ sign ≠ [] ∧ 0 < n ∧ n ≤ 2 ^ 63 then .negative n
  else .real (String.ofList (sign ++ integer ++ fraction ++ exponent))

/-! ## Strings -/

/-- The character an escape letter stands for. -/
def escapeLetter (letter : Char) : Option Char :=
  if letter = '"' then some '"'
  else if letter = '\\' then some '\\'
  else if letter = '/' then some '/'
  else if letter = 'b' then some '\x08'
  else if letter = 'f' then some '\x0c'
  else if letter = 'n' then some '\n'
  else if letter = 'r' then some '\r'
  else if letter = 't' then some '\t'
  else none

def IsHexDigit (c : Char) : Prop :=
  c.isDigit = true ∨ (97 ≤ c.toNat ∧ c.toNat ≤ 102) ∨ (65 ≤ c.toNat ∧ c.toNat ≤ 70)

def hexDigitValue (c : Char) : Nat :=
  if c.isDigit then c.toNat - 48 else if 97 ≤ c.toNat then c.toNat - 87 else c.toNat - 55

/-- Four hexadecimal digits and the code unit they spell. -/
def CodeUnit (digits : List Char) (unit : Nat) : Prop :=
  digits.length = 4 ∧ (∀ c ∈ digits, IsHexDigit c) ∧
    unit = digits.foldl (fun n c => 16 * n + hexDigitValue c) 0

def IsHighSurrogate (unit : Nat) : Prop := 0xd800 ≤ unit ∧ unit < 0xdc00

def IsLowSurrogate (unit : Nat) : Prop := 0xdc00 ≤ unit ∧ unit < 0xe000

/-- The text between the quotes and the characters it denotes. A surrogate
outside a pair denotes the replacement character. -/
inductive Unescapes : List Char → List Char → Prop where
  | nil : Unescapes [] []
  | plain {c : Char} {body s : List Char} : 32 ≤ c.toNat → c ≠ '"' → c ≠ '\\' → Unescapes body s →
      Unescapes (c :: body) (c :: s)
  | letter {letter c : Char} {body s : List Char} : escapeLetter letter = some c →
      Unescapes body s → Unescapes ('\\' :: letter :: body) (c :: s)
  | unit {digits body s : List Char} {unit : Nat} : CodeUnit digits unit →
      ¬ IsHighSurrogate unit → ¬ IsLowSurrogate unit → Unescapes body s →
      Unescapes ('\\' :: 'u' :: (digits ++ body)) (Char.ofNat unit :: s)
  | pair {high low body s : List Char} {highUnit lowUnit : Nat} : CodeUnit high highUnit →
      IsHighSurrogate highUnit → CodeUnit low lowUnit → IsLowSurrogate lowUnit →
      Unescapes body s →
      Unescapes ('\\' :: 'u' :: (high ++ '\\' :: 'u' :: (low ++ body)))
        (Char.ofNat (0x10000 + 0x400 * (highUnit - 0xd800) + (lowUnit - 0xdc00)) :: s)
  | lone {digits body s : List Char} {unit : Nat} : CodeUnit digits unit →
      IsHighSurrogate unit ∨ IsLowSurrogate unit → Unescapes body s →
      Unescapes ('\\' :: 'u' :: (digits ++ body)) ('\ufffd' :: s)

/-- A quoted string and its value. -/
inductive Quoted : List Char → String → Prop where
  | mk {body s : List Char} : Unescapes body s → Quoted ('"' :: (body ++ ['"'])) (String.ofList s)

/-! ## Documents -/

inductive Symbol where
  | value
  | items
  | members
deriving DecidableEq

/-- A text derives from a symbol and denotes a document. -/
inductive Derives : Symbol → List Char → Json → Prop where
  | null : Derives .value ['n', 'u', 'l', 'l'] .null
  | true : Derives .value ['t', 'r', 'u', 'e'] (.bool Bool.true)
  | false : Derives .value ['f', 'a', 'l', 's', 'e'] (.bool Bool.false)
  | number {sign integer fraction exponent : List Char} : sign = [] ∨ sign = ['-'] →
      Integer integer → Fraction fraction → Exponent exponent →
      Derives .value (sign ++ integer ++ fraction ++ exponent)
        (numberValue sign integer fraction exponent)
  | string {cs : List Char} {s : String} : Quoted cs s → Derives .value cs (.string s)
  | emptyArray {space : List Char} : Space space →
      Derives .value ('[' :: (space ++ [']'])) (.array [])
  | array {cs : List Char} {items : List Json} : Derives .items cs (.array items) →
      Derives .value ('[' :: (cs ++ [']'])) (.array items)
  | emptyObject {space : List Char} : Space space →
      Derives .value ('{' :: (space ++ ['}'])) (.object [])
  | object {cs : List Char} {members : List (String × Json)} :
      Derives .members cs (.object members) →
      Derives .value ('{' :: (cs ++ ['}'])) (.object members)
  | oneItem {before cs after : List Char} {item : Json} : Space before → Derives .value cs item →
      Space after → Derives .items (before ++ cs ++ after) (.array [item])
  | moreItems {before cs after rest : List Char} {item : Json} {items : List Json} :
      Space before → Derives .value cs item → Space after → Derives .items rest (.array items) →
      Derives .items (before ++ cs ++ after ++ ',' :: rest) (.array (item :: items))
  | oneMember {before name between colon cs after : List Char} {key : String} {value : Json} :
      Space before → Quoted name key → Space between → Space colon → Derives .value cs value →
      Space after →
      Derives .members (before ++ name ++ between ++ ':' :: (colon ++ cs ++ after))
        (.object [(key, value)])
  | moreMembers {before name between colon cs after rest : List Char} {key : String}
      {value : Json} {members : List (String × Json)} :
      Space before → Quoted name key → Space between → Space colon → Derives .value cs value →
      Space after → Derives .members rest (.object members) →
      Derives .members (before ++ name ++ between ++ ':' :: (colon ++ cs ++ after ++ ',' :: rest))
        (.object ((key, value) :: members))

/-- A JSON text: one value, whitespace around it. -/
def Document (text : List Char) (j : Json) : Prop :=
  ∃ before cs after, Space before ∧ Derives .value cs j ∧ Space after ∧
    text = before ++ cs ++ after

end Invokrum.JsonGrammar
