import Invokrum.Base.Outcome

/-!
# The YAML subset scanner

`validateYamlSubset` blanks the quoted text and the comments of each line on
its own and looks for reserved indicators in what is left.
-/

namespace Invokrum.Schema

open Outcome

/-- A YAML feature excluded from the compatibility subset. -/
inductive YamlFeature where
  | directive
  | documentEndMarker
  | anchor
  | alias
  | mergeKey
  | tag
  | blockScalar
  | explicitMappingKey
deriving DecidableEq

inductive PreflightError where
  | decode (format message : String)
  | duplicateMappingKey (format : String)
  | unsupportedYamlFeature (feature : YamlFeature)
  | multipleYamlDocuments
  | nestingTooDeep (maximumDepth : Nat)
deriving DecidableEq

/-- `char::is_whitespace`: the Unicode `White_Space` property. -/
def isWhitespace (c : Char) : Bool :=
  (9 ≤ c.toNat && c.toNat ≤ 13) || c.toNat == 0x20 || c.toNat == 0x85 || c.toNat == 0xA0 ||
    c.toNat == 0x1680 || (0x2000 ≤ c.toNat && c.toNat ≤ 0x200A) || c.toNat == 0x2028 ||
      c.toNat == 0x2029 || c.toNat == 0x202F || c.toNat == 0x205F || c.toNat == 0x3000

/-- `text.lines()`: the pieces ended by a line feed, less one carriage return before it. -/
def lines : List Char → List (List Char)
  | [] => []
  | c :: rest =>
      if c = '\n' then [] :: lines rest
      else if c = '\r' ∧ rest.head? = some '\n' then lines rest
      else match lines rest with
        | [] => [[c]]
        | line :: more => (c :: line) :: more

inductive Quote where
  | none
  | single
  | double
deriving DecidableEq

/-- The loop of `yaml_control_surface`. -/
def surfaceFrom : Quote → Bool → Bool → List Char → List Char
  | _, _, _, [] => []
  | .none, escaped, previousWhitespace, c :: rest =>
      if c = '#' ∧ previousWhitespace = true then []
      else if c = '\'' then ' ' :: surfaceFrom .single escaped false rest
      else if c = '"' then ' ' :: surfaceFrom .double escaped false rest
      else c :: surfaceFrom .none escaped (isWhitespace c) rest
  | .single, escaped, previousWhitespace, '\'' :: '\'' :: rest =>
      ' ' :: ' ' :: surfaceFrom .single escaped previousWhitespace rest
  | .single, escaped, previousWhitespace, c :: rest =>
      ' ' :: surfaceFrom (if c = '\'' then .none else .single) escaped previousWhitespace rest
  | .double, escaped, previousWhitespace, c :: rest =>
      if escaped then ' ' :: surfaceFrom .double false previousWhitespace rest
      else if c = '\\' then ' ' :: surfaceFrom .double true previousWhitespace rest
      else if c = '"' then ' ' :: surfaceFrom .none escaped previousWhitespace rest
      else ' ' :: surfaceFrom .double escaped previousWhitespace rest

def yamlControlSurface (line : List Char) : List Char := surfaceFrom .none false true line

def isDocumentMarker (input marker : List Char) : Bool :=
  input == marker || (marker.isPrefixOf input &&
    ((input.drop marker.length).head?.map isWhitespace).getD false)

/-- `surface.contains(needle)`. -/
def containsText (surface needle : List Char) : Bool := decide (needle <:+: surface)

/-- The first feature a line is refused for. -/
def lineFeature (line : List Char) : Option YamlFeature :=
  let surface := yamlControlSurface line
  let trimmed := surface.dropWhile isWhitespace
  if trimmed.head? = some '%' then some .directive
  else if isDocumentMarker trimmed ['.', '.', '.'] then some .documentEndMarker
  else if containsText surface ['<', '<', ':'] || containsText surface ['<', '<', ' ', ':'] then
    some .mergeKey
  else if '&' ∈ surface then some .anchor
  else if '*' ∈ surface then some .alias
  else if '!' ∈ surface then some .tag
  else if '|' ∈ surface ∨ '>' ∈ surface then some .blockScalar
  else if '?' ∈ surface then some .explicitMappingKey
  else none

def validateLine (line : List Char) : Except PreflightError Unit :=
  match lineFeature line with
  | some feature => .error (.unsupportedYamlFeature feature)
  | none => .ok ()

def validateYamlSubset (input : String) : Except PreflightError Unit :=
  forEach validateLine (lines input.toList)

/-! ## The scan as a fold over characters -/

/-- What the scanner takes the next character for. -/
inductive Scan where
  | outside (previousWhitespace : Bool)
  | single
  | double (escaped : Bool)
  | comment
deriving DecidableEq

def lineStep : Scan → Char → Scan
  | .outside previousWhitespace, c =>
      if c = '#' ∧ previousWhitespace = true then .comment
      else if c = '\'' then .single
      else if c = '"' then .double false
      else .outside (isWhitespace c)
  | .single, c => if c = '\'' then .outside false else .single
  | .double escaped, c =>
      if escaped then .double false
      else if c = '\\' then .double true
      else if c = '"' then .outside false
      else .double false
  | .comment, _ => .comment

/-- The text a scan keeps: characters outside, blanks for quoted text, nothing of a comment. -/
def kept : Scan → List Char → List Char
  | _, [] => []
  | s, c :: rest =>
      match s, lineStep s c with
      | .comment, _ => []
      | .outside _, .comment => []
      | .outside _, .outside pw => c :: kept (.outside pw) rest
      | _, next => ' ' :: kept next rest

theorem kept_nil (s : Scan) : kept s [] = [] := by
  cases s <;> rfl

theorem kept_single (c : Char) (rest : List Char) :
    kept .single (c :: rest) = ' ' :: kept (lineStep .single c) rest := by
  by_cases hc : c = '\'' <;> simp [kept, lineStep, hc]

theorem kept_double (escaped : Bool) (c : Char) (rest : List Char) :
    kept (.double escaped) (c :: rest) = ' ' :: kept (lineStep (.double escaped) c) rest := by
  cases escaped with
  | true => rfl
  | false =>
      by_cases hslash : c = '\\'
      · simp [kept, lineStep, hslash]
      · by_cases hquote : c = '"' <;> simp [kept, lineStep, hslash, hquote]

/-- The scan that a quote state and its two flags stand for. -/
def Quote.scan : Quote → Bool → Bool → Scan
  | .none, _, previousWhitespace => .outside previousWhitespace
  | .single, _, _ => .single
  | .double, escaped, _ => .double escaped

/-- A doubled quote closes and reopens; the surface is the same. -/
theorem surfaceFrom_eq_kept (quote : Quote) (escaped previousWhitespace : Bool)
    (line : List Char) (hescaped : quote ≠ .double → escaped = false)
    (hwhitespace : quote ≠ .none → previousWhitespace = false) :
    surfaceFrom quote escaped previousWhitespace line =
      kept (quote.scan escaped previousWhitespace) line := by
  fun_induction surfaceFrom quote escaped previousWhitespace line with
  | case1 => exact (kept_nil _).symm
  | case2 escaped pw c rest hcomment => simp [Quote.scan, kept, lineStep, hcomment]
  | case3 escaped pw rest _ ih =>
      rw [ih (fun _ => hescaped (by simp)) (fun _ => rfl)]
      simp [Quote.scan, kept, lineStep]
  | case4 escaped pw rest _ _ ih =>
      have hfalse : escaped = false := hescaped (by simp)
      subst hfalse
      rw [ih (by simp) (fun _ => rfl)]
      simp [Quote.scan, kept, lineStep]
  | case5 escaped pw c rest hcomment hsingle hdouble ih =>
      rw [ih (fun _ => hescaped (by simp)) (by simp)]
      simp [Quote.scan, kept, lineStep, hcomment, hsingle, hdouble]
  | case6 escaped pw rest ih =>
      -- the automaton closes at the first quote and opens again at the second
      rw [ih hescaped hwhitespace]
      simp [Quote.scan, kept, lineStep]
  | case7 escaped pw c rest _ ih =>
      have hfalse : pw = false := hwhitespace (by simp)
      subst hfalse
      by_cases hc : c = '\''
      · rw [if_pos hc] at ih ⊢
        rw [ih (fun _ => hescaped (by simp)) (by simp)]
        simp [Quote.scan, kept_single, lineStep, hc]
      · rw [if_neg hc] at ih ⊢
        rw [ih hescaped hwhitespace]
        simp [Quote.scan, kept_single, lineStep, hc]
  | case8 pw c rest ih =>
      rw [ih (by simp) hwhitespace]
      rfl
  | case9 escaped pw rest hopen ih =>
      rw [ih (by simp) hwhitespace]
      simp [Quote.scan, kept_double, lineStep, hopen]
  | case10 escaped pw rest hopen _ ih =>
      have hfalse : pw = false := hwhitespace (by simp)
      subst hfalse
      rw [ih (fun _ => by simpa using hopen) (by simp)]
      simp [Quote.scan, kept_double, lineStep, hopen]
  | case11 escaped pw c rest hopen hslash hquote ih =>
      rw [ih (by simp) hwhitespace]
      simp [Quote.scan, kept_double, lineStep, hopen, hslash, hquote]

theorem yamlControlSurface_eq_kept (line : List Char) :
    yamlControlSurface line = kept (.outside true) line :=
  surfaceFrom_eq_kept .none false true line (fun _ => rfl) (by simp)

theorem foldl_comment (line : List Char) : line.foldl lineStep .comment = .comment := by
  induction line with
  | nil => rfl
  | cons c line ih => exact ih

/-- After a prefix that leaves the scan outside, the surface goes on from there. -/
theorem kept_append {s : Scan} {front : List Char} (rest : List Char) {pw : Bool}
    (h : front.foldl lineStep s = .outside pw) :
    ∃ shown, kept s (front ++ rest) = shown ++ kept (.outside pw) rest := by
  induction front generalizing s with
  | nil =>
      rw [List.foldl_nil] at h
      exact ⟨[], by rw [h]; rfl⟩
  | cons c front ih =>
      rw [List.foldl_cons] at h
      obtain ⟨shown, hshown⟩ := ih h
      cases s with
      | outside previous =>
          cases hnext : lineStep (.outside previous) c with
          | outside next =>
              rw [hnext] at hshown
              exact ⟨c :: shown, by simp [kept, hnext, hshown]⟩
          | single =>
              rw [hnext] at hshown
              exact ⟨' ' :: shown, by simp [kept, hnext, hshown]⟩
          | double escaped =>
              rw [hnext] at hshown
              exact ⟨' ' :: shown, by simp [kept, hnext, hshown]⟩
          | comment =>
              rw [hnext, foldl_comment] at h
              cases h
      | single => exact ⟨' ' :: shown, by rw [List.cons_append, kept_single, hshown]; rfl⟩
      | double escaped => exact ⟨' ' :: shown, by rw [List.cons_append, kept_double, hshown]; rfl⟩
      | comment =>
          rw [show lineStep .comment c = .comment from rfl, foldl_comment] at h
          cases h

end Invokrum.Schema
