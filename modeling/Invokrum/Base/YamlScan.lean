import Mathlib.Tactic

/-!
# Where YAML starts a token

A character scanner for YAML streams, followed up to the first token that uses
an anchor, an alias, a tag, a block scalar, a complex key or a merge key.
Whether a plain scalar outside flow collections goes on after a line break
depends on block indentation; that decision is the parameter `folds`.
-/

namespace Invokrum.Yaml

/-! ## Characters -/

def isBreak (c : Char) : Bool := c == '\n' || c == '\r'

def isBlank (c : Char) : Bool := c == ' ' || c == '\t'

def isFlowIndicator (c : Char) : Bool :=
  c == ',' || c == '[' || c == ']' || c == '{' || c == '}'

def isQuote (c : Char) : Bool := c == '\'' || c == '"'

/-- A blank, a line break or the end of the stream comes next. -/
def blankNext : List Char → Bool
  | [] => true
  | c :: _ => isBlank c || isBreak c

/-- A colon before this text ends a plain scalar. -/
def valueNext (flow : Nat) : List Char → Bool
  | [] => true
  | c :: _ => isBlank c || isBreak c || (flow != 0 && isFlowIndicator c)

/-! ## Features -/

inductive Feature where
  | anchor
  | alias
  | tag
  | blockScalar
  | complexKey
  | mergeKey
deriving DecidableEq

/-- The plain scalar `<<` in the place of a mapping key. -/
def isMergeKey (flow : Nat) : List Char → Bool
  | '<' :: '<' :: rest =>
      match rest.dropWhile isBlank with
      | ':' :: after => valueNext flow after
      | _ => false
  | _ => false

/-- The feature of a token that begins here. -/
def feature (flow : Nat) : List Char → Option Feature
  | [] => none
  | c :: rest =>
      if c = '&' then some .anchor
      else if c = '*' then some .alias
      else if c = '!' then some .tag
      else if c = '|' ∨ c = '>' then some .blockScalar
      else if c = '?' ∧ (flow ≠ 0 ∨ blankNext rest = true) then some .complexKey
      else if isMergeKey flow (c :: rest) = true then some .mergeKey
      else none

/-! ## The scanner -/

inductive Mode where
  | gap -- between tokens: a token may begin
  | plain (afterBlank : Bool)
  | marker
  | single
  | double (escaped : Bool)
  | comment
  | stopped
deriving DecidableEq

structure State where
  mode : Mode
  flow : Nat
  lineStart : Bool

def State.initial : State := ⟨.gap, 0, true⟩

def State.goto (s : State) (mode : Mode) : State := ⟨mode, s.flow, false⟩

def State.newLine (s : State) (mode : Mode) : State := ⟨mode, s.flow, true⟩

def State.openFlow (s : State) : State := ⟨.gap, s.flow + 1, false⟩

def State.closeFlow (s : State) : State := ⟨.gap, s.flow - 1, false⟩

/-- `---` or `...` on its own at the start of a line. -/
def isMarker (s : State) (text : List Char) : Bool :=
  s.lineStart && (text.take 3 == ['-', '-', '-'] || text.take 3 == ['.', '.', '.']) &&
    blankNext (text.drop 3)

/-- At the first character of a token without a feature. -/
def tokenStep (s : State) (c : Char) (rest : List Char) : State :=
  if c = '\'' then s.goto .single
  else if c = '"' then s.goto (.double false)
  else if c = '[' ∨ c = '{' then s.openFlow
  else if c = ']' ∨ c = '}' then s.closeFlow
  else if c = ',' then s.goto .gap
  else if (c = '-' ∧ blankNext rest = true) ∨ (c = ':' ∧ (s.flow ≠ 0 ∨ blankNext rest = true)) then
    s.goto .gap
  else if c = '@' ∨ c = '%' ∨ c = Char.ofNat 96 then s.goto .stopped
  else s.goto (.plain false)

/-- Between tokens. -/
def gapStep (s : State) (c : Char) (rest : List Char) : State :=
  if isBreak c then s.newLine .gap
  else if isBlank c then s.goto .gap
  else if c = '#' then s.goto .comment
  else if s.lineStart = true ∧ c = '%' then s.goto .comment
  else if isMarker s (c :: rest) then s.goto .marker
  else if (feature s.flow (c :: rest)).isSome then s.goto .stopped
  else tokenStep s c rest

/-- Inside a plain scalar, where a quote is an ordinary character. -/
def plainStep (folds : List Char → Bool) (s : State) (afterBlank : Bool) (c : Char)
    (rest : List Char) : State :=
  if isBreak c then
    if s.flow ≠ 0 ∨ folds rest = true then s.newLine (.plain true) else s.newLine .gap
  else if isBlank c then s.goto (.plain true)
  else if c = '#' ∧ afterBlank = true then s.goto .comment
  else if isMarker s (c :: rest) then s.goto .marker
  else if c = ':' ∧ valueNext s.flow rest = true then s.goto .gap
  else if s.flow ≠ 0 ∧ isFlowIndicator c = true then
    if c = '[' ∨ c = '{' then s.openFlow
    else if c = ',' then s.goto .gap
    else s.closeFlow
  else s.goto (.plain false)

/-- One character, with the rest of the stream for lookahead. -/
def step (folds : List Char → Bool) (s : State) (c : Char) (rest : List Char) : State :=
  match s.mode with
  | .gap => gapStep s c rest
  | .plain afterBlank => plainStep folds s afterBlank c rest
  | .marker =>
      if isBreak c then s.newLine .gap
      else if isBlank c then s.goto .gap
      else s.goto .marker
  | .single => if c = '\'' then s.goto .gap else s.goto .single
  | .double escaped =>
      if escaped then s.goto (.double false)
      else if c = '\\' then s.goto (.double true)
      else if c = '"' then s.goto .gap
      else s.goto (.double false)
  | .comment => if isBreak c then s.newLine .gap else s.goto .comment
  | .stopped => s

/-- The state after `before`, when `after` follows. -/
def stateFrom (folds : List Char → Bool) : State → List Char → List Char → State
  | s, [], _ => s
  | s, c :: before, after => stateFrom folds (step folds s c (before ++ after)) before after

def stateAt (folds : List Char → Bool) (before after : List Char) : State :=
  stateFrom folds .initial before after

/-- A token with this feature begins where `before` ends and `after` begins. -/
def FeatureAt (folds : List Char → Bool) (before after : List Char) (f : Feature) : Prop :=
  (stateAt folds before after).mode = .gap ∧
    feature (stateAt folds before after).flow after = some f

/-- Somewhere in the text a token with a feature begins. -/
def UsesFeature (folds : List Char → Bool) (text : List Char) : Prop :=
  ∃ before after f, text = before ++ after ∧ FeatureAt folds before after f

theorem stateFrom_concat (folds : List Char → Bool) (s : State) (before : List Char) (c : Char)
    (after : List Char) : stateFrom folds s (before ++ [c]) after =
      step folds (stateFrom folds s before (c :: after)) c after := by
  induction before generalizing s with
  | nil => rfl
  | cons d before ih =>
      rw [List.cons_append, stateFrom, stateFrom, ih, List.append_assoc]
      rfl

theorem stateAt_concat (folds : List Char → Bool) (before : List Char) (c : Char)
    (after : List Char) : stateAt folds (before ++ [c]) after =
      step folds (stateAt folds before (c :: after)) c after :=
  stateFrom_concat folds .initial before c after

/-! ## What a step can do to the mode -/

/-- The scanner is inside a quoted scalar. -/
def Mode.quoted : Mode → Bool
  | .single => true
  | .double _ => true
  | _ => false

theorem gapStep_not_quoted {s : State} {c : Char} {rest : List Char} (hc : isQuote c = false) :
    (gapStep s c rest).mode.quoted = false := by
  have hsingle : c ≠ '\'' := by
    intro h
    simp [h, isQuote] at hc
  have hdouble : c ≠ '"' := by
    intro h
    simp [h, isQuote] at hc
  have htoken : (tokenStep s c rest).mode.quoted = false := by
    unfold tokenStep
    rw [if_neg hsingle, if_neg hdouble]
    split_ifs <;> rfl
  unfold gapStep
  split_ifs <;> first | rfl | exact htoken

theorem plainStep_not_quoted (folds : List Char → Bool) (s : State) (afterBlank : Bool) (c : Char)
    (rest : List Char) : (plainStep folds s afterBlank c rest).mode.quoted = false := by
  unfold plainStep
  split_ifs <;> rfl

/-- Only a quote between tokens opens a quoted scalar. -/
theorem step_not_quoted {folds : List Char → Bool} {s : State} {c : Char} {rest : List Char}
    (hs : s.mode.quoted = false) (hc : isQuote c = false) :
    (step folds s c rest).mode.quoted = false := by
  unfold step
  cases hmode : s.mode with
  | gap => exact gapStep_not_quoted hc
  | plain afterBlank => exact plainStep_not_quoted folds s afterBlank c rest
  | marker =>
      show (if isBreak c then s.newLine .gap else if isBlank c then s.goto .gap
        else s.goto .marker).mode.quoted = false
      split_ifs <;> rfl
  | single => simp [hmode, Mode.quoted] at hs
  | double escaped => simp [hmode, Mode.quoted] at hs
  | comment =>
      show (if isBreak c then s.newLine .gap else s.goto .comment).mode.quoted = false
      split_ifs <;> rfl
  | stopped => exact hs

theorem step_single_open {folds : List Char → Bool} {s : State} {rest : List Char}
    (h : s.mode = .gap) : (step folds s '\'' rest).mode = .single := by
  simp [step, h, gapStep, tokenStep, isBreak, isBlank, isMarker, feature, isMergeKey, State.goto]

theorem step_double_open {folds : List Char → Bool} {s : State} {rest : List Char}
    (h : s.mode = .gap) : (step folds s '"' rest).mode = .double false := by
  simp [step, h, gapStep, tokenStep, isBreak, isBlank, isMarker, feature, isMergeKey, State.goto]

/-- Where a comment can begin, `#` begins one. -/
theorem step_hash {folds : List Char → Bool} {s : State} {rest : List Char}
    (h : s.mode = .gap ∨ s.mode = .plain true ∨ s.mode = .comment) :
    (step folds s '#' rest).mode = .comment := by
  rcases h with h | h | h
  · simp [step, h, gapStep, isBreak, isBlank, State.goto]
  · simp [step, h, plainStep, isBreak, isBlank, State.goto]
  · simp [step, h, isBreak, State.goto]

/-- A comment begins at `#`, or at the `%` of a directive. -/
theorem step_comment {folds : List Char → Bool} {s : State} {c : Char} {rest : List Char}
    (hs : s.mode ≠ .comment) (h : (step folds s c rest).mode = .comment) :
    c = '#' ∧ (s.mode = .gap ∨ s.mode = .plain true) ∨
      c = '%' ∧ s.mode = .gap ∧ s.lineStart = true := by
  unfold step at h
  split at h
  · next hmode =>
      have htoken : (tokenStep s c rest).mode ≠ .comment := by
        unfold tokenStep
        split_ifs <;> simp [State.goto, State.openFlow, State.closeFlow]
      unfold gapStep at h
      split_ifs at h with _ _ hhash hdirective
      all_goals first
        | exact absurd h htoken
        | exact .inl ⟨hhash, .inl hmode⟩
        | exact .inr ⟨hdirective.2, hmode, hdirective.1⟩
        | simp [State.newLine, State.goto] at h
  · next afterBlank hmode =>
      unfold plainStep at h
      split_ifs at h with _ _ _ hhash
      all_goals first
        | exact .inl ⟨hhash.1, .inr (hhash.2 ▸ hmode)⟩
        | simp [State.newLine, State.goto, State.openFlow, State.closeFlow] at h
  · split_ifs at h <;> simp [State.newLine, State.goto] at h
  · split_ifs at h <;> simp [State.goto] at h
  · split_ifs at h <;> simp [State.goto] at h
  · next hmode => exact absurd hmode hs
  · next hmode => exact absurd (hmode.symm.trans h) (by simp)

theorem step_stopped {folds : List Char → Bool} {s : State} {c : Char} {rest : List Char}
    (h : s.mode = .stopped) : (step folds s c rest).mode = .stopped := by
  simp [step, h]

end Invokrum.Yaml
