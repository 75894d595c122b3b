import Invokrum.Base.YamlScan
import Invokrum.Schema.Strict

/-!
# How far the subset scanner sees what YAML sees

The scanner starts afresh on every line and lets any quote open a quoted text;
YAML does neither. A feature the scanner looks at is always refused, and it
looks at the first feature of a text as long as the two read quotes and
comments in the same way.
-/

namespace Invokrum.Schema

open Outcome Yaml

/-! ## The scan of a text -/

/-- One character of a text: the scan starts afresh after a line feed. -/
def textStep (s : Scan) (c : Char) : Scan := if c = '\n' then .outside true else lineStep s c

/-- What the scanner takes the character after this text for. -/
def scanAt (before : List Char) : Scan := before.foldl textStep (.outside true)

theorem scanAt_concat (before : List Char) (c : Char) :
    scanAt (before ++ [c]) = textStep (scanAt before) c := by
  simp [scanAt]

/-- A character that ends no line joins the first line of what follows. -/
theorem lines_cons {c : Char} (rest : List Char) (hc : c ≠ '\n')
    (hr : ¬ (c = '\r' ∧ rest.head? = some '\n')) :
    ∃ back more, lines (c :: rest) = (c :: back) :: more ∧
      (lines rest = back :: more ∨ (lines rest = [] ∧ back = [] ∧ more = [])) := by
  rw [lines, if_neg hc, if_neg hr]
  cases hrest : lines rest with
  | nil => exact ⟨[], [], rfl, Or.inr ⟨rfl, rfl, rfl⟩⟩
  | cons line more => exact ⟨line, more, rfl, Or.inl rfl⟩

/-- The characters that end no line. -/
def Inline (segment : List Char) : Prop :=
  segment ≠ [] ∧ ∀ c ∈ segment, c ≠ '\n' ∧ c ≠ '\r'

theorem lines_segment {segment : List Char} (after : List Char) (h : Inline segment) :
    ∃ back more, lines (segment ++ after) = (segment ++ back) :: more := by
  obtain ⟨hne, hall⟩ := h
  induction segment with
  | nil => exact absurd rfl hne
  | cons c segment ih =>
      have hc := hall c List.mem_cons_self
      obtain ⟨back, more, hlines, hrest⟩ :=
        lines_cons (segment ++ after) hc.1 fun hr => hc.2 hr.1
      by_cases hnil : segment = []
      · subst hnil
        exact ⟨back, more, hlines⟩
      · obtain ⟨back', more', htail⟩ := ih hnil fun d hd => hall d (List.mem_cons_of_mem c hd)
        rcases hrest with hrest | ⟨hempty, _, _⟩
        · rw [htail, List.cons.injEq] at hrest
          exact ⟨back', more, by rw [List.cons_append, List.cons_append, hrest.1, hlines]⟩
        · rw [htail] at hempty
          cases hempty

/-- A stretch of text within one line lies in one of the lines, and the scans agree there:
in the first line the scan goes on, in every other it starts afresh. -/
theorem line_of_segment (before after : List Char) {segment : List Char} (h : Inline segment)
    (s : Scan) :
    (∃ front back more, lines (before ++ (segment ++ after)) =
        (front ++ (segment ++ back)) :: more ∧ front.foldl lineStep s = before.foldl textStep s) ∨
      ∃ front back, front ++ (segment ++ back) ∈ (lines (before ++ (segment ++ after))).tail ∧
        front.foldl lineStep (.outside true) = before.foldl textStep s := by
  induction before generalizing s with
  | nil =>
      obtain ⟨back, more, hlines⟩ := lines_segment after h
      exact Or.inl ⟨[], back, more, hlines, rfl⟩
  | cons c before ih =>
      by_cases hc : c = '\n'
      · subst hc
        have hlines : lines ('\n' :: before ++ (segment ++ after)) =
            [] :: lines (before ++ (segment ++ after)) := by simp [lines]
        rw [hlines]
        right
        rcases ih (.outside true) with ⟨front, back, more, hfirst, hscan⟩ | ⟨front, back, hmem, hscan⟩
        · exact ⟨front, back, by simp [hfirst], hscan⟩
        · exact ⟨front, back, List.mem_of_mem_tail hmem, hscan⟩
      · have hstep : textStep s c = lineStep s c := if_neg hc
        by_cases hr : c = '\r' ∧ (before ++ (segment ++ after)).head? = some '\n'
        · -- the carriage return is dropped with the line feed after it
          have hlines : lines (c :: before ++ (segment ++ after)) =
              lines (before ++ (segment ++ after)) := by
            rw [List.cons_append, lines, if_neg hc, if_pos hr]
          rw [hlines]
          right
          rcases ih (textStep s c) with ⟨front, back, more, hfirst, _⟩ | hlater
          · obtain ⟨rest, hrest⟩ := List.head?_eq_some_iff.mp hr.2
            rw [hrest] at hfirst
            simp [lines, h.1] at hfirst
          · exact hlater
        · obtain ⟨back', more', hlines, hrest⟩ :=
            lines_cons (before ++ (segment ++ after)) hc hr
          have htail : (lines (before ++ (segment ++ after))).tail = more' := by
            rcases hrest with hrest | ⟨hrest, _, rfl⟩
            · rw [hrest, List.tail_cons]
            · rw [hrest, List.tail_nil]
          rcases ih (lineStep s c) with ⟨front, back, more, hfirst, hscan⟩ | ⟨front, back, hmem, hscan⟩
          · left
            rcases hrest with hrest | ⟨hrest, _, _⟩
            · rw [hrest, List.cons.injEq] at hfirst
              refine ⟨c :: front, back, more', ?_, ?_⟩
              · rw [List.cons_append, hlines, hfirst.1, List.cons_append]
              · rw [List.foldl_cons, hscan, List.foldl_cons, hstep]
            · rw [hrest] at hfirst
              cases hfirst
          · right
            refine ⟨front, back, ?_, ?_⟩
            · rw [List.cons_append, hlines, List.tail_cons, ← htail]
              exact hmem
            · rw [hscan, List.foldl_cons, hstep]

/-- What the scanner sees outside quotes and comments is on the surface of a line. -/
theorem surface_of_outside {before segment : List Char} (after : List Char) {pw : Bool}
    (h : Inline segment) (hscan : scanAt before = .outside pw) :
    ∃ line ∈ lines (before ++ (segment ++ after)), ∃ shown back,
      yamlControlSurface line = shown ++ kept (.outside pw) (segment ++ back) := by
  rcases line_of_segment before after h (.outside true) with
    ⟨front, back, more, hfirst, hfold⟩ | ⟨front, back, hmem, hfold⟩
  · obtain ⟨shown, hshown⟩ := kept_append (segment ++ back) (hfold.trans hscan)
    exact ⟨_, by rw [hfirst]; exact List.mem_cons_self, shown, back,
      (yamlControlSurface_eq_kept _).trans hshown⟩
  · obtain ⟨shown, hshown⟩ := kept_append (segment ++ back) (hfold.trans hscan)
    exact ⟨_, List.mem_of_mem_tail hmem, shown, back,
      (yamlControlSurface_eq_kept _).trans hshown⟩

/-! ## Refused features -/

/-- The indicators the scanner refuses wherever it sees them. -/
def reserved : List Char := ['&', '*', '!', '|', '>', '?']

theorem lineFeature_ne_none {line : List Char}
    (h : (∃ c ∈ reserved, c ∈ yamlControlSurface line) ∨
      ∃ needle ∈ [['<', '<', ':'], ['<', '<', ' ', ':']],
        containsText (yamlControlSurface line) needle = true) : lineFeature line ≠ none := by
  intro hnone
  unfold lineFeature at hnone
  dsimp only at hnone
  split_ifs at hnone
  all_goals simp_all [reserved]

theorem validateYamlSubset_eq_ok {input : String} :
    validateYamlSubset input = .ok () ↔ ∀ line ∈ lines input.toList, lineFeature line = none := by
  have hline : ∀ line, validateLine line = .ok () ↔ lineFeature line = none := by
    intro line
    unfold validateLine
    cases lineFeature line <;> simp
  simp only [validateYamlSubset, forEach_eq_ok, hline]

/-- The scanner looks at the token: it is outside quotes and comments for the scanner, and
a merge key has its colon where the scanner looks for one. -/
structure Caught (before after : List Char) (f : Feature) : Prop where
  outside : ∃ pw, scanAt before = .outside pw
  colon : f = .mergeKey → ['<', '<', ':'] <+: after ∨ ['<', '<', ' ', ':'] <+: after

theorem feature_head {flow : Nat} {after : List Char} {f : Feature}
    (h : feature flow after = some f) (hf : f ≠ .mergeKey) :
    ∃ c rest, after = c :: rest ∧ c ∈ reserved := by
  cases after with
  | nil => cases h
  | cons c rest =>
      refine ⟨c, rest, rfl, ?_⟩
      rw [feature] at h
      simp only [reserved, List.mem_cons, List.not_mem_nil, or_false]
      split_ifs at h <;> grind

/-- Characters the scan passes over unchanged from outside. -/
def Shown (segment : List Char) : Prop :=
  segment ≠ [] ∧ ∀ c ∈ segment, c ∉ ['\n', '\r', '#', '\'', '"']

theorem Shown.inline {segment : List Char} (h : Shown segment) : Inline segment := by
  refine ⟨h.1, fun c hc => ?_⟩
  have hnot := h.2 c hc
  simp only [List.mem_cons, not_or] at hnot
  exact ⟨hnot.1, hnot.2.1⟩

theorem kept_shown {segment : List Char} (pw : Bool) (back : List Char)
    (h : ∀ c ∈ segment, c ∉ ['\n', '\r', '#', '\'', '"']) :
    ∃ tail, kept (.outside pw) (segment ++ back) = segment ++ tail := by
  induction segment generalizing pw with
  | nil => exact ⟨_, rfl⟩
  | cons c segment ih =>
      have hc := h c List.mem_cons_self
      simp only [List.mem_cons, not_or] at hc
      have hstep : lineStep (.outside pw) c = .outside (isWhitespace c) := by
        simp [lineStep, hc]
      obtain ⟨tail, htail⟩ := ih (isWhitespace c) fun d hd => h d (List.mem_cons_of_mem c hd)
      exact ⟨tail, by simp [kept, hstep, htail]⟩

/-- A stretch the scanner sees is on the surface of a line. -/
theorem shown_on_surface {before segment : List Char} (after : List Char) {pw : Bool}
    (h : Shown segment) (hscan : scanAt before = .outside pw) :
    ∃ line ∈ lines (before ++ (segment ++ after)), segment <:+: yamlControlSurface line := by
  obtain ⟨line, hline, shown, back, hsurface⟩ :=
    surface_of_outside after h.inline hscan
  obtain ⟨tail, htail⟩ := kept_shown pw back h.2
  exact ⟨line, hline, shown, tail, by rw [hsurface, htail, List.append_assoc]⟩

/-- A feature the scanner looks at is refused. -/
theorem caught_refused {folds : List Char → Bool} {input : String} {before after : List Char}
    {f : Feature} (htext : input.toList = before ++ after) (hf : FeatureAt folds before after f)
    (hcaught : Caught before after f) : validateYamlSubset input ≠ .ok () := by
  intro hok
  rw [validateYamlSubset_eq_ok, htext] at hok
  obtain ⟨pw, hscan⟩ := hcaught.outside
  by_cases hmerge : f = .mergeKey
  · obtain ⟨needle, hneedle, rest, rfl⟩ : ∃ needle ∈ [['<', '<', ':'], ['<', '<', ' ', ':']],
        ∃ rest, after = needle ++ rest := by
      rcases hcaught.colon hmerge with ⟨rest, hrest⟩ | ⟨rest, hrest⟩
      · exact ⟨_, by simp, rest, hrest.symm⟩
      · exact ⟨_, by simp, rest, hrest.symm⟩
    have hshown : Shown needle := by
      rcases List.mem_cons.mp hneedle with rfl | hneedle
      · exact ⟨by simp, by simp⟩
      · rw [List.mem_singleton.mp hneedle]
        exact ⟨by simp, by simp⟩
    obtain ⟨line, hline, hinfix⟩ := shown_on_surface rest hshown hscan
    exact lineFeature_ne_none (Or.inr ⟨needle, hneedle, decide_eq_true hinfix⟩) (hok line hline)
  · obtain ⟨c, rest, rfl, hc⟩ := feature_head hf.2 hmerge
    have hreserved : ∀ d ∈ reserved, d ∉ ['\n', '\r', '#', '\'', '"'] := by
      simp [reserved]
    have hshown : Shown [c] := ⟨by simp, by simpa using hreserved c hc⟩
    obtain ⟨line, hline, hinfix⟩ := shown_on_surface rest hshown hscan
    exact lineFeature_ne_none (Or.inl ⟨c, hc, (List.singleton_infix_iff c _).mp hinfix⟩) (hok line hline)

/-! ## Reading in step -/

/-- What YAML, in this state, reads at a character is what a scanner of single lines takes it for.
A quote is no character of a plain scalar, a quoted scalar closes on its line, a `#` begins a
comment exactly behind whitespace, a carriage return ends no comment on its own, no line is a
directive, and a merge key has its colon next to it or one space away. -/
structure InStepAt (state : State) (behindSpace : Bool) (c : Char) (rest : List Char) : Prop where
  quotes : isQuote c = true → state.mode = .gap ∨ state.mode.quoted = true ∨
    state.mode = .comment ∨ state.mode = .stopped
  closes : state.mode.quoted = true → c ≠ '\n'
  comments : c = '#' → state.mode.quoted = false → state.mode ≠ .comment →
    state.mode ≠ .stopped → (behindSpace = true ↔ state.mode = .gap ∨ state.mode = .plain true)
  breaks : state.mode = .comment → c = '\r' → rest.head? = some '\n'
  directives : state.mode = .gap → state.lineStart = true → c ≠ '%'
  colons : state.mode = .gap → isMergeKey state.flow (c :: rest) = true →
    ['<', '<', ':'] <+: c :: rest ∨ ['<', '<', ' ', ':'] <+: c :: rest

set_option synthInstance.maxSize 512 in
instance (state : State) (behindSpace : Bool) (c : Char) (rest : List Char) :
    Decidable (InStepAt state behindSpace c rest) :=
  decidable_of_iff
    ((isQuote c = true → state.mode = .gap ∨ state.mode.quoted = true ∨ state.mode = .comment ∨
        state.mode = .stopped) ∧
      (state.mode.quoted = true → c ≠ '\n') ∧
      (c = '#' → state.mode.quoted = false → state.mode ≠ .comment → state.mode ≠ .stopped →
        (behindSpace = true ↔ state.mode = .gap ∨ state.mode = .plain true)) ∧
      (state.mode = .comment → c = '\r' → rest.head? = some '\n') ∧
      (state.mode = .gap → state.lineStart = true → c ≠ '%') ∧
      (state.mode = .gap → isMergeKey state.flow (c :: rest) = true →
        ['<', '<', ':'] <+: c :: rest ∨ ['<', '<', ' ', ':'] <+: c :: rest))
    ⟨fun ⟨h₁, h₂, h₃, h₄, h₅, h₆⟩ => ⟨h₁, h₂, h₃, h₄, h₅, h₆⟩,
      fun h => ⟨h.quotes, h.closes, h.comments, h.breaks, h.directives, h.colons⟩⟩

def InStepFrom (folds : List Char → Bool) : State → Bool → List Char → Prop
  | _, _, [] => True
  | state, behindSpace, c :: rest => InStepAt state behindSpace c rest ∧
      InStepFrom folds (step folds state c rest) (isWhitespace c) rest

instance instDecidableInStepFrom (folds : List Char → Bool) :
    ∀ state behindSpace text, Decidable (InStepFrom folds state behindSpace text)
  | _, _, [] => inferInstanceAs (Decidable True)
  | state, _, c :: rest =>
      have := instDecidableInStepFrom folds (step folds state c rest) (isWhitespace c) rest
      inferInstanceAs (Decidable (_ ∧ _))

/-- YAML reads the whole text as a scanner of single lines takes it. -/
def InStep (folds : List Char → Bool) (text : List Char) : Prop :=
  InStepFrom folds .initial true text

instance (folds : List Char → Bool) (text : List Char) : Decidable (InStep folds text) :=
  inferInstanceAs (Decidable (InStepFrom folds .initial true text))

/-- Whether the character after this text stands behind whitespace or at the start. -/
def behindSpace (before : List Char) : Bool := before.foldl (fun _ c => isWhitespace c) true

theorem inStepAt_of_split {folds : List Char → Bool} {state : State} {space : Bool}
    {before after : List Char} {c : Char}
    (h : InStepFrom folds state space (before ++ c :: after)) :
    InStepAt (stateFrom folds state before (c :: after))
      (before.foldl (fun _ c => isWhitespace c) space) c after := by
  induction before generalizing state space with
  | nil => exact h.1
  | cons d before ih => exact ih h.2

/-- Outside quotes and comments the scanner knows what it stands behind. -/
theorem scanAt_outside {before : List Char} {pw : Bool} (h : scanAt before = .outside pw) :
    pw = behindSpace before := by
  induction before using List.reverseRecOn with
  | nil => exact (Scan.outside.inj h).symm
  | append_singleton before c _ =>
      have hspace : behindSpace (before ++ [c]) = isWhitespace c := by simp [behindSpace]
      rw [scanAt_concat, textStep] at h
      rw [hspace]
      by_cases hline : c = '\n'
      · rw [if_pos hline] at h
        rw [← Scan.outside.inj h, hline]
        rfl
      · rw [if_neg hline] at h
        cases hscan : scanAt before with
        | outside pw' =>
            rw [hscan, lineStep] at h
            split_ifs at h
            exact (Scan.outside.inj h).symm
        | single =>
            rw [hscan, lineStep] at h
            split_ifs at h with hquote
            rw [← Scan.outside.inj h, hquote]
            rfl
        | double escaped =>
            rw [hscan, lineStep] at h
            split_ifs at h with _ _ hquote
            rw [← Scan.outside.inj h, hquote]
            rfl
        | comment => rw [hscan] at h; cases h

/-- The mode of YAML is the one the scanner takes the next character for, unless YAML has
already met a feature or an error. Between the two characters of a line end YAML has left a
comment that the scanner is about to leave. -/
def Agrees (after : List Char) : Scan → Mode → Prop
  | .outside _, mode => mode.quoted = false ∧ mode ≠ .comment
  | .single, mode => mode = .single ∨ mode = .stopped
  | .double escaped, mode => mode = .double escaped ∨ mode = .stopped
  | .comment, mode => mode = .comment ∨ mode = .stopped ∨
      (after.head? = some '\n' ∧ mode.quoted = false ∧ mode ≠ .comment)

theorem agrees_stopped (after : List Char) (s : Scan) : Agrees after s .stopped := by
  cases s with
  | outside pw => exact ⟨rfl, by simp⟩
  | single => exact .inr rfl
  | double escaped => exact .inr rfl
  | comment => exact .inr (.inl rfl)

/-- At the end of a line YAML is outside quotes and comments like the scanner. -/
theorem agrees_newLine {folds : List Char → Bool} {state : State} {rest : List Char}
    (h : state.mode.quoted = false) :
    Agrees rest (.outside true) (step folds state '\n' rest).mode := by
  refine ⟨step_not_quoted h rfl, ?_⟩
  intro hcomment
  by_cases hmode : state.mode = .comment
  · simp [step, hmode, isBreak, State.newLine] at hcomment
  · rcases step_comment hmode hcomment with ⟨hc, _⟩ | ⟨hc, _⟩ <;> cases hc

/-- Outside quotes and comments, the next character keeps the two together. -/
theorem agrees_outside {folds : List Char → Bool} {state : State} {pw : Bool} {c : Char}
    {rest : List Char} (hstep : InStepAt state pw c rest) (hquoted : state.mode.quoted = false)
    (hcomment : state.mode ≠ .comment) (hstopped : state.mode ≠ .stopped) :
    Agrees rest (textStep (.outside pw) c) (step folds state c rest).mode := by
  by_cases hline : c = '\n'
  · subst hline
    exact agrees_newLine hquoted
  rw [textStep, if_neg hline]
  by_cases hhash : c = '#' ∧ pw = true
  · obtain ⟨rfl, rfl⟩ := hhash
    have hmode := (hstep.comments rfl hquoted hcomment hstopped).mp rfl
    exact .inl (step_hash (hmode.imp_right .inl))
  by_cases hquote : isQuote c = true
  · have hgap : state.mode = .gap := by
      rcases hstep.quotes hquote with h | h | h | h
      · exact h
      · rw [hquoted] at h
        cases h
      · exact absurd h hcomment
      · exact absurd h hstopped
    by_cases hsingle : c = '\''
    · subst hsingle
      exact .inl (step_single_open hgap)
    · obtain rfl : c = '"' := by simpa [isQuote, hsingle] using hquote
      exact .inl (step_double_open hgap)
  · have hother : c ≠ '\'' ∧ c ≠ '"' := by simpa [isQuote] using hquote
    rw [lineStep, if_neg hhash, if_neg hother.1, if_neg hother.2]
    refine ⟨step_not_quoted hquoted (by simpa using hquote), ?_⟩
    intro hnext
    rcases step_comment hcomment hnext with ⟨hc, hmode⟩ | ⟨hc, hgap, hstart⟩
    · exact hhash ⟨hc, (hstep.comments hc hquoted hcomment hstopped).mpr hmode⟩
    · exact hstep.directives hgap hstart hc

/-- One character keeps the two together. -/
theorem agrees_step {folds : List Char → Bool} {s : Scan} {state : State} {space : Bool}
    {c : Char} {rest : List Char} (h : Agrees (c :: rest) s state.mode)
    (hspace : ∀ pw, s = .outside pw → pw = space) (hstep : InStepAt state space c rest) :
    Agrees rest (textStep s c) (step folds state c rest).mode := by
  by_cases hstopped : state.mode = .stopped
  · rw [step_stopped hstopped]
    exact agrees_stopped _ _
  cases s with
  | outside pw =>
      obtain rfl := hspace pw rfl
      exact agrees_outside hstep h.1 h.2 hstopped
  | single =>
      have hmode := h.resolve_right hstopped
      rw [textStep, if_neg (hstep.closes (by rw [hmode]; rfl))]
      by_cases hquote : c = '\'' <;>
        simp [lineStep, step, hmode, hquote, Agrees, State.goto, Mode.quoted]
  | double escaped =>
      have hmode := h.resolve_right hstopped
      rw [textStep, if_neg (hstep.closes (by rw [hmode]; rfl))]
      simp only [lineStep, step, hmode]
      split_ifs <;> simp [Agrees, State.goto, Mode.quoted]
  | comment =>
      rcases h with hmode | hmode | ⟨hhead, hquoted, _⟩
      · by_cases hline : c = '\n'
        · subst hline
          exact agrees_newLine (by rw [hmode]; rfl)
        · rw [textStep, if_neg hline]
          by_cases hreturn : c = '\r'
          · have hhead := hstep.breaks hmode hreturn
            exact .inr (.inr ⟨hhead, by simp [step, hmode, hreturn, isBreak, State.newLine,
              Mode.quoted]⟩)
          · exact .inl (by simp [step, hmode, hline, hreturn, isBreak, State.goto])
      · exact absurd hmode hstopped
      · obtain rfl : c = '\n' := Option.some.inj hhead
        exact agrees_newLine hquoted

theorem agrees_of_inStep {folds : List Char → Bool} {text before after : List Char}
    (h : InStep folds text) (htext : text = before ++ after) :
    Agrees after (scanAt before) (stateAt folds before after).mode := by
  induction before using List.reverseRecOn generalizing after with
  | nil => exact ⟨rfl, by simp [stateAt, stateFrom, State.initial]⟩
  | append_singleton before c ih =>
      rw [List.append_assoc, List.singleton_append] at htext
      rw [scanAt_concat, stateAt_concat]
      rw [InStep, htext] at h
      exact agrees_step (ih htext) (fun pw => scanAt_outside) (inStepAt_of_split h)

theorem feature_mergeKey {flow : Nat} {after : List Char} (h : feature flow after = some .mergeKey) :
    isMergeKey flow after = true := by
  cases after with
  | nil => cases h
  | cons c rest =>
      rw [feature] at h
      split_ifs at h with _ _ _ _ _ hmerge
      all_goals first | exact hmerge | cases h

/-- The scanner looks at every feature of a text in step. -/
theorem caught_of_inStep {folds : List Char → Bool} {text before after : List Char} {f : Feature}
    (h : InStep folds text) (htext : text = before ++ after)
    (hfeature : FeatureAt folds before after f) : Caught before after f := by
  obtain ⟨hgap, hf⟩ := hfeature
  have hagrees := agrees_of_inStep h htext
  rw [hgap] at hagrees
  constructor
  · cases hscan : scanAt before with
    | outside pw => exact ⟨pw, rfl⟩
    | single => rw [hscan] at hagrees; rcases hagrees with h | h <;> cases h
    | double escaped => rw [hscan] at hagrees; rcases hagrees with h | h <;> cases h
    | comment =>
        rw [hscan] at hagrees
        rcases hagrees with h | h | ⟨hhead, _⟩
        · cases h
        · cases h
        · obtain ⟨rest, rfl⟩ := List.head?_eq_some_iff.mp hhead
          simp [feature, isMergeKey] at hf
  · intro hmerge
    subst hmerge
    cases after with
    | nil => cases hf
    | cons c rest =>
        rw [InStep, htext] at h
        exact (inStepAt_of_split h).colons hgap (feature_mergeKey hf)

/-- A comment with an apostrophe before a line end of two characters, a quoted `#` and a quoted
`&`. -/
def inStepText : String := "# it's\r\na: 'x # y'\nb: [\"&c\", d] # e\n"

end Invokrum.Schema
