import Mathlib.Tactic

/-!
# Regular expressions with lookahead

The part of ECMA-262 that published patterns use, read over characters. A match
has a place: what stands before it and behind it decides the assertions. How
the engine searches does not matter to whether it finds a match.
-/

namespace Invokrum

inductive Regex where
  | empty
  | chars (p : Char → Bool)
  | seq (first second : Regex)
  | alt (first second : Regex)
  | star (body : Regex)
  /-- `^` -/
  | start
  /-- `$` -/
  | stop
  /-- `(?=…)` -/
  | ahead (body : Regex)
  /-- `(?!…)` -/
  | notAhead (body : Regex)

namespace Regex

/-! ## Matches -/

/-- Any number of steps, one behind another. -/
inductive Repeats (step : List Char → List Char → List Char → Prop) :
    List Char → List Char → List Char → Prop
  | done (before after : List Char) : Repeats step before [] after
  | more {before piece rest after : List Char} (hpiece : step before piece (rest ++ after))
      (hrest : Repeats step (before ++ piece) rest after) :
      Repeats step before (piece ++ rest) after

/-- `found` is a match between `before` and `after`. -/
def Matches : Regex → List Char → List Char → List Char → Prop
  | .empty, _, found, _ => found = []
  | .chars p, _, found, _ => ∃ c, found = [c] ∧ p c = true
  | .seq first second, before, found, after => ∃ left right, found = left ++ right ∧
      first.Matches before left (right ++ after) ∧ second.Matches (before ++ left) right after
  | .alt first second, before, found, after =>
      first.Matches before found after ∨ second.Matches before found after
  | .star body, before, found, after => Repeats body.Matches before found after
  | .start, before, found, _ => found = [] ∧ before = []
  | .stop, _, found, after => found = [] ∧ after = []
  | .ahead body, before, found, after => found = [] ∧
      ∃ left right, after = left ++ right ∧ body.Matches before left right
  | .notAhead body, before, found, after => found = [] ∧
      ¬ ∃ left right, after = left ++ right ∧ body.Matches before left right

/-- Some match starts here. -/
def Accepts (r : Regex) (before rest : List Char) : Prop :=
  ∃ found after, rest = found ++ after ∧ r.Matches before found after

/-- Some match starts somewhere. -/
def Test (r : Regex) (text : List Char) : Prop :=
  ∃ before rest, text = before ++ rest ∧ r.Accepts before rest

/-! ## Abbreviations -/

def lit (c : Char) : Regex := .chars (· == c)

/-- `.`: any character but a line terminator. -/
def isDot (c : Char) : Bool := c ≠ '\n' && c ≠ '\r' && c ≠ '\u2028' && c ≠ '\u2029'

def dot : Regex := .chars isDot

def plus (r : Regex) : Regex := .seq r (.star r)

def optional (r : Regex) : Regex := .alt r .empty

def sequence (parts : List Regex) : Regex := parts.foldr .seq .empty

@[simp] theorem sequence_nil : sequence [] = .empty := rfl

@[simp] theorem sequence_cons (r : Regex) (parts : List Regex) :
    sequence (r :: parts) = .seq r (sequence parts) := rfl

/-! ## What is accepted -/

variable {r s t : Regex} {p : Char → Bool} {before rest : List Char}

@[simp] theorem accepts_empty : Regex.empty.Accepts before rest ↔ True := by
  simp [Accepts, Matches]

theorem accepts_seq_iff : (Regex.seq r s).Accepts before rest ↔
    ∃ left right, rest = left ++ right ∧ r.Matches before left right ∧
      s.Accepts (before ++ left) right := by
  constructor
  · intro h
    obtain ⟨_, after, rfl, left, right, rfl, hr, hs⟩ := h
    exact ⟨left, right ++ after, List.append_assoc _ _ _, hr, right, after, rfl, hs⟩
  · intro h
    obtain ⟨left, _, rfl, hr, right, after, rfl, hs⟩ := h
    exact ⟨left ++ right, after, (List.append_assoc _ _ _).symm, left, right, rfl, hr, hs⟩

@[simp] theorem accepts_seq_empty : (Regex.seq .empty s).Accepts before rest ↔
    s.Accepts before rest := by
  rw [accepts_seq_iff]
  simp [Matches]

theorem accepts_seq_nil : (Regex.seq r .empty).Accepts before rest ↔
    r.Accepts before rest := by
  constructor
  · intro h
    obtain ⟨_, after, rfl, found, _, rfl, hr, rfl⟩ := h
    rw [List.append_nil]
    exact ⟨found, after, rfl, hr⟩
  · intro h
    obtain ⟨found, after, rfl, hr⟩ := h
    exact ⟨found, after, rfl, found, [], (List.append_nil found).symm, hr, rfl⟩

@[simp] theorem accepts_seq_chars : (Regex.seq (.chars p) s).Accepts before rest ↔
    ∃ c tail, rest = c :: tail ∧ p c = true ∧ s.Accepts (before ++ [c]) tail := by
  rw [accepts_seq_iff]
  constructor
  · intro h
    obtain ⟨_, right, rfl, ⟨c, rfl, hc⟩, hs⟩ := h
    exact ⟨c, right, rfl, hc, hs⟩
  · intro h
    obtain ⟨c, tail, rfl, hc, hs⟩ := h
    exact ⟨[c], tail, rfl, ⟨c, rfl, hc⟩, hs⟩

@[simp] theorem accepts_seq_lit {c : Char} : (Regex.seq (lit c) s).Accepts before rest ↔
    ∃ tail, rest = c :: tail ∧ s.Accepts (before ++ [c]) tail := by
  rw [lit, accepts_seq_chars]
  constructor
  · intro h
    obtain ⟨_, tail, rfl, heq, hs⟩ := h
    obtain rfl := beq_iff_eq.mp heq
    exact ⟨tail, rfl, hs⟩
  · intro h
    obtain ⟨tail, rfl, hs⟩ := h
    exact ⟨c, tail, rfl, beq_self_eq_true c, hs⟩

@[simp] theorem accepts_lit {c : Char} : (lit c).Accepts before rest ↔
    ∃ tail, rest = c :: tail := by
  rw [← accepts_seq_nil]
  simp

theorem accepts_seq_assoc : (Regex.seq (.seq r s) t).Accepts before rest ↔
    (Regex.seq r (.seq s t)).Accepts before rest := by
  rw [accepts_seq_iff, accepts_seq_iff]
  constructor
  · intro h
    obtain ⟨_, right, rfl, ⟨left, middle, rfl, hr, hs⟩, ht⟩ := h
    refine ⟨left, middle ++ right, List.append_assoc _ _ _, hr, ?_⟩
    rw [accepts_seq_iff]
    exact ⟨middle, right, rfl, hs, List.append_assoc before left middle ▸ ht⟩
  · intro h
    obtain ⟨left, _, rfl, hr, hrest⟩ := h
    obtain ⟨middle, right, rfl, hs, ht⟩ := accepts_seq_iff.mp hrest
    refine ⟨left ++ middle, right, (List.append_assoc _ _ _).symm, ⟨left, middle, rfl, hr, hs⟩, ?_⟩
    rwa [← List.append_assoc]

@[simp] theorem accepts_seq_alt : (Regex.seq (.alt r s) t).Accepts before rest ↔
    (Regex.seq r t).Accepts before rest ∨ (Regex.seq s t).Accepts before rest := by
  simp only [accepts_seq_iff, Matches]
  constructor
  · intro h
    obtain ⟨left, right, hrest, hr | hs, ht⟩ := h
    · exact .inl ⟨left, right, hrest, hr, ht⟩
    · exact .inr ⟨left, right, hrest, hs, ht⟩
  · intro h
    rcases h with ⟨left, right, hrest, hr, ht⟩ | ⟨left, right, hrest, hs, ht⟩
    · exact ⟨left, right, hrest, .inl hr, ht⟩
    · exact ⟨left, right, hrest, .inr hs, ht⟩

@[simp] theorem accepts_seq_start : (Regex.seq .start s).Accepts before rest ↔
    before = [] ∧ s.Accepts before rest := by
  rw [accepts_seq_iff]
  constructor
  · intro h
    obtain ⟨_, right, rfl, ⟨rfl, hbefore⟩, hs⟩ := h
    exact ⟨hbefore, by simpa using hs⟩
  · intro h
    exact ⟨[], rest, rfl, ⟨rfl, h.1⟩, by simpa using h.2⟩

@[simp] theorem accepts_seq_stop : (Regex.seq .stop s).Accepts before rest ↔
    rest = [] ∧ s.Accepts before rest := by
  rw [accepts_seq_iff]
  constructor
  · intro h
    obtain ⟨_, right, rfl, ⟨rfl, hright⟩, hs⟩ := h
    exact ⟨hright, by simpa using hs⟩
  · intro h
    exact ⟨[], rest, rfl, ⟨rfl, by simpa using h.1⟩, by simpa using h.2⟩

@[simp] theorem accepts_seq_ahead : (Regex.seq (.ahead r) s).Accepts before rest ↔
    r.Accepts before rest ∧ s.Accepts before rest := by
  rw [accepts_seq_iff]
  constructor
  · intro h
    obtain ⟨_, right, rfl, ⟨rfl, hahead⟩, hs⟩ := h
    exact ⟨hahead, by simpa using hs⟩
  · intro h
    exact ⟨[], rest, rfl, ⟨rfl, h.1⟩, by simpa using h.2⟩

@[simp] theorem accepts_seq_notAhead : (Regex.seq (.notAhead r) s).Accepts before rest ↔
    ¬ r.Accepts before rest ∧ s.Accepts before rest := by
  rw [accepts_seq_iff]
  constructor
  · intro h
    obtain ⟨_, right, rfl, ⟨rfl, hahead⟩, hs⟩ := h
    exact ⟨hahead, by simpa using hs⟩
  · intro h
    exact ⟨[], rest, rfl, ⟨rfl, h.1⟩, by simpa using h.2⟩

/-- A repeated class takes any characters of the class. -/
theorem matches_star_chars {found after : List Char} :
    (Regex.star (.chars p)).Matches before found after ↔ ∀ c ∈ found, p c = true := by
  constructor
  · intro h
    show ∀ c ∈ found, p c = true
    have hrepeats : Repeats (Regex.chars p).Matches before found after := h
    induction hrepeats with
    | done before after => simp
    | more hpiece hrest ih =>
        obtain ⟨c, rfl, hc⟩ := hpiece
        rw [List.singleton_append, List.forall_mem_cons]
        exact ⟨hc, ih hrest⟩
  · intro h
    show Repeats (Regex.chars p).Matches before found after
    induction found generalizing before with
    | nil => exact .done before after
    | cons c found ih =>
        rw [List.forall_mem_cons] at h
        have hpiece : (Regex.chars p).Matches before [c] (found ++ after) := ⟨c, rfl, h.1⟩
        exact .more hpiece (ih h.2)

@[simp] theorem accepts_seq_star_chars : (Regex.seq (.star (.chars p)) s).Accepts before rest ↔
    ∃ left right, rest = left ++ right ∧ (∀ c ∈ left, p c = true) ∧
      s.Accepts (before ++ left) right := by
  simp only [accepts_seq_iff, matches_star_chars]

/-- A repeated class reaches any place of a text of that class. -/
theorem accepts_star_all (h : ∀ c ∈ rest, p c = true) :
    (Regex.seq (.star (.chars p)) s).Accepts before rest ↔
      ∃ left right, rest = left ++ right ∧ s.Accepts (before ++ left) right := by
  rw [accepts_seq_star_chars]
  constructor
  · intro hex
    obtain ⟨left, right, hrest, _, hs⟩ := hex
    exact ⟨left, right, hrest, hs⟩
  · intro hex
    obtain ⟨left, right, rfl, hs⟩ := hex
    exact ⟨left, right, rfl, fun c hc => h c (List.mem_append_left _ hc), hs⟩

/-- A repetition may stop. -/
theorem accepts_star_done (h : s.Accepts before rest) :
    (Regex.seq (.star r) s).Accepts before rest :=
  accepts_seq_iff.mpr ⟨[], rest, rfl, .done before rest, by simpa using h⟩

/-- A repetition may take one more piece. -/
theorem accepts_star_more {piece : List Char} (hpiece : r.Matches before piece rest)
    (h : (Regex.seq (.star r) s).Accepts (before ++ piece) rest) :
    (Regex.seq (.star r) s).Accepts before (piece ++ rest) := by
  obtain ⟨left, right, rfl, hrepeats, hs⟩ := accepts_seq_iff.mp h
  refine accepts_seq_iff.mpr ⟨piece ++ left, right, (List.append_assoc _ _ _).symm,
    .more hpiece hrepeats, ?_⟩
  rwa [← List.append_assoc]

end Regex

end Invokrum
