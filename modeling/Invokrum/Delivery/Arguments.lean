import Invokrum.Base.Delimited
import Invokrum.Cli.Arguments

/-!
# Arguments of the install command

The option loop of `install` reads arguments as the operating system gives them:
a path is any bytes, the other values are texts. Every option may stand
anywhere, once, and publisher options stand together or not at all.
-/

namespace Invokrum.Delivery

open Outcome Options Coding
open Cli (OutputFormat suppliedTwice requiresValue)
open Text (Bytes)

inductive ErrorKind where
  | usage
  | input
  | validation
  | output
  | internal
deriving DecidableEq

structure InstallError where
  kind : ErrorKind
  message : String
deriving DecidableEq

def InstallError.usage (message : String) : InstallError := ⟨.usage, message⟩

inductive CandidateFormat where
  | directory
  | ustar
deriving DecidableEq

structure PublisherInputs where
  publicKey : Bytes
  signature : Bytes
  trustedKeySha256 : String
deriving DecidableEq

structure InstallArgs where
  candidate : Bytes
  bundleManifest : Bytes
  subject : String
  candidateFormat : CandidateFormat
  store : Option Bytes
  format : OutputFormat
  publisher : Option PublisherInputs
deriving DecidableEq

/-! ## Values -/

/-- The variables of the loop. -/
inductive InstallOption where
  | candidate
  | bundleManifest
  | subject
  | candidateFormat
  | store
  | format
  | publisherPublicKey
  | publisherSignature
  | trustedKeySha256
deriving DecidableEq

namespace InstallOption

def all : List InstallOption :=
  [.candidate, .bundleManifest, .subject, .candidateFormat, .store, .format, .publisherPublicKey,
    .publisherSignature, .trustedKeySha256]

def text : InstallOption → String
  | .candidate => "candidate"
  | .bundleManifest => "--bundle-manifest"
  | .subject => "--subject"
  | .candidateFormat => "--candidate-format"
  | .store => "--store"
  | .format => "--format"
  | .publisherPublicKey => "--publisher-public-key"
  | .publisherSignature => "--publisher-signature"
  | .trustedKeySha256 => "--trusted-key-sha256"

@[reducible] def Value : InstallOption → Type
  | .subject => String
  | .candidateFormat => CandidateFormat
  | .format => OutputFormat
  | .trustedKeySha256 => String
  | _ => Bytes

end InstallOption

def CandidateFormat.text : CandidateFormat → String
  | .directory => "directory"
  | .ustar => "ustar"

def parseCandidateFormat (value : String) : Except InstallError CandidateFormat :=
  if value = "directory" then .ok .directory
  else if value = "ustar" then .ok .ustar
  else .error (.usage
    ("unsupported candidate format `" ++ value ++ "`; expected directory or ustar"))

def parseFormat (value : String) : Except InstallError OutputFormat :=
  (Cli.parseFormat value).mapError .usage

/-- `path_value` takes any bytes. -/
def stringValue (value : Bytes) (option : String) : Except InstallError String :=
  okOr (Text.fromUtf8 value) (.usage ("option `" ++ option ++ "` requires valid UTF-8"))

/-- What an option makes of the argument behind it. -/
def InstallOption.value : (option : InstallOption) → Bytes → Except InstallError option.Value
  | .subject, value => stringValue value "--subject"
  | .trustedKeySha256, value => stringValue value "--trusted-key-sha256"
  | .candidateFormat, value => do parseCandidateFormat (← stringValue value "--candidate-format")
  | .format, value => do parseFormat (← stringValue value "--format")
  | .candidate, value => .ok value
  | .bundleManifest, value => .ok value
  | .store, value => .ok value
  | .publisherPublicKey, value => .ok value
  | .publisherSignature, value => .ok value

/-! ## The loop -/

/-- The values read so far. The two formats are values with their `_seen` flags. -/
abbrev InstallSlots : Type := (option : InstallOption) → Option option.Value

def InstallSlots.empty : InstallSlots := fun _ => none

def assign (slots : InstallSlots) (option : InstallOption) (value : option.Value) :
    Except InstallError InstallSlots :=
  if (slots option).isSome then .error (.usage (suppliedTwice option.text))
  else .ok (Function.update slots option (some value))

/-- One arm of the loop. The formats look at their flags before they look for a value. -/
def readOption (slots : InstallSlots) (option : InstallOption) :
    Reading Bytes InstallSlots InstallError :=
  if (option = .candidateFormat ∨ option = .format) ∧ (slots option).isSome then
    .alone (.error (.usage (suppliedTwice option.text)))
  else .valued (.usage (requiresValue option.text)) fun argument => do
    assign slots option (← option.value argument)

def helpMisplaced : String := "install help must be requested without other arguments"

def readArgument (slots : InstallSlots) (argument : Bytes) :
    Reading Bytes InstallSlots InstallError :=
  match Text.fromUtf8 argument with
  | some text =>
      match InstallOption.all.tail.find? fun option => option.text = text with
      | some option => readOption slots option
      | none =>
          if text = "--no-color" then .alone (.ok slots)
          else if text = "--help" ∨ text = "-h" ∨ text = "help" then
            .alone (.error (.usage helpMisplaced))
          else if text.toList.head? = some '-' then
            .alone (.error (.usage ("unknown install option `" ++ text ++ "`")))
          else .alone (assign slots .candidate argument)
  | none => .alone (assign slots .candidate argument)

def required {α : Type} (value : Option α) (option : String) : Except InstallError α :=
  okOr value (.usage ("missing required option `" ++ option ++ "`"))

def publisherInputs (publicKey signature : Option Bytes) (trustedKeySha256 : Option String) :
    Except InstallError (Option PublisherInputs) :=
  match publicKey, signature, trustedKeySha256 with
  | none, none, none => .ok none
  | some publicKey, some signature, some trustedKeySha256 =>
      .ok (some ⟨publicKey, signature, trustedKeySha256⟩)
  | _, _, _ => .error (.usage ("authenticated install requires --publisher-public-key, " ++
      "--publisher-signature, and --trusted-key-sha256 together"))

/-- The part of `parse` after its loop. -/
def installArgs (slots : InstallSlots) : Except InstallError InstallArgs := do
  let candidate ← required (slots .candidate) "candidate"
  let bundleManifest ← required (slots .bundleManifest) "--bundle-manifest"
  let subject ← required (slots .subject) "--subject"
  let publisher ← publisherInputs (slots .publisherPublicKey) (slots .publisherSignature)
    (slots .trustedKeySha256)
  pure {
    candidate := candidate
    bundleManifest := bundleManifest
    subject := subject
    candidateFormat := (slots .candidateFormat).getD .directory
    store := slots .store
    format := (slots .format).getD .human
    publisher := publisher }

def parse (arguments : List Bytes) : Except InstallError InstallArgs := do
  installArgs (← scan readArgument .empty arguments)

/-! ## Settings -/

inductive InstallSetting where
  | option (option : InstallOption) (value : option.Value)
  | noColor

/-- An argument that names a candidate: a text that is no option and not `help`, or no text. -/
def NamesCandidate (argument : Bytes) : Prop :=
  ∀ text, Text.fromUtf8 argument = some text → text.toList.head? ≠ some '-' ∧ text ≠ "help"

/-- The argument that says a value. -/
def InstallOption.print : (option : InstallOption) → option.Value → Bytes
  | .subject, value => Text.bytes value
  | .trustedKeySha256, value => Text.bytes value
  | .candidateFormat, value => Text.bytes value.text
  | .format, value => Text.bytes value.text
  | .candidate, value => value
  | .bundleManifest, value => value
  | .store, value => value
  | .publisherPublicKey, value => value
  | .publisherSignature, value => value

namespace InstallSetting

def spell : InstallSetting → List Bytes
  | .option name value =>
      if name = .candidate then [name.print value] else [Text.bytes name.text, name.print value]
  | .noColor => [Text.bytes "--no-color"]

def Known : InstallSetting → Prop
  | .option .candidate path => NamesCandidate path
  | _ => True

def name : InstallSetting → Option InstallOption
  | .option name _ => some name
  | .noColor => none

/-- `--no-color` sets nothing. -/
def silent (x : InstallSetting) : Bool := x.name.isNone

end InstallSetting

namespace InstallSlots

def fields : Fields InstallSlots InstallOption InstallOption.Value :=
  .named InstallOption.all (by decide) fun option => by cases option <;> decide

def settings (slots : InstallSlots) : List InstallSetting :=
  fields.settings InstallSetting.option slots

/-- Makes a setting whose slot is free. -/
def apply (slots : InstallSlots) : InstallSetting → Option InstallSlots
  | .option name value =>
      if slots name = none then some (Function.update slots name (some value)) else none
  | .noColor => some slots

/-- The arguments make exactly these settings, in any order. -/
def Spelled (slots : InstallSlots) (arguments : List Bytes) : Prop :=
  ∃ xs : List InstallSetting, (∀ x ∈ xs, x.Known) ∧ arguments = xs.flatMap InstallSetting.spell ∧
    (xs.filter fun x => !x.silent).Perm slots.settings

end InstallSlots

/-- What is set where these arguments were given. -/
structure InstallArgs.From (args : InstallArgs) (slots : InstallSlots) : Prop where
  candidate : slots .candidate = some args.candidate
  bundleManifest : slots .bundleManifest = some args.bundleManifest
  subject : slots .subject = some args.subject
  candidateFormat : (slots .candidateFormat).getD .directory = args.candidateFormat
  store : slots .store = args.store
  format : (slots .format).getD .human = args.format
  publicKey : slots .publisherPublicKey = args.publisher.map (·.publicKey)
  signature : slots .publisherSignature = args.publisher.map (·.signature)
  trustedKeySha256 : slots .trustedKeySha256 = args.publisher.map (·.trustedKeySha256)

/-! ## Rounds of the loop -/

theorem parseCandidateFormat_eq_ok {value : String} {format : CandidateFormat} :
    parseCandidateFormat value = .ok format ↔ value = format.text := by
  unfold parseCandidateFormat
  by_cases hdirectory : value = "directory"
  · cases format <;> simp [hdirectory, CandidateFormat.text]
  · by_cases hustar : value = "ustar" <;> cases format <;>
      simp [hdirectory, hustar, CandidateFormat.text]

theorem stringValue_eq_ok {value : Bytes} {option text : String} :
    stringValue value option = .ok text ↔ value = Text.bytes text := by
  rw [stringValue, okOr_eq_ok, Text.fromUtf8_eq_some, eq_comm]

/-- An option reads what says its value. -/
theorem InstallOption.value_eq_ok {option : InstallOption} {argument : Bytes}
    {value : option.Value} : option.value argument = .ok value ↔ argument = option.print value := by
  cases option with
  | subject | trustedKeySha256 => exact stringValue_eq_ok
  | candidateFormat =>
      simp only [InstallOption.value, bind_eq_ok, stringValue_eq_ok, parseCandidateFormat_eq_ok]
      constructor
      · intro h
        obtain ⟨text, rfl, rfl⟩ := h
        rfl
      · intro h
        exact ⟨_, h, rfl⟩
  | format =>
      simp only [InstallOption.value, bind_eq_ok, stringValue_eq_ok, parseFormat, mapError_eq_ok,
        Cli.parseFormat_eq_ok]
      constructor
      · intro h
        obtain ⟨text, rfl, rfl⟩ := h
        rfl
      · intro h
        exact ⟨_, h, rfl⟩
  | candidate | bundleManifest | store | publisherPublicKey | publisherSignature =>
      exact ⟨Except.ok.inj, congrArg Except.ok⟩

theorem assign_eq_ok {slots slots' : InstallSlots} {option : InstallOption} {value : option.Value} :
    assign slots option value = .ok slots' ↔ slots.apply (.option option value) = some slots' := by
  rw [assign, InstallSlots.apply]
  by_cases h : slots option = none
  · rw [if_neg (Option.not_isSome_iff_eq_none.mpr h), if_pos h]
    exact ⟨fun heq => congrArg some (Except.ok.inj heq),
      fun heq => congrArg _ (Option.some.inj heq)⟩
  · rw [if_pos (Option.isSome_iff_ne_none.mpr h), if_neg h]
    simp

theorem find_option {option : InstallOption} (h : option ≠ .candidate) :
    (InstallOption.all.tail.find? fun o => o.text = option.text) = some option := by
  cases option with
  | candidate => exact absurd rfl h
  | _ => decide

section

variable {slots slots' : InstallSlots} {argument : Bytes} {args : InstallArgs}

theorem readArgument_option {option : InstallOption} (h : option ≠ .candidate) :
    readArgument slots (Text.bytes option.text) = readOption slots option := by
  rw [readArgument, Text.fromUtf8_eq_some.mpr rfl]
  simp only
  rw [find_option h]

theorem readArgument_noColor :
    readArgument slots (Text.bytes "--no-color") = .alone (.ok slots) := by
  rw [readArgument, Text.fromUtf8_eq_some.mpr rfl]
  rfl

theorem readArgument_candidate (h : NamesCandidate argument) :
    readArgument slots argument = .alone (assign slots .candidate argument) := by
  unfold readArgument
  cases htext : Text.fromUtf8 argument with
  | none => rfl
  | some text =>
      obtain ⟨hhead, hhelp⟩ := h text htext
      have hnone : (InstallOption.all.tail.find? fun option => option.text = text) = none := by
        rw [List.find?_eq_none]
        intro option hoption heq
        rw [decide_eq_true_eq] at heq
        subst heq
        revert hhead
        cases option with
        | candidate => revert hoption; decide
        | _ => decide
      have hdash : ∀ word : String, word.toList.head? = some '-' → text ≠ word := by
        intro word hword heq
        exact hhead (heq ▸ hword)
      simp only [hnone]
      have hwords : ¬ (text = "--help" ∨ text = "-h" ∨ text = "help") := by
        simp only [not_or]
        exact ⟨hdash _ (by decide), hdash _ (by decide), hhelp⟩
      rw [if_neg (hdash _ (by decide)), if_neg hwords, if_neg hhead]

/-- What an argument is: an option, one of the other words, or the candidate. -/
theorem readArgument_cases (slots : InstallSlots) (argument : Bytes) :
    (∃ option, option ≠ .candidate ∧ argument = Text.bytes option.text ∧
      readArgument slots argument = readOption slots option) ∨
    (argument = Text.bytes "--no-color" ∧ readArgument slots argument = .alone (.ok slots)) ∨
    (NamesCandidate argument ∧
      readArgument slots argument = .alone (assign slots .candidate argument)) ∨
    ∃ e, readArgument slots argument = .alone (.error e) := by
  by_cases hplain : NamesCandidate argument
  · exact .inr (.inr (.inl ⟨hplain, readArgument_candidate hplain⟩))
  simp only [NamesCandidate, not_forall, not_and_or] at hplain
  obtain ⟨text, htext, hreserved⟩ := hplain
  have hargument := (Text.fromUtf8_eq_some.mp htext).symm
  subst hargument
  cases hfind : InstallOption.all.tail.find? fun option => option.text = text with
  | some option =>
      have heq : option.text = text := by simpa using List.find?_some hfind
      subst heq
      have hne : option ≠ .candidate := by
        rintro rfl
        exact absurd (List.mem_of_find?_eq_some hfind) (by decide)
      exact .inl ⟨option, hne, rfl, readArgument_option hne⟩
  | none =>
      by_cases hcolor : text = "--no-color"
      · subst hcolor
        exact .inr (.inl ⟨rfl, readArgument_noColor⟩)
      · refine .inr (.inr (.inr ?_))
        rw [readArgument, htext]
        simp only [hfind]
        rw [if_neg hcolor]
        split
        · exact ⟨_, rfl⟩
        · next hhelp =>
            rw [if_pos]
            · exact ⟨_, rfl⟩
            · rcases hreserved with hhead | hword
              · exact not_not.mp hhead
              · exact absurd (.inr (.inr (not_not.mp hword))) hhelp

/-- An option that takes a value makes its setting with it. -/
theorem readOption_valued {option : InstallOption} {missing : InstallError}
    {next : Bytes → Except InstallError InstallSlots} {value : Bytes}
    (h : readOption slots option = .valued missing next) (hvalue : next value = .ok slots') :
    ∃ v : option.Value, value = option.print v ∧ slots.apply (.option option v) = some slots' := by
  unfold readOption at h
  split at h
  · cases h
  · cases h
    obtain ⟨v, hv, hassign⟩ := bind_eq_ok.mp hvalue
    exact ⟨v, InstallOption.value_eq_ok.mp hv, assign_eq_ok.mp hassign⟩

theorem readOption_alone {option : InstallOption} :
    readOption slots option ≠ .alone (.ok slots') := by
  unfold readOption
  split <;> simp

/-- A setting that can be made is made by its arguments. -/
theorem takes_of_setting {x : InstallSetting} (hknown : x.Known)
    (happly : slots.apply x = some slots') : Takes readArgument slots x.spell slots' := by
  cases x with
  | noColor =>
      cases happly
      exact .alone readArgument_noColor
  | option name value =>
      have hassign := assign_eq_ok.mpr happly
      by_cases hcandidate : name = .candidate
      · subst hcandidate
        rw [InstallSetting.spell, if_pos rfl]
        apply Takes.alone
        rw [← hassign]
        exact readArgument_candidate hknown
      · rw [InstallSetting.spell, if_neg hcandidate]
        have hfree : slots name = none := (Option.ite_none_right_eq_some.mp happly).1
        have hread := @readArgument_option slots name hcandidate
        rw [readOption, if_neg (by simp [hfree])] at hread
        apply Takes.valued hread
        rw [InstallOption.value_eq_ok.mpr rfl]
        exact hassign

theorem readArgument_spells :
    Spells readArgument InstallSetting.spell InstallSlots.apply InstallSetting.Known := by
  constructor
  · intro slots x slots' hknown happly
    exact takes_of_setting hknown happly
  · intro slots used slots' htakes
    have hknown : ∀ {option : InstallOption} {value : option.Value}, option ≠ .candidate →
        (InstallSetting.option option value).Known := by
      intro option value hne
      cases option with
      | candidate => exact absurd rfl hne
      | _ => trivial
    cases htakes with
    | @alone argument _ h =>
        rcases readArgument_cases slots argument with
          ⟨option, _, _, hread⟩ | ⟨rfl, hread⟩ | ⟨hplain, hread⟩ | ⟨e, hread⟩
        · exact absurd (hread.symm.trans h) readOption_alone
        · rw [hread] at h
          cases h
          exact ⟨.noColor, trivial, rfl, rfl⟩
        · have hassign := Reading.alone.inj (hread.symm.trans h)
          exact ⟨.option .candidate argument, hplain, rfl, assign_eq_ok.mp hassign⟩
        · rw [hread] at h
          cases h
    | @valued argument value missing next _ h hvalue =>
        rcases readArgument_cases slots argument with
          ⟨option, hne, rfl, hread⟩ | ⟨_, hread⟩ | ⟨_, hread⟩ | ⟨e, hread⟩
        · obtain ⟨v, rfl, happly⟩ := readOption_valued (hread.symm.trans h) hvalue
          exact ⟨.option option v, hknown hne, by rw [InstallSetting.spell, if_neg hne], happly⟩
        · rw [hread] at h
          cases h
        · rw [hread] at h
          cases h
        · rw [hread] at h
          cases h

/-! ## Order of the options -/

theorem InstallSlots.makes :
    InstallSlots.fields.Makes .option InstallSlots.apply InstallSetting.name where
  silent := by
    intro slots x hname
    cases x with
    | noColor => rfl
    | option name value => cases hname
  made := by
    intro x option hname
    cases x with
    | noColor => cases hname
    | option name value =>
        cases hname
        exact ⟨value, rfl⟩
  name_make := fun _ _ => rfl
  make_injective := by
    intro option value value' h
    cases h
    rfl
  fills := fun _ _ _ hfree => if_pos hfree
  once := fun _ _ _ _ h => (Option.ite_none_right_eq_some.mp h).1

theorem InstallSlots.spelled_iff {arguments : List Bytes} :
    scan readArgument .empty arguments = .ok slots ↔ slots.Spelled arguments :=
  readArgument_spells.scan_eq_ok_iff_perm InstallSlots.makes.collects rfl

theorem publisherInputs_eq_ok {publicKey signature : Option Bytes}
    {trustedKeySha256 : Option String} {publisher : Option PublisherInputs} :
    publisherInputs publicKey signature trustedKeySha256 = .ok publisher ↔
      publicKey = publisher.map (·.publicKey) ∧ signature = publisher.map (·.signature) ∧
        trustedKeySha256 = publisher.map (·.trustedKeySha256) := by
  cases publisher with
  | none => cases publicKey <;> cases signature <;> cases trustedKeySha256 <;>
      simp [publisherInputs]
  | some publisher =>
      obtain ⟨key, sig, trusted⟩ := publisher
      cases publicKey <;> cases signature <;> cases trustedKeySha256 <;>
        simp [publisherInputs]

theorem installArgs_eq_ok : installArgs slots = .ok args ↔ args.From slots := by
  simp only [installArgs, required, bind_eq_ok, okOr_eq_ok, publisherInputs_eq_ok, pure,
    Except.pure, Except.ok.injEq]
  constructor
  · intro h
    obtain ⟨candidate, hcandidate, bundleManifest, hmanifest, subject, hsubject, publisher,
      ⟨hkey, hsignature, htrusted⟩, rfl⟩ := h
    exact ⟨hcandidate, hmanifest, hsubject, rfl, rfl, rfl, hkey, hsignature, htrusted⟩
  · intro h
    refine ⟨_, h.candidate, _, h.bundleManifest, _, h.subject, _,
      ⟨h.publicKey, h.signature, h.trustedKeySha256⟩, ?_⟩
    rw [h.candidateFormat, h.store, h.format]

theorem parse_eq_ok {arguments : List Bytes} :
    parse arguments = .ok args ↔ ∃ slots, args.From slots ∧ slots.Spelled arguments := by
  simp only [parse, bind_eq_ok, installArgs_eq_ok, InstallSlots.spelled_iff, and_comm]

end

theorem InstallOption.text_injective : Function.Injective InstallOption.text := by
  intro a b
  cases a <;> cases b <;> decide

theorem InstallOption.print_injective (option : InstallOption) :
    Function.Injective option.print := by
  intro value value' h
  have hvalue := InstallOption.value_eq_ok.mpr h
  rw [InstallOption.value_eq_ok.mpr rfl] at hvalue
  exact Except.ok.inj hvalue

/-- An argument that names a candidate is the word of no other setting. -/
theorem NamesCandidate.ne_word {argument : Bytes} (h : NamesCandidate argument) {word : String}
    (hword : word.toList.head? = some '-') : argument ≠ Text.bytes word := by
  rintro rfl
  exact (h word (Text.fromUtf8_eq_some.mpr rfl)).1 hword

theorem InstallOption.text_head {option : InstallOption} (h : option ≠ .candidate) :
    option.text.toList.head? = some '-' := by
  cases option with
  | candidate => exact absurd rfl h
  | _ => decide

theorem InstallSetting.spell_delimited :
    Delimited fun x : {x : InstallSetting // x.Known} => x.1.spell := by
  intro x y rest rest' h
  obtain ⟨x, hx⟩ := x
  obtain ⟨y, hy⟩ := y
  have hcolor : ∀ {option : InstallOption}, option ≠ .candidate →
      Text.bytes option.text ≠ Text.bytes "--no-color" := by
    intro option hne heq
    have htext := Text.bytes_injective heq
    revert htext
    cases option <;> decide
  cases x with
  | noColor =>
      cases y with
      | noColor => exact ⟨rfl, (List.cons.inj h).2⟩
      | option name value =>
          simp only [InstallSetting.spell] at h
          split at h
          · next hname =>
              subst hname
              exact absurd (List.cons.inj h).1.symm (NamesCandidate.ne_word hy (by decide))
          · next hname => exact absurd (List.cons.inj h).1.symm (hcolor hname)
  | option name value =>
      cases y with
      | noColor =>
          simp only [InstallSetting.spell] at h
          split at h
          · next hname =>
              subst hname
              exact absurd (List.cons.inj h).1 (NamesCandidate.ne_word hx (by decide))
          · next hname => exact absurd (List.cons.inj h).1 (hcolor hname)
      | option name' value' =>
          simp only [InstallSetting.spell] at h
          split at h
          · next hname =>
              subst hname
              split at h
              · next hname' =>
                  subst hname'
                  obtain ⟨hvalue, hrest⟩ := List.cons.inj h
                  cases hvalue
                  exact ⟨rfl, hrest⟩
              · next hname' =>
                  exact absurd (List.cons.inj h).1
                    (NamesCandidate.ne_word hx (InstallOption.text_head hname'))
          · next hname =>
              split at h
              · next hname' =>
                  subst hname'
                  exact absurd (List.cons.inj h).1.symm
                    (NamesCandidate.ne_word hy (InstallOption.text_head hname))
              · obtain ⟨htext, htail⟩ := List.cons.inj h
                obtain rfl := InstallOption.text_injective (Text.bytes_injective htext)
                obtain ⟨hvalue, hrest⟩ := List.cons.inj htail
                obtain rfl := InstallOption.print_injective name hvalue
                exact ⟨rfl, hrest⟩

theorem InstallSetting.eq_of_flatMap_spell {xs ys : List InstallSetting}
    (hxs : ∀ x ∈ xs, x.Known) (hys : ∀ y ∈ ys, y.Known)
    (h : xs.flatMap InstallSetting.spell = ys.flatMap InstallSetting.spell) : xs = ys := by
  lift xs to List {x : InstallSetting // x.Known} using hxs
  lift ys to List {x : InstallSetting // x.Known} using hys
  have hne : ∀ x : {x : InstallSetting // x.Known}, x.1.spell ≠ [] := by
    intro x
    obtain ⟨x, _⟩ := x
    cases x with
    | noColor => simp [InstallSetting.spell]
    | option name value =>
        simp only [InstallSetting.spell]
        split <;> simp
  rw [List.flatMap_map, List.flatMap_map] at h
  rw [InstallSetting.spell_delimited.flatMap_injective hne h]

/-- The command accepts exactly the arguments that say each setting at most once, in any order,
with the required ones and the publisher options together; another order says the same. -/
theorem parse_exact (arguments : List Bytes) (args : InstallArgs) :
    (parse arguments = .ok args ↔ ∃ slots, args.From slots ∧ slots.Spelled arguments) ∧
    ∀ xs ys : List InstallSetting, (∀ x ∈ xs, x.Known) → xs.Perm ys →
      parse (xs.flatMap InstallSetting.spell) = .ok args →
        parse (ys.flatMap InstallSetting.spell) = .ok args := by
  refine ⟨parse_eq_ok, ?_⟩
  intro xs ys hxs hperm h
  obtain ⟨slots, hslots, zs, hzs, hspell, hsettings⟩ := parse_eq_ok.mp h
  obtain rfl := InstallSetting.eq_of_flatMap_spell hxs hzs hspell
  refine parse_eq_ok.mpr ⟨slots, hslots, ys, ?_, rfl, (hperm.symm.filter _).trans hsettings⟩
  exact fun y hy => hxs y (hperm.mem_iff.mpr hy)

end Invokrum.Delivery
