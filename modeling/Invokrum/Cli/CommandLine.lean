import Invokrum.Base.Delimited
import Invokrum.Cli.Arguments

/-!
# Accepted command lines

The grammar of the command lines that the parser accepts, apart from the
parser. A command is a word and the settings that it knows, in any order, each
at most once, with `--no-color` anywhere.
-/

namespace Invokrum.Cli

open Outcome Options Coding
open Text (Bytes)

/-- What the entry point makes of the message `help`. -/
def helpOrError (result : Except String Command) : Except String Command :=
  match result with
  | .error message => if message = "help" then .ok .help else .error message
  | .ok command => .ok command

/-- What the entry point goes on with: the arguments of an installation, or a command. -/
inductive Requested where
  | install (arguments : List Bytes)
  | command (command : Command)

def isInstallCommand (arguments : List Bytes) : Bool :=
  arguments.head? == some (Text.bytes "install")

/-- What a command line asks `run_with_stdin` for. -/
def requestedCommand (arguments : List Bytes) : Except String Requested :=
  if isInstallCommand arguments then .ok (.install arguments.tail)
  else (helpOrError (parse arguments)).map .command

/-! ## Grammar -/

/-- The arguments make exactly these settings, in any order. -/
def Slots.Spelled (slots : Slots) (arguments : List String) : Prop :=
  ∃ xs : List Setting, arguments = xs.flatMap Setting.spell ∧
    (xs.filter fun x => !x.silent).Perm slots.settings

def helpWords : List String := ["--help", "-h"]

/-- Help is asked for behind settings of these options, and `rest` follows. -/
def Asks (options : List OptionName) (arguments rest : List String) : Prop :=
  ∃ slots front word, Slots.Spelled slots front ∧ (∀ x ∈ slots.settings, x.Known options) ∧
    word ∈ helpWords ∧ arguments = front ++ word :: rest

inductive DiffSetting where
  | path (path : String)
  | format (format : OutputFormat)
  | noColor
deriving DecidableEq

namespace DiffSetting

def spell : DiffSetting → List String
  | .path value => [value]
  | .format value => ["--format", value.text]
  | .noColor => ["--no-color"]

/-- A path does not look like an option. -/
def Known : DiffSetting → Prop
  | .path value => value.toList.head? ≠ some '-'
  | _ => True

def path? : DiffSetting → Option String
  | .path value => some value
  | _ => none

def format? : DiffSetting → Option OutputFormat
  | .format value => some value
  | _ => none

end DiffSetting

/-- The arguments name these paths in this order, with the format anywhere. -/
def DiffSlots.Spelled (slots : DiffSlots) (arguments : List String) : Prop :=
  ∃ xs : List DiffSetting, (∀ x ∈ xs, x.Known) ∧ arguments = xs.flatMap DiffSetting.spell ∧
    xs.filterMap DiffSetting.path? = slots.paths ∧
      xs.filterMap DiffSetting.format? = slots.format.toList

/-- The options of the commands that print a report. -/
def reportOptions : List (String × List OptionName) :=
  [("validate", [.pack, .profile, .format]), ("inspect", [.pack, .profile, .format]),
    ("verify", [.lock, .pack, .profile, .format])]

/-- The options of `compose` and `lock`. -/
def destinationOptions : List OptionName := [.pack, .profile, .output, .force]

/-- The command lines of a command. -/
inductive Invokes : List String → Command → Prop where
  | nothing : Invokes [] .version
  | version {word : String} (hword : word ∈ ["--version", "version"]) : Invokes [word] .version
  | help {word : String} (hword : word ∈ ["--help", "-h", "help"]) : Invokes [word] .help
  | helpLast {word : String} {options : List OptionName} {arguments : List String}
      (hcommand : (word, options) ∈ reportOptions) (hasks : Asks options arguments []) :
      Invokes (word :: arguments) .help
  /-- Whatever follows the word. -/
  | helpAnywhere {word : String} {arguments rest : List String}
      (hcommand : word ∈ ["compose", "lock"]) (hasks : Asks destinationOptions arguments rest) :
      Invokes (word :: arguments) .help
  | helpDiff {slots : DiffSlots} {front : List String} {word : String}
      (hfront : slots.Spelled front) (hword : word ∈ helpWords) :
      Invokes ("diff" :: (front ++ [word])) .help
  | validate {pack : String} {profile : Option String} {format : Option OutputFormat}
      {arguments : List String}
      (hsettings : Slots.Spelled ⟨none, some pack, profile, none, format, false⟩ arguments) :
      Invokes ("validate" :: arguments) (.validate pack profile (format.getD .human))
  | inspect {pack profile : String} {format : Option OutputFormat} {arguments : List String}
      (hsettings : Slots.Spelled ⟨none, some pack, some profile, none, format, false⟩ arguments) :
      Invokes ("inspect" :: arguments) (.inspect ⟨pack, profile⟩ (format.getD .human))
  | verify {lock pack profile : String} {format : Option OutputFormat} {arguments : List String}
      (hsettings : Slots.Spelled ⟨some lock, some pack, some profile, none, format, false⟩
        arguments) :
      Invokes ("verify" :: arguments) (.verify lock ⟨pack, profile⟩ (format.getD .human))
  | compose {pack profile : String} {output : Option String} {force : Bool}
      {arguments : List String} (hforce : force = true → output ≠ none)
      (hsettings : Slots.Spelled ⟨none, some pack, some profile, output, none, force⟩ arguments) :
      Invokes ("compose" :: arguments) (.compose ⟨pack, profile⟩ ⟨output, force⟩)
  | lock {pack profile : String} {output : Option String} {force : Bool}
      {arguments : List String} (hforce : force = true → output ≠ none)
      (hsettings : Slots.Spelled ⟨none, some pack, some profile, output, none, force⟩ arguments) :
      Invokes ("lock" :: arguments) (.lock ⟨pack, profile⟩ ⟨output, force⟩)
  | diff {baseline candidate : String} {format : Option OutputFormat} {arguments : List String}
      (hsettings : DiffSlots.Spelled ⟨[baseline, candidate], format⟩ arguments) :
      Invokes ("diff" :: arguments) (.diff baseline candidate (format.getD .human))
  | rpc : Invokes ["rpc"] .rpc

/-! ## Loops -/

/-- An error message of a loop. It is never `help`. -/
def Message (early : Early) : Prop := ∃ message, early = .error message ∧ message ≠ "help"

theorem message_of_head {message : String} (h : message.toList.head? ≠ some 'h') :
    Message (.error message) := by
  refine ⟨message, rfl, ?_⟩
  intro heq
  rw [heq] at h
  exact h (by decide)

theorem message_suppliedTwice (option : String) : Message (.error (suppliedTwice option)) :=
  message_of_head (by simp [suppliedTwice])

theorem message_requiresValue (option : String) : Message (.error (requiresValue option)) :=
  message_of_head (by simp [requiresValue])

theorem message_of_format {σ : Type} {value : String} {make : OutputFormat → σ} {e : Early}
    (h : stop (do pure (make (← parseFormat value))) = .error e) : Message e := by
  unfold parseFormat at h
  split at h
  · cases h
  · split at h
    · cases h
    · cases h
      exact message_of_head (by simp)

/-- A function with a loop has a result other than an error message where its settings lead to
it or where the loop is left with it. -/
theorem runLoop_eq_of_spells {σ Setting : Type} {read : σ → String → Reading String σ Early}
    {start : σ} {spell : Setting → List String} {apply : σ → Setting → Option σ}
    {Known : Setting → Prop} (hspells : Spells read spell apply Known)
    (hfaults : Faults read Message) {done : σ → Except String Command}
    {result : Except String Command} (hresult : ¬ Message result) {arguments : List String} :
    runLoop read start done arguments = result ↔
      (∃ (xs : List Setting) (s : σ), (∀ x ∈ xs, Known x) ∧ arguments = xs.flatMap spell ∧
        xs.foldlM apply start = some s ∧ done s = result) ∨
      ∃ (xs : List Setting) (s : σ) (word : String) (rest : List String)
        (leave : List String → Early), (∀ x ∈ xs, Known x) ∧
          arguments = xs.flatMap spell ++ word :: rest ∧ xs.foldlM apply start = some s ∧
            read s word = .leave leave ∧ leave rest = result := by
  unfold runLoop
  constructor
  · intro h
    cases hscan : scan read start arguments with
    | ok s =>
        rw [hscan] at h
        obtain ⟨xs, hknown, hxs, hfold⟩ := hspells.scan_eq_ok.mp hscan
        exact .inl ⟨xs, s, hknown, hxs, hfold, h⟩
    | error early =>
        rw [hscan] at h
        obtain rfl : early = result := h
        obtain ⟨xs, s, word, rest, leave, hknown, hxs, hfold, hleave, hearly⟩ :=
          hspells.left_of_scan hfaults hscan hresult
        exact .inr ⟨xs, s, word, rest, leave, hknown, hxs, hfold, hleave, hearly.symm⟩
  · intro h
    rcases h with ⟨xs, s, hknown, hxs, hfold, hdone⟩ |
      ⟨xs, s, word, rest, leave, hknown, rfl, hfold, hleave, hrest⟩
    · rw [hspells.scan_eq_ok.mpr ⟨xs, hknown, hxs, hfold⟩]
      exact hdone
    · rw [hspells.scan_of_leave hknown hfold hleave]
      exact hrest

theorem not_message_ok (c : Command) : ¬ Message (.ok c) := by
  intro h
  obtain ⟨message, heq, _⟩ := h
  cases heq

theorem not_message_help : ¬ Message (.error "help") := by
  intro h
  obtain ⟨message, heq, hne⟩ := h
  cases heq
  exact hne rfl

theorem helpOrError_eq_ok {result : Except String Command} {c : Command} :
    helpOrError result = .ok c ↔ result = .ok c ∨ (result = .error "help" ∧ c = .help) := by
  cases result with
  | ok c' => simp [helpOrError]
  | error message =>
      by_cases hhelp : message = "help"
      · simp [helpOrError, hhelp, eq_comm]
      · simp [helpOrError, hhelp]

/-- `finish` for a word that has to stand last. -/
theorem helpIfLast_eq {rest : List String} {result : Except String Command} :
    helpIfLast rest = result ∧ ¬ Message result ↔ rest = [] ∧ result = .ok .help := by
  cases rest with
  | nil =>
      constructor
      · intro h
        exact ⟨rfl, h.1.symm⟩
      · intro h
        rw [h.2]
        exact ⟨rfl, not_message_ok _⟩
  | cons argument rest =>
      constructor
      · intro h
        rw [← h.1] at h
        exact absurd (message_of_head (by simp)) h.2
      · intro h
        cases h.1

/-! ## Loops over options -/

section

variable {options : List OptionName} {command : String} {onHelp : List String → Early}
  {slots : Slots} {arguments rest : List String}

theorem readOption_faults (option : OptionName) :
    Faults (fun slots (_ : String) => readOption slots option) Message := by
  have hassign : ∀ {slot : Option String} {value name : String} {make : Option String → Slots}
      {e : Early}, stop (do pure (make (← assign slot value name))) = .error e → Message e := by
    intro slot value name make e h
    unfold assign at h
    split at h
    · cases h
      exact message_suppliedTwice name
    · cases h
  constructor
  · intro slots argument e h
    cases option with
    | force =>
        simp only [readOption] at h
        split at h
        · cases h
          exact message_suppliedTwice "--force"
        · cases h
    | format =>
        simp only [readOption] at h
        split at h
        · cases h
          exact message_suppliedTwice "--format"
        · cases h
    | lock | pack | profile | output => cases h
  · intro slots argument e next h
    cases option with
    | force =>
        simp only [readOption] at h
        split at h <;> cases h
    | format =>
        simp only [readOption] at h
        split at h
        · cases h
        · cases h
          exact message_requiresValue "--format"
    | lock | pack | profile | output =>
        cases h
        exact message_requiresValue _
  · intro slots argument missing next value e h hvalue
    cases option with
    | force =>
        simp only [readOption] at h
        split at h <;> cases h
    | format =>
        simp only [readOption] at h
        split at h
        · cases h
        · cases h
          exact message_of_format hvalue
    | lock | pack | profile | output =>
        cases h
        exact hassign hvalue

theorem readArgument_faults : Faults (readArgument options command onHelp) Message := by
  have hunknown : ∀ argument : String,
      Message (.error ("unknown " ++ command ++ " option `" ++ argument ++ "`")) :=
    fun argument => message_of_head (by simp)
  constructor
  · intro slots argument e h
    rcases @readArgument_cases options command onHelp slots argument with
      ⟨option, _, _, hread⟩ | ⟨_, hread⟩ | ⟨_, hread⟩ | hread
    · exact (readOption_faults option).alone slots argument e (hread.symm.trans h)
    · rw [hread] at h
      cases h
    · rw [hread] at h
      cases h
    · rw [hread] at h
      cases h
      exact hunknown argument
  · intro slots argument e next h
    rcases @readArgument_cases options command onHelp slots argument with
      ⟨option, _, _, hread⟩ | ⟨_, hread⟩ | ⟨_, hread⟩ | hread
    · exact (readOption_faults option).missing slots argument e next (hread.symm.trans h)
    · rw [hread] at h
      cases h
    · rw [hread] at h
      cases h
    · rw [hread] at h
      cases h
  · intro slots argument missing next value e h hvalue
    rcases @readArgument_cases options command onHelp slots argument with
      ⟨option, _, _, hread⟩ | ⟨_, hread⟩ | ⟨_, hread⟩ | hread
    · exact (readOption_faults option).value slots argument missing next value e
        (hread.symm.trans h) hvalue
    · rw [hread] at h
      cases h
    · rw [hread] at h
      cases h
    · rw [hread] at h
      cases h

theorem spelled_iff : (slots.Spelled arguments ∧ ∀ x ∈ slots.settings, x.Known options) ↔
    ∃ xs : List Setting, (∀ x ∈ xs, x.Known options) ∧ arguments = xs.flatMap Setting.spell ∧
      xs.foldlM Slots.apply .empty = some slots := by
  have hfold : ∀ xs : List Setting, xs.foldlM Slots.apply .empty = some slots ↔
      (xs.filter fun x => !x.silent).Perm slots.settings := by
    intro xs
    rw [Slots.collects.foldlM_eq_some, List.perm_comm]
    exact iff_of_eq (congrArg (List.Perm · _) (List.append_nil _))
  have hsilent : ∀ x : Setting, x.silent = true → x.Known options := by
    intro x hx
    cases x with
    | noColor => simp [Setting.Known, Setting.name]
    | _ => cases hx
  constructor
  · intro h
    obtain ⟨⟨xs, hxs, hperm⟩, hknown⟩ := h
    refine ⟨xs, ?_, hxs, (hfold xs).mpr hperm⟩
    intro x hx
    cases hvisible : x.silent with
    | true => exact hsilent x hvisible
    | false => exact hknown x (hperm.mem_iff.mp (List.mem_filter.mpr ⟨hx, by simp [hvisible]⟩))
  · intro h
    obtain ⟨xs, hknown, hxs, hsome⟩ := h
    have hperm := (hfold xs).mp hsome
    exact ⟨⟨xs, hxs, hperm⟩,
      fun x hx => hknown x (List.mem_of_mem_filter (hperm.mem_iff.mpr hx))⟩

theorem readArgument_help {word : String} (hword : word = "--help" ∨ word = "-h") :
    readArgument options command onHelp slots word = .leave onHelp := by
  have hnone : (options.find? fun option => option.text = word) = none := by
    rw [List.find?_eq_none]
    intro option _
    rcases hword with rfl | rfl <;> cases option <;> decide
  have hcolor : word ≠ "--no-color" := by rcases hword with rfl | rfl <;> decide
  rw [readArgument, hnone]
  simp only
  rw [if_neg hcolor, if_pos hword]

/-- The words that leave a loop. -/
theorem leave_iff_help {word : String} {result : List String → Early} :
    readArgument options command onHelp slots word = .leave result ↔
      word ∈ helpWords ∧ result = onHelp := by
  have hwords : word ∈ helpWords ↔ word = "--help" ∨ word = "-h" := by simp [helpWords]
  rw [hwords]
  rcases @readArgument_cases options command onHelp slots word with
    ⟨option, _, rfl, hread⟩ | ⟨rfl, hread⟩ | ⟨hword, hread⟩ | hread
  · rw [hread]
    have hnot : ¬ (option.text = "--help" ∨ option.text = "-h") := by
      cases option <;> decide
    cases option with
    | force | format =>
        simp only [readOption]
        split <;> simp [hnot]
    | lock | pack | profile | output => simp [readOption, hnot]
  · rw [hread]
    simp
  · rw [hread]
    simp [hword, eq_comm]
  · have hnot : ¬ (word = "--help" ∨ word = "-h") := by
      intro hword
      have hleave : readArgument options command onHelp slots word = .leave onHelp := by
        rcases hword with rfl | rfl
        · exact readArgument_help (.inl rfl)
        · exact readArgument_help (.inr rfl)
      rw [hread] at hleave
      cases hleave
    rw [hread]
    simp [hnot]

/-- A function with such a loop has a result other than an error message where its settings
lead to it or where help is asked for. -/
theorem runLoop_eq {done : Slots → Except String Command} {result : Except String Command}
    (hresult : ¬ Message result) :
    runLoop (readArgument options command onHelp) .empty done arguments = result ↔
      (∃ slots : Slots, slots.Spelled arguments ∧ (∀ x ∈ slots.settings, x.Known options) ∧
        done slots = result) ∨
      ∃ rest, Asks options arguments rest ∧ onHelp rest = result := by
  rw [runLoop_eq_of_spells readArgument_spells readArgument_faults hresult]
  constructor
  · intro h
    rcases h with ⟨xs, slots, hknown, hxs, hfold, hdone⟩ |
      ⟨xs, slots, word, rest, leave, hknown, rfl, hfold, hleave, hrest⟩
    · obtain ⟨hspelled, hall⟩ := spelled_iff.mpr ⟨xs, hknown, hxs, hfold⟩
      exact .inl ⟨slots, hspelled, hall, hdone⟩
    · obtain ⟨hword, rfl⟩ := leave_iff_help.mp hleave
      obtain ⟨hspelled, hall⟩ := spelled_iff.mpr ⟨xs, hknown, rfl, hfold⟩
      exact .inr ⟨rest, ⟨slots, _, word, hspelled, hall, hword, rfl⟩, hrest⟩
  · intro h
    rcases h with ⟨slots, hspelled, hknown, hdone⟩ | ⟨rest, hasks, hhelp⟩
    · obtain ⟨xs, hall, hxs, hfold⟩ := spelled_iff.mp ⟨hspelled, hknown⟩
      exact .inl ⟨xs, slots, hall, hxs, hfold, hdone⟩
    · obtain ⟨slots, front, word, hspelled, hknown, hword, rfl⟩ := hasks
      obtain ⟨xs, hall, rfl, hfold⟩ := spelled_iff.mp ⟨hspelled, hknown⟩
      exact .inr ⟨xs, slots, word, rest, onHelp, hall, rfl, hfold,
        leave_iff_help.mpr ⟨hword, rfl⟩, hhelp⟩

/-- A command whose help word has to stand last. -/
theorem runLoop_helpIfLast {done : Slots → Except String Command} {c : Command}
    (hdone : ∀ slots, done slots ≠ .error "help") :
    helpOrError (runLoop (readArgument options command helpIfLast) .empty done arguments) = .ok c ↔
      (∃ slots : Slots, slots.Spelled arguments ∧ (∀ x ∈ slots.settings, x.Known options) ∧
        done slots = .ok c) ∨ (Asks options arguments [] ∧ c = .help) := by
  rw [helpOrError_eq_ok, runLoop_eq (not_message_ok c), runLoop_eq not_message_help]
  constructor
  · intro h
    rcases h with (hsettings | ⟨rest, hasks, hrest⟩) | ⟨⟨slots, _, _, hslots⟩ | ⟨rest, _, hrest⟩, _⟩
    · exact .inl hsettings
    · obtain ⟨rfl, hc⟩ := helpIfLast_eq.mp ⟨hrest, not_message_ok c⟩
      exact .inr ⟨hasks, Except.ok.inj hc⟩
    · exact absurd hslots (hdone slots)
    · obtain ⟨_, hc⟩ := helpIfLast_eq.mp ⟨hrest, not_message_help⟩
      cases hc
  · intro h
    rcases h with hsettings | ⟨hasks, rfl⟩
    · exact .inl (.inl hsettings)
    · exact .inl (.inr ⟨[], hasks, rfl⟩)

/-- A command whose help word may stand anywhere. -/
theorem runLoop_helpMessage {done : Slots → Except String Command} {c : Command}
    (hdone : ∀ slots, done slots ≠ .error "help") :
    helpOrError (runLoop (readArgument options command helpMessage) .empty done arguments) =
        .ok c ↔
      (∃ slots : Slots, slots.Spelled arguments ∧ (∀ x ∈ slots.settings, x.Known options) ∧
        done slots = .ok c) ∨ ((∃ rest, Asks options arguments rest) ∧ c = .help) := by
  rw [helpOrError_eq_ok, runLoop_eq (not_message_ok c), runLoop_eq not_message_help]
  constructor
  · intro h
    rcases h with (hsettings | ⟨rest, _, hrest⟩) | ⟨⟨slots, _, _, hslots⟩ | ⟨rest, hasks, _⟩, hc⟩
    · exact .inl hsettings
    · cases hrest
    · exact absurd hslots (hdone slots)
    · exact .inr ⟨⟨rest, hasks⟩, hc⟩
  · intro h
    rcases h with hsettings | ⟨⟨rest, hasks⟩, rfl⟩
    · exact .inl (.inl hsettings)
    · exact .inr ⟨.inr ⟨rest, hasks, rfl⟩, rfl⟩

end

/-! ## Commands -/

section

variable {slots : Slots} {arguments : List String} {c : Command}

theorem Slots.force_of_get (h : slots.get .force = none) : slots.force = false := by
  cases hforce : slots.force with
  | true => simp [Slots.get, hforce] at h
  | false => rfl

theorem required_eq_ok {value : Option String} {option v : String} :
    required value option = .ok v ↔ value = some v := by
  rw [required, okOr_eq_ok]

theorem required_ne_help (value : Option String) (option : String) :
    required value option ≠ .error "help" := by
  cases value with
  | some v => simp [required, okOr]
  | none =>
      intro h
      obtain ⟨message, heq, hne⟩ : Message (.error
        ("missing required option `" ++ option ++ "`")) := message_of_head (by simp)
      cases heq
      exact hne (Except.error.inj h)

theorem packSelection_eq_ok {selection : PackSelection} :
    packSelection slots = .ok selection ↔
      slots.pack = some selection.pack ∧ slots.profile = some selection.profile := by
  obtain ⟨pack, profile⟩ := selection
  simp only [packSelection, bind_eq_ok, required_eq_ok, pure, Except.pure, Except.ok.injEq,
    PackSelection.mk.injEq]
  constructor
  · intro h
    obtain ⟨p, hpack, q, hprofile, rfl, rfl⟩ := h
    exact ⟨hpack, hprofile⟩
  · intro h
    exact ⟨pack, h.1, profile, h.2, rfl, rfl⟩

theorem packSelection_ne_help : packSelection slots ≠ .error "help" := by
  intro h
  rw [packSelection, bind_eq_error] at h
  rcases h with h | ⟨pack, _, h⟩
  · exact required_ne_help _ _ h
  · rw [bind_eq_error] at h
    rcases h with h | ⟨profile, _, h⟩
    · exact required_ne_help _ _ h
    · cases h

theorem packDestination_eq_ok {result : PackSelection × Destination} :
    packDestination slots = .ok result ↔ (slots.force = true → slots.output ≠ none) ∧
      packSelection slots = .ok result.1 ∧ result.2 = ⟨slots.output, slots.force⟩ := by
  obtain ⟨selection, destination⟩ := result
  simp only [packDestination, bind_eq_ok, rejectIf_eq_ok, exists_const, pure, Except.pure,
    Except.ok.injEq, Prod.mk.injEq, not_and]
  constructor
  · intro h
    obtain ⟨hforce, selection', hselection, rfl, rfl⟩ := h
    exact ⟨hforce, hselection, rfl⟩
  · intro h
    obtain ⟨hforce, hselection, rfl⟩ := h
    exact ⟨hforce, selection, hselection, rfl, rfl⟩

theorem packDestination_ne_help : packDestination slots ≠ .error "help" := by
  intro h
  rw [packDestination, bind_eq_error] at h
  rcases h with h | ⟨_, _, h⟩
  · rw [rejectIf_eq_error] at h
    exact absurd h.2 (by decide)
  · rw [bind_eq_error] at h
    rcases h with h | ⟨selection, _, h⟩
    · exact packSelection_ne_help h
    · cases h

theorem parseValidate_eq_ok : helpOrError (parseValidate arguments) = .ok c ↔
    (∃ pack profile format,
      Slots.Spelled ⟨none, some pack, profile, none, format, false⟩ arguments ∧
        c = .validate pack profile (format.getD .human)) ∨
    (Asks [.pack, .profile, .format] arguments [] ∧ c = .help) := by
  rw [parseValidate, runLoop_helpIfLast]
  · apply or_congr_left
    constructor
    · intro h
      obtain ⟨⟨lock, pack, profile, output, format, force⟩, hspelled, hknown, hc⟩ := h
      have hall := Slots.known_iff.mp hknown
      obtain rfl : lock = none := (hall .lock).resolve_right (by decide)
      obtain rfl : output = none := (hall .output).resolve_right (by decide)
      obtain rfl : force = false :=
        Slots.force_of_get ((hall .force).resolve_right (by decide))
      simp only [bind_eq_ok, required_eq_ok, pure, Except.pure, Except.ok.injEq] at hc
      obtain ⟨pack, rfl, rfl⟩ := hc
      exact ⟨pack, profile, format, hspelled, rfl⟩
    · intro h
      obtain ⟨pack, profile, format, hspelled, rfl⟩ := h
      exact ⟨_, hspelled,
        Slots.known_iff.mpr fun option => by cases option <;> simp [Slots.get], rfl⟩
  · intro slots h
    rw [bind_eq_error] at h
    rcases h with h | ⟨pack, _, h⟩
    · exact required_ne_help _ _ h
    · cases h

theorem parseInspect_eq_ok : helpOrError (parseInspect arguments) = .ok c ↔
    (∃ pack profile format,
      Slots.Spelled ⟨none, some pack, some profile, none, format, false⟩ arguments ∧
        c = .inspect ⟨pack, profile⟩ (format.getD .human)) ∨
    (Asks [.pack, .profile, .format] arguments [] ∧ c = .help) := by
  rw [parseInspect, runLoop_helpIfLast]
  · apply or_congr_left
    constructor
    · intro h
      obtain ⟨⟨lock, pack, profile, output, format, force⟩, hspelled, hknown, hc⟩ := h
      have hall := Slots.known_iff.mp hknown
      obtain rfl : lock = none := (hall .lock).resolve_right (by decide)
      obtain rfl : output = none := (hall .output).resolve_right (by decide)
      obtain rfl : force = false :=
        Slots.force_of_get ((hall .force).resolve_right (by decide))
      simp only [bind_eq_ok, packSelection_eq_ok, pure, Except.pure, Except.ok.injEq] at hc
      obtain ⟨⟨pack, profile⟩, ⟨rfl, rfl⟩, rfl⟩ := hc
      exact ⟨pack, profile, format, hspelled, rfl⟩
    · intro h
      obtain ⟨pack, profile, format, hspelled, rfl⟩ := h
      exact ⟨_, hspelled,
        Slots.known_iff.mpr fun option => by cases option <;> simp [Slots.get], rfl⟩
  · intro slots h
    rw [bind_eq_error] at h
    rcases h with h | ⟨selection, _, h⟩
    · exact packSelection_ne_help h
    · cases h

theorem parseVerify_eq_ok : helpOrError (parseVerify arguments) = .ok c ↔
    (∃ lock pack profile format,
      Slots.Spelled ⟨some lock, some pack, some profile, none, format, false⟩ arguments ∧
        c = .verify lock ⟨pack, profile⟩ (format.getD .human)) ∨
    (Asks [.lock, .pack, .profile, .format] arguments [] ∧ c = .help) := by
  rw [parseVerify, runLoop_helpIfLast]
  · apply or_congr_left
    constructor
    · intro h
      obtain ⟨⟨lock, pack, profile, output, format, force⟩, hspelled, hknown, hc⟩ := h
      have hall := Slots.known_iff.mp hknown
      obtain rfl : output = none := (hall .output).resolve_right (by decide)
      obtain rfl : force = false :=
        Slots.force_of_get ((hall .force).resolve_right (by decide))
      simp only [bind_eq_ok, required_eq_ok, packSelection_eq_ok, pure, Except.pure,
        Except.ok.injEq] at hc
      obtain ⟨lock, rfl, ⟨pack, profile⟩, ⟨rfl, rfl⟩, rfl⟩ := hc
      exact ⟨lock, pack, profile, format, hspelled, rfl⟩
    · intro h
      obtain ⟨lock, pack, profile, format, hspelled, rfl⟩ := h
      exact ⟨_, hspelled,
        Slots.known_iff.mpr fun option => by cases option <;> simp [Slots.get], rfl⟩
  · intro slots h
    rw [bind_eq_error] at h
    rcases h with h | ⟨lock, _, h⟩
    · exact required_ne_help _ _ h
    · rw [bind_eq_error] at h
      rcases h with h | ⟨selection, _, h⟩
      · exact packSelection_ne_help h
      · cases h

/-- `compose` and `lock`. -/
theorem parsePackDestination_eq_ok {command : String}
    {done : PackSelection × Destination → Command} :
    helpOrError (parsePackDestination command done arguments) = .ok c ↔
      (∃ pack profile output force,
        Slots.Spelled ⟨none, some pack, some profile, output, none, force⟩ arguments ∧
          (force = true → output ≠ none) ∧ c = done (⟨pack, profile⟩, ⟨output, force⟩)) ∨
      ((∃ rest, Asks destinationOptions arguments rest) ∧ c = .help) := by
  rw [parsePackDestination, runLoop_helpMessage]
  · apply or_congr_left
    constructor
    · intro h
      obtain ⟨⟨lock, pack, profile, output, format, force⟩, hspelled, hknown, hc⟩ := h
      have hall := Slots.known_iff.mp hknown
      obtain rfl : lock = none := (hall .lock).resolve_right (by decide)
      obtain rfl : format = none := (hall .format).resolve_right (by decide)
      simp only [bind_eq_ok, packDestination_eq_ok, packSelection_eq_ok, pure, Except.pure,
        Except.ok.injEq] at hc
      obtain ⟨⟨⟨pack, profile⟩, destination⟩, ⟨hforce, ⟨rfl, rfl⟩, rfl⟩, rfl⟩ := hc
      exact ⟨pack, profile, output, force, hspelled, hforce, rfl⟩
    · intro h
      obtain ⟨pack, profile, output, force, hspelled, hforce, rfl⟩ := h
      have hdone : packDestination ⟨none, some pack, some profile, output, none, force⟩ =
          .ok (⟨pack, profile⟩, ⟨output, force⟩) :=
        packDestination_eq_ok.mpr ⟨hforce, packSelection_eq_ok.mpr ⟨rfl, rfl⟩, rfl⟩
      refine ⟨_, hspelled,
        Slots.known_iff.mpr fun option => by cases option <;> simp [Slots.get], ?_⟩
      rw [hdone]
      rfl
  · intro slots h
    rw [bind_eq_error] at h
    rcases h with h | ⟨selection, _, h⟩
    · exact packDestination_ne_help h
    · cases h

end

/-! ## Two locks -/

def DiffSlots.apply (slots : DiffSlots) : DiffSetting → Option DiffSlots
  | .path value => some { slots with paths := slots.paths ++ [value] }
  | .format value =>
      if slots.format = none then some { slots with format := some value } else none
  | .noColor => some slots

section

variable {slots slots' : DiffSlots} {arguments : List String} {c : Command}

/-- What an argument of `diff` is. -/
theorem readDiffArgument_cases (argument : String) :
    (argument = "--format" ∧ slots.format = none ∧ readDiffArgument slots argument =
      .valued (.error (requiresValue "--format")) fun value => stop do
        pure { slots with format := some (← parseFormat value) }) ∨
    (argument = "--no-color" ∧ readDiffArgument slots argument = .alone (.ok slots)) ∨
    (argument ∈ helpWords ∧ readDiffArgument slots argument = .leave helpIfLast) ∨
    (argument.toList.head? ≠ some '-' ∧ readDiffArgument slots argument =
      .alone (.ok { slots with paths := slots.paths ++ [argument] })) ∨
    ∃ message, Message (.error message) ∧
      readDiffArgument slots argument = .alone (.error (.error message)) := by
  unfold readDiffArgument
  split
  · next hformat =>
      split
      · exact .inr (.inr (.inr (.inr ⟨_, message_suppliedTwice _, rfl⟩)))
      · next hfree => exact .inl ⟨hformat, Option.not_isSome_iff_eq_none.mp hfree, rfl⟩
  · split
    · next hcolor => exact .inr (.inl ⟨hcolor, rfl⟩)
    · split
      · next hhelp => exact .inr (.inr (.inl ⟨by simpa [helpWords] using hhelp, rfl⟩))
      · split
        · exact .inr (.inr (.inr (.inr ⟨_, message_of_head (by simp), rfl⟩)))
        · next hdash => exact .inr (.inr (.inr (.inl ⟨hdash, rfl⟩)))

theorem readDiffArgument_path {path : String} (h : path.toList.head? ≠ some '-') :
    readDiffArgument slots path = .alone (.ok { slots with paths := slots.paths ++ [path] }) := by
  rcases @readDiffArgument_cases slots path with
    ⟨rfl, _⟩ | ⟨rfl, _⟩ | ⟨hword, _⟩ | ⟨_, hread⟩ | ⟨message, hmessage, hread⟩
  · exact absurd h (by decide)
  · exact absurd h (by decide)
  · simp only [helpWords, List.mem_cons, List.not_mem_nil, or_false] at hword
    rcases hword with rfl | rfl <;> exact absurd h (by decide)
  · exact hread
  · unfold readDiffArgument at hread
    split at hread
    · next hformat => exact absurd h (by rw [hformat]; decide)
    · split at hread
      · cases hread
      · split at hread
        · cases hread
        · simp at hread

theorem readDiffArgument_spells :
    Spells readDiffArgument DiffSetting.spell DiffSlots.apply DiffSetting.Known := by
  constructor
  · intro slots x slots' hknown happly
    cases x with
    | path value =>
        cases happly
        exact .alone (readDiffArgument_path hknown)
    | format value =>
        rw [DiffSlots.apply, Option.ite_none_right_eq_some] at happly
        obtain ⟨hfree, happly⟩ := happly
        cases happly
        apply Takes.valued
        · rw [readDiffArgument, if_pos rfl, if_neg (Option.not_isSome_iff_eq_none.mpr hfree)]
        · exact stop_eq_ok.mpr ⟨value, parseFormat_eq_ok.mpr rfl, rfl⟩
    | noColor =>
        cases happly
        exact .alone rfl
  · intro slots used slots' htakes
    cases htakes with
    | @alone argument _ h =>
        rcases @readDiffArgument_cases slots argument with
          ⟨_, _, hread⟩ | ⟨rfl, hread⟩ | ⟨_, hread⟩ | ⟨hdash, hread⟩ | ⟨_, _, hread⟩
        · rw [hread] at h
          cases h
        · rw [hread] at h
          cases h
          exact ⟨.noColor, trivial, rfl, rfl⟩
        · rw [hread] at h
          cases h
        · rw [hread] at h
          cases h
          exact ⟨.path argument, hdash, rfl, rfl⟩
        · rw [hread] at h
          cases h
    | @valued argument value missing next _ h hvalue =>
        rcases @readDiffArgument_cases slots argument with
          ⟨rfl, hfree, hread⟩ | ⟨_, hread⟩ | ⟨_, hread⟩ | ⟨_, hread⟩ | ⟨_, _, hread⟩
        · rw [hread] at h
          cases h
          obtain ⟨format, hformat, rfl⟩ := stop_eq_ok.mp hvalue
          rw [parseFormat_eq_ok.mp hformat]
          exact ⟨.format format, trivial, rfl, by rw [DiffSlots.apply, if_pos hfree]⟩
        · rw [hread] at h
          cases h
        · rw [hread] at h
          cases h
        · rw [hread] at h
          cases h
        · rw [hread] at h
          cases h

theorem readDiffArgument_faults : Faults readDiffArgument Message := by
  constructor
  · intro slots argument e h
    rcases @readDiffArgument_cases slots argument with
      ⟨_, _, hread⟩ | ⟨_, hread⟩ | ⟨_, hread⟩ | ⟨_, hread⟩ | ⟨message, hmessage, hread⟩
    · rw [hread] at h
      cases h
    · rw [hread] at h
      cases h
    · rw [hread] at h
      cases h
    · rw [hread] at h
      cases h
    · rw [hread] at h
      cases h
      exact hmessage
  · intro slots argument e next h
    rcases @readDiffArgument_cases slots argument with
      ⟨_, _, hread⟩ | ⟨_, hread⟩ | ⟨_, hread⟩ | ⟨_, hread⟩ | ⟨message, hmessage, hread⟩
    · rw [hread] at h
      cases h
      exact message_requiresValue "--format"
    · rw [hread] at h
      cases h
    · rw [hread] at h
      cases h
    · rw [hread] at h
      cases h
    · rw [hread] at h
      cases h
  · intro slots argument missing next value e h hvalue
    rcases @readDiffArgument_cases slots argument with
      ⟨_, _, hread⟩ | ⟨_, hread⟩ | ⟨_, hread⟩ | ⟨_, hread⟩ | ⟨message, hmessage, hread⟩
    · rw [hread] at h
      cases h
      exact message_of_format hvalue
    · rw [hread] at h
      cases h
    · rw [hread] at h
      cases h
    · rw [hread] at h
      cases h
    · rw [hread] at h
      cases h

theorem readDiffArgument_leave {word : String} {result : List String → Early} :
    readDiffArgument slots word = .leave result ↔ word ∈ helpWords ∧ result = helpIfLast := by
  have hhelp : word ∈ helpWords → readDiffArgument slots word = .leave helpIfLast := by
    intro hword
    simp only [helpWords, List.mem_cons, List.not_mem_nil, or_false] at hword
    rcases hword with rfl | rfl <;> rfl
  constructor
  · intro h
    rcases @readDiffArgument_cases slots word with
      ⟨_, _, hread⟩ | ⟨_, hread⟩ | ⟨hword, hread⟩ | ⟨_, hread⟩ | ⟨_, _, hread⟩
    · rw [hread] at h
      cases h
    · rw [hread] at h
      cases h
    · rw [hread] at h
      cases h
      exact ⟨hword, rfl⟩
    · rw [hread] at h
      cases h
    · rw [hread] at h
      cases h
  · intro h
    rw [hhelp h.1, h.2]

/-- Paths are collected in order, and one format. -/
theorem diff_foldlM {xs : List DiffSetting} {s : DiffSlots} :
    xs.foldlM DiffSlots.apply s = some slots ↔
      s.paths ++ xs.filterMap DiffSetting.path? = slots.paths ∧
        s.format.toList ++ xs.filterMap DiffSetting.format? = slots.format.toList := by
  induction xs generalizing s with
  | nil =>
      obtain ⟨paths, format⟩ := s
      obtain ⟨paths', format'⟩ := slots
      simp only [List.foldlM_nil, Option.pure_def, Option.some.injEq, DiffSlots.mk.injEq,
        List.filterMap_nil, List.append_nil]
      apply and_congr_right
      intro _
      cases format <;> cases format' <;> simp
  | cons x xs ih =>
      rw [List.foldlM_cons, Option.bind_eq_bind, Option.bind_eq_some_iff]
      cases x with
      | path value =>
          simp [DiffSlots.apply, ih, List.filterMap_cons, DiffSetting.path?, DiffSetting.format?]
      | noColor =>
          simp [DiffSlots.apply, ih, List.filterMap_cons, DiffSetting.path?, DiffSetting.format?]
      | format value =>
          cases hformat : s.format with
          | none =>
              simp [DiffSlots.apply, ih, List.filterMap_cons, DiffSetting.path?,
                DiffSetting.format?, hformat]
          | some first =>
              have hlength : slots.format.toList.length ≤ 1 := by cases slots.format <;> simp
              simp only [DiffSlots.apply, hformat, reduceCtorEq, if_false, false_and, exists_false,
                false_iff, not_and, List.filterMap_cons, DiffSetting.format?, Option.toList_some]
              intro _ heq
              rw [← heq] at hlength
              simp at hlength

theorem twoPaths_eq_ok : twoPaths slots = .ok c ↔ ∃ baseline candidate,
    slots.paths = [baseline, candidate] ∧
      c = .diff baseline candidate (slots.format.getD .human) := by
  unfold twoPaths
  constructor
  · intro h
    split at h
    · next baseline candidate hpaths => exact ⟨baseline, candidate, hpaths, (Except.ok.inj h).symm⟩
    · cases h
  · intro h
    obtain ⟨baseline, candidate, hpaths, rfl⟩ := h
    rw [hpaths]

theorem twoPaths_ne_help : twoPaths slots ≠ .error "help" := by
  unfold twoPaths
  split <;> simp

theorem parseDiff_eq_ok : helpOrError (parseDiff arguments) = .ok c ↔
    (∃ baseline candidate format, DiffSlots.Spelled ⟨[baseline, candidate], format⟩ arguments ∧
      c = .diff baseline candidate (format.getD .human)) ∨
    ((∃ (slots : DiffSlots) (front : List String) (word : String), slots.Spelled front ∧
      word ∈ helpWords ∧ arguments = front ++ [word]) ∧ c = .help) := by
  have hspelled : ∀ (slots : DiffSlots) (front : List String), slots.Spelled front ↔
      ∃ xs : List DiffSetting, (∀ x ∈ xs, x.Known) ∧ front = xs.flatMap DiffSetting.spell ∧
        xs.foldlM DiffSlots.apply ⟨[], none⟩ = some slots := by
    intro slots front
    apply exists_congr
    intro xs
    rw [diff_foldlM]
    rfl
  rw [parseDiff, helpOrError_eq_ok,
    runLoop_eq_of_spells readDiffArgument_spells readDiffArgument_faults (not_message_ok c),
    runLoop_eq_of_spells readDiffArgument_spells readDiffArgument_faults not_message_help]
  constructor
  · intro h
    rcases h with (⟨xs, slots, hknown, hxs, hfold, hdone⟩ |
      ⟨xs, slots, word, rest, leave, hknown, hxs, hfold, hleave, hrest⟩) |
      ⟨⟨xs, slots, _, _, _, hdone⟩ | ⟨xs, slots, word, rest, leave, _, _, _, hleave, hrest⟩, _⟩
    · obtain ⟨baseline, candidate, hpaths, rfl⟩ := twoPaths_eq_ok.mp hdone
      obtain ⟨paths, format⟩ := slots
      obtain rfl : paths = [baseline, candidate] := hpaths
      exact .inl ⟨baseline, candidate, format, (hspelled _ _).mpr ⟨xs, hknown, hxs, hfold⟩, rfl⟩
    · obtain ⟨hword, rfl⟩ := readDiffArgument_leave.mp hleave
      obtain ⟨rfl, hc⟩ := helpIfLast_eq.mp ⟨hrest, not_message_ok c⟩
      exact .inr ⟨⟨slots, _, word, (hspelled _ _).mpr ⟨xs, hknown, rfl, hfold⟩, hword, hxs⟩,
        Except.ok.inj hc⟩
    · exact absurd hdone twoPaths_ne_help
    · obtain ⟨_, rfl⟩ := readDiffArgument_leave.mp hleave
      obtain ⟨_, hc⟩ := helpIfLast_eq.mp ⟨hrest, not_message_help⟩
      cases hc
  · intro h
    left
    rcases h with ⟨baseline, candidate, format, hsettings, rfl⟩ |
      ⟨⟨slots, front, word, hfront, hword, rfl⟩, rfl⟩
    · obtain ⟨xs, hknown, hxs, hfold⟩ := (hspelled _ _).mp hsettings
      exact .inl ⟨xs, _, hknown, hxs, hfold, rfl⟩
    · obtain ⟨xs, hknown, rfl, hfold⟩ := (hspelled _ _).mp hfront
      exact .inr ⟨xs, slots, word, [], helpIfLast, hknown, rfl, hfold,
        readDiffArgument_leave.mpr ⟨hword, rfl⟩, rfl⟩

end

/-! ## The whole line -/

theorem helpOrError_finish {rest : List String} {command c : Command} :
    helpOrError (finish rest command) = .ok c ↔ rest = [] ∧ c = command := by
  cases rest with
  | nil => simp [finish, helpOrError, eq_comm]
  | cons argument rest =>
      have hmessage : Message (finish (argument :: rest) command) := message_of_head (by simp)
      obtain ⟨message, heq, hne⟩ := hmessage
      rw [heq, helpOrError, if_neg hne]
      simp

section

variable {arguments : List String} {c : Command}

theorem Invokes.of_parseValidate (h : helpOrError (parseValidate arguments) = .ok c) :
    Invokes ("validate" :: arguments) c := by
  rcases parseValidate_eq_ok.mp h with ⟨pack, profile, format, hsettings, rfl⟩ | ⟨hasks, rfl⟩
  · exact .validate hsettings
  · exact .helpLast (by simp [reportOptions]) hasks

theorem Invokes.of_parseInspect (h : helpOrError (parseInspect arguments) = .ok c) :
    Invokes ("inspect" :: arguments) c := by
  rcases parseInspect_eq_ok.mp h with ⟨pack, profile, format, hsettings, rfl⟩ | ⟨hasks, rfl⟩
  · exact .inspect hsettings
  · exact .helpLast (by simp [reportOptions]) hasks

theorem Invokes.of_parseVerify (h : helpOrError (parseVerify arguments) = .ok c) :
    Invokes ("verify" :: arguments) c := by
  rcases parseVerify_eq_ok.mp h with ⟨lock, pack, profile, format, hsettings, rfl⟩ | ⟨hasks, rfl⟩
  · exact .verify hsettings
  · exact .helpLast (by simp [reportOptions]) hasks

theorem Invokes.of_parseCompose (h : helpOrError (parseCompose arguments) = .ok c) :
    Invokes ("compose" :: arguments) c := by
  rcases parsePackDestination_eq_ok.mp h with
    ⟨pack, profile, output, force, hsettings, hforce, rfl⟩ | ⟨⟨rest, hasks⟩, rfl⟩
  · exact .compose hforce hsettings
  · exact .helpAnywhere (by simp) hasks

theorem Invokes.of_parseLock (h : helpOrError (parseLock arguments) = .ok c) :
    Invokes ("lock" :: arguments) c := by
  rcases parsePackDestination_eq_ok.mp h with
    ⟨pack, profile, output, force, hsettings, hforce, rfl⟩ | ⟨⟨rest, hasks⟩, rfl⟩
  · exact .lock hforce hsettings
  · exact .helpAnywhere (by simp) hasks

theorem Invokes.of_parseDiff (h : helpOrError (parseDiff arguments) = .ok c) :
    Invokes ("diff" :: arguments) c := by
  rcases parseDiff_eq_ok.mp h with ⟨baseline, candidate, format, hsettings, rfl⟩ |
    ⟨⟨slots, front, word, hfront, hword, rfl⟩, rfl⟩
  · exact .diff hsettings
  · exact .helpDiff hfront hword

theorem Invokes.of_parseRpc (h : helpOrError (parseRpc arguments) = .ok c) :
    Invokes ("rpc" :: arguments) c := by
  obtain ⟨rfl, rfl⟩ := helpOrError_finish.mp h
  exact .rpc

end

/-- What the parser accepts is a command line of the grammar. -/
theorem Invokes.of_parseText {line : List String} {c : Command}
    (h : helpOrError (parseText line) = .ok c) : Invokes line c := by
  cases line with
  | nil =>
      cases h
      exact .nothing
  | cons word rest =>
      rw [parseText] at h
      split_ifs at h with hversion hhelp hvalidate hcompose hinspect hlock hverify hdiff hrpc
      · obtain ⟨rfl, rfl⟩ := helpOrError_finish.mp h
        exact .version (by simpa using hversion)
      · obtain ⟨rfl, rfl⟩ := helpOrError_finish.mp h
        exact .help (by simpa using hhelp)
      · exact hvalidate ▸ .of_parseValidate h
      · exact hcompose ▸ .of_parseCompose h
      · exact hinspect ▸ .of_parseInspect h
      · exact hlock ▸ .of_parseLock h
      · exact hverify ▸ .of_parseVerify h
      · exact hdiff ▸ .of_parseDiff h
      · exact hrpc ▸ .of_parseRpc h
      · obtain ⟨message, heq, hne⟩ : Message (.error ("unknown command `" ++ word ++ "`")) :=
          message_of_head (by simp)
        rw [heq, helpOrError, if_neg hne] at h
        cases h

/-- A command line of the grammar is accepted. -/
theorem parseText_of_invokes {line : List String} {c : Command} (h : Invokes line c) :
    helpOrError (parseText line) = .ok c := by
  cases h with
  | nothing => rfl
  | version hword =>
      rw [parseText, if_pos (by simpa using hword)]
      exact helpOrError_finish.mpr ⟨rfl, rfl⟩
  | @help word hword =>
      have hversion : ¬ (word = "--version" ∨ word = "version") := by
        simp only [List.mem_cons, List.not_mem_nil, or_false] at hword
        rcases hword with rfl | rfl | rfl <;> decide
      rw [parseText, if_neg hversion, if_pos (by simpa using hword)]
      exact helpOrError_finish.mpr ⟨rfl, rfl⟩
  | @helpLast word options arguments hcommand hasks =>
      simp only [reportOptions, List.mem_cons, Prod.mk.injEq, List.not_mem_nil, or_false]
        at hcommand
      rcases hcommand with ⟨rfl, rfl⟩ | ⟨rfl, rfl⟩ | ⟨rfl, rfl⟩
      · exact parseValidate_eq_ok.mpr (.inr ⟨hasks, rfl⟩)
      · exact parseInspect_eq_ok.mpr (.inr ⟨hasks, rfl⟩)
      · exact parseVerify_eq_ok.mpr (.inr ⟨hasks, rfl⟩)
  | @helpAnywhere word arguments rest hcommand hasks =>
      simp only [List.mem_cons, List.not_mem_nil, or_false] at hcommand
      rcases hcommand with rfl | rfl
      · exact parsePackDestination_eq_ok.mpr (.inr ⟨⟨rest, hasks⟩, rfl⟩)
      · exact parsePackDestination_eq_ok.mpr (.inr ⟨⟨rest, hasks⟩, rfl⟩)
  | helpDiff hfront hword =>
      exact parseDiff_eq_ok.mpr (.inr ⟨⟨_, _, _, hfront, hword, rfl⟩, rfl⟩)
  | validate hsettings => exact parseValidate_eq_ok.mpr (.inl ⟨_, _, _, hsettings, rfl⟩)
  | inspect hsettings => exact parseInspect_eq_ok.mpr (.inl ⟨_, _, _, hsettings, rfl⟩)
  | verify hsettings => exact parseVerify_eq_ok.mpr (.inl ⟨_, _, _, _, hsettings, rfl⟩)
  | compose hforce hsettings =>
      exact parsePackDestination_eq_ok.mpr (.inl ⟨_, _, _, _, hsettings, hforce, rfl⟩)
  | lock hforce hsettings =>
      exact parsePackDestination_eq_ok.mpr (.inl ⟨_, _, _, _, hsettings, hforce, rfl⟩)
  | diff hsettings => exact parseDiff_eq_ok.mpr (.inl ⟨_, _, _, hsettings, rfl⟩)
  | rpc => rfl

theorem parseText_eq_ok {line : List String} {c : Command} :
    helpOrError (parseText line) = .ok c ↔ Invokes line c :=
  ⟨.of_parseText, parseText_of_invokes⟩

/-! ## Order of the options -/

theorem outputFormat_text_injective : Function.Injective OutputFormat.text := by
  intro a b
  cases a <;> cases b <;> decide

theorem Setting.spell_delimited : Delimited Setting.spell := by
  intro x y rest rest' h
  cases x <;> cases y <;>
    simp_all [Setting.spell, outputFormat_text_injective.eq_iff]

theorem Setting.spell_ne_nil (x : Setting) : x.spell ≠ [] := by
  cases x <;> simp [Setting.spell]

theorem Setting.flatMap_spell_injective : Function.Injective (List.flatMap Setting.spell) :=
  Setting.spell_delimited.flatMap_injective Setting.spell_ne_nil

/-- Settings never ask for help. -/
theorem not_asks {options : List OptionName} {xs : List Setting} {rest : List String} :
    ¬ Asks options (xs.flatMap Setting.spell) rest := by
  intro h
  obtain ⟨slots, front, word, ⟨ys, rfl, _⟩, _, hword, heq⟩ := h
  obtain ⟨zs, _, hhelp⟩ := Setting.spell_delimited.flatMap_append Setting.spell_ne_nil heq
  cases zs with
  | nil => cases hhelp
  | cons z zs => cases z <;> simp_all [Setting.spell, helpWords]

theorem Slots.Spelled.perm {slots : Slots} {xs ys : List Setting}
    (h : slots.Spelled (xs.flatMap Setting.spell)) (hperm : xs.Perm ys) :
    slots.Spelled (ys.flatMap Setting.spell) := by
  obtain ⟨zs, hzs, hsettings⟩ := h
  obtain rfl := Setting.flatMap_spell_injective hzs
  exact ⟨ys, rfl, (hperm.symm.filter _).trans hsettings⟩

/-- Options in another order ask for the same. -/
theorem Invokes.perm {word : String} {xs ys : List Setting} {c : Command} (hword : word ≠ "diff")
    (hperm : xs.Perm ys) (h : Invokes (word :: xs.flatMap Setting.spell) c) :
    Invokes (word :: ys.flatMap Setting.spell) c := by
  have hnil : xs.flatMap Setting.spell = [] → ys.flatMap Setting.spell = [] := by
    intro hxs
    obtain rfl : xs = [] := Setting.flatMap_spell_injective hxs
    rw [← hperm.nil_eq]
    rfl
  generalize hline : word :: xs.flatMap Setting.spell = line at h
  cases h with
  | nothing => cases hline
  | version hversion =>
      obtain ⟨rfl, hxs⟩ := List.cons.inj hline
      rw [hnil hxs]
      exact .version hversion
  | help hhelp =>
      obtain ⟨rfl, hxs⟩ := List.cons.inj hline
      rw [hnil hxs]
      exact .help hhelp
  | helpLast _ hasks | helpAnywhere _ hasks =>
      obtain ⟨rfl, rfl⟩ := List.cons.inj hline
      exact absurd hasks not_asks
  | helpDiff _ _ => exact absurd (List.cons.inj hline).1 hword
  | validate hsettings =>
      obtain ⟨rfl, rfl⟩ := List.cons.inj hline
      exact .validate (hsettings.perm hperm)
  | inspect hsettings =>
      obtain ⟨rfl, rfl⟩ := List.cons.inj hline
      exact .inspect (hsettings.perm hperm)
  | verify hsettings =>
      obtain ⟨rfl, rfl⟩ := List.cons.inj hline
      exact .verify (hsettings.perm hperm)
  | compose hforce hsettings =>
      obtain ⟨rfl, rfl⟩ := List.cons.inj hline
      exact .compose hforce (hsettings.perm hperm)
  | lock hforce hsettings =>
      obtain ⟨rfl, rfl⟩ := List.cons.inj hline
      exact .lock hforce (hsettings.perm hperm)
  | diff _ => exact absurd (List.cons.inj hline).1 hword
  | rpc =>
      obtain ⟨rfl, hxs⟩ := List.cons.inj hline
      rw [hnil hxs]
      exact .rpc

theorem texts_eq_ok {arguments : List Bytes} {line : List String} :
    collect (fun argument => okOr (Text.fromUtf8 argument) "arguments must be valid UTF-8")
      arguments = .ok line ↔ arguments = line.map Text.bytes := by
  rw [collect_eq_ok]
  simp only [okOr_eq_ok, Text.fromUtf8_eq_some]
  constructor
  · intro h
    induction h with
    | nil => rfl
    | cons hword _ ih => rw [List.map_cons, hword, ih]
  · intro h
    rw [h, List.forall₂_map_left_iff]
    exact List.forall₂_same.mpr fun _ _ => rfl

theorem texts_eq_error {arguments : List Bytes} {message : String}
    (h : collect (fun argument => okOr (Text.fromUtf8 argument) "arguments must be valid UTF-8")
      arguments = .error message) : message = "arguments must be valid UTF-8" := by
  induction arguments with
  | nil => cases h
  | cons argument arguments ih =>
      rw [collect, bind_eq_error] at h
      rcases h with h | ⟨word, _, h⟩
      · exact (okOr_eq_error.mp h).2.symm
      · rw [bind_eq_error] at h
        rcases h with h | ⟨line, _, h⟩
        · exact ih h
        · cases h

theorem parse_eq_ok {arguments : List Bytes} {c : Command} :
    helpOrError (parse arguments) = .ok c ↔
      ∃ line : List String, arguments = line.map Text.bytes ∧ Invokes line c := by
  rw [parse]
  simp only [← texts_eq_ok, ← parseText_eq_ok]
  cases hline : collect (fun argument => okOr (Text.fromUtf8 argument)
      "arguments must be valid UTF-8") arguments with
  | ok line =>
      simp only [Except.ok.injEq, exists_eq_left']
      rfl
  | error message =>
      rw [texts_eq_error hline]
      simp [helpOrError]

/-- No command of the grammar is called `install`. -/
theorem Invokes.not_install {line : List String} {c : Command} (h : Invokes line c) :
    line.head? ≠ some "install" := by
  cases h with
  | version hword | help hword | helpAnywhere hword _ =>
      simp only [List.mem_cons, List.not_mem_nil, or_false] at hword
      intro heq
      cases heq
      simp at hword
  | helpLast hcommand _ =>
      intro heq
      cases heq
      simp [reportOptions] at hcommand
  | _ => simp

theorem isInstallCommand_eq {arguments : List Bytes} : isInstallCommand arguments = true ↔
    ∃ rest, arguments = Text.bytes "install" :: rest := by
  cases arguments with
  | nil => simp [isInstallCommand]
  | cons argument rest => simp [isInstallCommand]

end Invokrum.Cli
