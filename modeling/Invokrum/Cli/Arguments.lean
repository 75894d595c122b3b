import Invokrum.Base.Options
import Invokrum.Base.Outcome
import Invokrum.Base.Text

/-!
# Arguments of the command line

The option loops of the commands that read packs and locks. They share their
options; a command accepts some of them. What a command line means does not
depend on the order of its options.
-/

namespace Invokrum.Cli

open Outcome Options
open Text (Bytes)

inductive OutputFormat where
  | human
  | json
deriving DecidableEq

structure PackSelection where
  pack : String
  profile : String
deriving DecidableEq

structure Destination where
  output : Option String
  force : Bool
deriving DecidableEq

inductive Command where
  | version
  | help
  | validate (pack : String) (profile : Option String) (format : OutputFormat)
  | compose (selection : PackSelection) (destination : Destination)
  | inspect (selection : PackSelection) (format : OutputFormat)
  | lock (selection : PackSelection) (destination : Destination)
  | verify (lock : String) (selection : PackSelection) (format : OutputFormat)
  | diff (baseline candidate : String) (format : OutputFormat)
  | rpc
deriving DecidableEq

def OutputFormat.text : OutputFormat → String
  | .human => "human"
  | .json => "json"

/-! ## Steps of a loop -/

inductive OptionName where
  | lock
  | pack
  | profile
  | output
  | format
  | force
deriving DecidableEq

def OptionName.text : OptionName → String
  | .lock => "--lock"
  | .pack => "--pack"
  | .profile => "--profile"
  | .output => "--output"
  | .format => "--format"
  | .force => "--force"

/-- What a loop has seen. `format` and `force` are the values with their `_seen` flags. -/
structure Slots where
  lock : Option String
  pack : Option String
  profile : Option String
  output : Option String
  format : Option OutputFormat
  force : Bool
deriving DecidableEq

def Slots.empty : Slots := ⟨none, none, none, none, none, false⟩

def parseFormat (value : String) : Except String OutputFormat :=
  if value = "human" then .ok .human
  else if value = "json" then .ok .json
  else .error ("unsupported output format `" ++ value ++ "`")

def suppliedTwice (option : String) : String :=
  "option `" ++ option ++ "` was supplied more than once"

def requiresValue (option : String) : String := "option `" ++ option ++ "` requires a value"

def assign (slot : Option String) (value option : String) : Except String (Option String) :=
  if slot.isSome then .error (suppliedTwice option) else .ok (some value)

def required (value : Option String) (option : String) : Except String String :=
  okOr value ("missing required option `" ++ option ++ "`")

def finish (rest : List String) (command : Command) : Except String Command :=
  match rest with
  | argument :: _ => .error ("unexpected argument `" ++ argument ++ "`")
  | [] => .ok command

/-- A loop that is left returns from its function. -/
abbrev Early : Type := Except String Command

def stop {α : Type} (x : Except String α) : Except Early α := x.mapError .error

/-- One arm of a loop. -/
def readOption (slots : Slots) : OptionName → Reading String Slots Early
  | .lock => .valued (.error (requiresValue "--lock")) fun value => stop do
      pure { slots with lock := ← assign slots.lock value "--lock" }
  | .pack => .valued (.error (requiresValue "--pack")) fun value => stop do
      pure { slots with pack := ← assign slots.pack value "--pack" }
  | .profile => .valued (.error (requiresValue "--profile")) fun value => stop do
      pure { slots with profile := ← assign slots.profile value "--profile" }
  | .output => .valued (.error (requiresValue "--output")) fun value => stop do
      pure { slots with output := ← assign slots.output value "--output" }
  | .format =>
      if slots.format.isSome then .alone (.error (.error (suppliedTwice "--format")))
      else .valued (.error (requiresValue "--format")) fun value => stop do
        pure { slots with format := some (← parseFormat value) }
  | .force =>
      if slots.force then .alone (.error (.error (suppliedTwice "--force")))
      else .alone (.ok { slots with force := true })

/-- The loop of a command with these options. -/
def readArgument (options : List OptionName) (command : String) (onHelp : List String → Early)
    (slots : Slots) (argument : String) : Reading String Slots Early :=
  match options.find? fun option => option.text = argument with
  | some option => readOption slots option
  | none =>
      if argument = "--no-color" then .alone (.ok slots)
      else if argument = "--help" ∨ argument = "-h" then .leave onHelp
      else .alone (.error (.error
        ("unknown " ++ command ++ " option `" ++ argument ++ "`")))

/-- A function with such a loop: what it returns when the loop is left, and what it makes of the
settings when all arguments are read. -/
def runLoop {σ : Type} (read : σ → String → Reading String σ Early) (start : σ)
    (done : σ → Except String Command) (arguments : List String) : Except String Command :=
  match scan read start arguments with
  | .ok s => done s
  | .error early => early

def helpIfLast (rest : List String) : Early := finish rest .help

/-- `return Err("help")`, which the caller turns into `Help`. -/
def helpMessage (_ : List String) : Early := .error "help"

/-! ## Commands -/

def packSelection (slots : Slots) : Except String PackSelection := do
  let pack ← required slots.pack "--pack"
  let profile ← required slots.profile "--profile"
  pure ⟨pack, profile⟩

def parseValidate : List String → Except String Command :=
  runLoop (readArgument [.pack, .profile, .format] "validate" helpIfLast) .empty fun slots => do
    let pack ← required slots.pack "--pack"
    pure (.validate pack slots.profile (slots.format.getD .human))

def parseInspect : List String → Except String Command :=
  runLoop (readArgument [.pack, .profile, .format] "inspect" helpIfLast) .empty fun slots => do
    pure (.inspect (← packSelection slots) (slots.format.getD .human))

def parseVerify : List String → Except String Command :=
  runLoop (readArgument [.lock, .pack, .profile, .format] "verify" helpIfLast) .empty
    fun slots => do
      let lock ← required slots.lock "--lock"
      pure (.verify lock (← packSelection slots) (slots.format.getD .human))

/-- The settings of `compose` and `lock`. -/
def packDestination (slots : Slots) : Except String (PackSelection × Destination) := do
  rejectIf (slots.force = true ∧ slots.output = none) "`--force` requires `--output`"
  pure (← packSelection slots, ⟨slots.output, slots.force⟩)

def parsePackDestination (command : String)
    (done : PackSelection × Destination → Command) : List String → Except String Command :=
  runLoop (readArgument [.pack, .profile, .output, .force] command helpMessage) .empty
    fun slots => do pure (done (← packDestination slots))

def parseCompose : List String → Except String Command :=
  parsePackDestination "compose" fun (selection, destination) => .compose selection destination

def parseLock : List String → Except String Command :=
  parsePackDestination "lock" fun (selection, destination) => .lock selection destination

/-- The state of `parse_diff`. -/
structure DiffSlots where
  paths : List String
  format : Option OutputFormat
deriving DecidableEq

def readDiffArgument (slots : DiffSlots) (argument : String) : Reading String DiffSlots Early :=
  if argument = "--format" then
    if slots.format.isSome then .alone (.error (.error (suppliedTwice "--format")))
    else .valued (.error (requiresValue "--format")) fun value => stop do
      pure { slots with format := some (← parseFormat value) }
  else if argument = "--no-color" then .alone (.ok slots)
  else if argument = "--help" ∨ argument = "-h" then .leave helpIfLast
  else if argument.toList.head? = some '-' then
    .alone (.error (.error ("unknown diff option `" ++ argument ++ "`")))
  else .alone (.ok { slots with paths := slots.paths ++ [argument] })

/-- The part of `parse_diff` after its loop. -/
def twoPaths (slots : DiffSlots) : Except String Command :=
  match slots.paths with
  | [baseline, candidate] => .ok (.diff baseline candidate (slots.format.getD .human))
  | _ => .error "diff requires exactly a baseline lock and candidate lock"

def parseDiff : List String → Except String Command :=
  runLoop readDiffArgument ⟨[], none⟩ twoPaths

def parseRpc (rest : List String) : Except String Command := finish rest .rpc

def parseText : List String → Except String Command
  | [] => .ok .version
  | command :: rest =>
      if command = "--version" ∨ command = "version" then finish rest .version
      else if command = "--help" ∨ command = "-h" ∨ command = "help" then finish rest .help
      else if command = "validate" then parseValidate rest
      else if command = "compose" then parseCompose rest
      else if command = "inspect" then parseInspect rest
      else if command = "lock" then parseLock rest
      else if command = "verify" then parseVerify rest
      else if command = "diff" then parseDiff rest
      else if command = "rpc" then parseRpc rest
      else .error ("unknown command `" ++ command ++ "`")

/-- Arguments of the operating system are any bytes. -/
def parse (arguments : List Bytes) : Except String Command := do
  parseText (← collect (fun argument =>
    okOr (Text.fromUtf8 argument) "arguments must be valid UTF-8") arguments)

/-! ## Settings -/

inductive Setting where
  | lock (path : String)
  | pack (path : String)
  | profile (identifier : String)
  | output (path : String)
  | format (format : OutputFormat)
  | force
  | noColor
deriving DecidableEq

namespace Setting

def spell : Setting → List String
  | .lock path => ["--lock", path]
  | .pack path => ["--pack", path]
  | .profile identifier => ["--profile", identifier]
  | .output path => ["--output", path]
  | .format value => ["--format", value.text]
  | .force => ["--force"]
  | .noColor => ["--no-color"]

def name : Setting → Option OptionName
  | .lock _ => some .lock
  | .pack _ => some .pack
  | .profile _ => some .profile
  | .output _ => some .output
  | .format _ => some .format
  | .force => some .force
  | .noColor => none

/-- `--no-color` sets nothing. -/
def silent (x : Setting) : Bool := x.name.isNone

/-- A command with these options knows the setting. -/
def Known (options : List OptionName) (x : Setting) : Prop := ∀ option ∈ x.name, option ∈ options

end Setting

@[reducible] def OptionName.Value : OptionName → Type
  | .format => OutputFormat
  | .force => Unit
  | _ => String

def Setting.make : (option : OptionName) → option.Value → Setting
  | .lock, path => .lock path
  | .pack, path => .pack path
  | .profile, identifier => .profile identifier
  | .output, path => .output path
  | .format, value => .format value
  | .force, () => .force

namespace Slots

def get (slots : Slots) : (option : OptionName) → Option option.Value
  | .lock => slots.lock
  | .pack => slots.pack
  | .profile => slots.profile
  | .output => slots.output
  | .format => slots.format
  | .force => if slots.force then some () else none

def put (slots : Slots) : (option : OptionName) → option.Value → Slots
  | .lock, path => { slots with lock := some path }
  | .pack, path => { slots with pack := some path }
  | .profile, identifier => { slots with profile := some identifier }
  | .output, path => { slots with output := some path }
  | .format, value => { slots with format := some value }
  | .force, () => { slots with force := true }

/-- The slots, as fields. -/
def fields : Fields Slots OptionName OptionName.Value where
  keys := [.lock, .pack, .profile, .output, .format, .force]
  get := get
  put := put
  nodup := by decide
  complete := by
    intro option
    cases option <;> decide
  get_put := by
    intro slots option value
    cases option <;> rfl
  get_put_of_ne := by
    intro slots option value option' hne
    cases option <;> cases option' <;> first | exact absurd rfl hne | rfl
  ext := by
    intro slots slots' h
    have hforce : slots.force = slots'.force := by
      have hget := congrFun h .force
      simp only [get] at hget
      revert hget
      cases slots.force <;> cases slots'.force <;> simp
    obtain ⟨_, _, _, _, _, _⟩ := slots
    cases (congrFun h .lock : _ = slots'.lock)
    cases (congrFun h .pack : _ = slots'.pack)
    cases (congrFun h .profile : _ = slots'.profile)
    cases (congrFun h .output : _ = slots'.output)
    cases (congrFun h .format : _ = slots'.format)
    cases hforce
    rfl

def settings (slots : Slots) : List Setting := fields.settings Setting.make slots

/-- Makes a setting whose slot is free. -/
def apply (slots : Slots) : Setting → Option Slots
  | .lock path => if slots.lock = none then some { slots with lock := some path } else none
  | .pack path => if slots.pack = none then some { slots with pack := some path } else none
  | .profile identifier =>
      if slots.profile = none then some { slots with profile := some identifier } else none
  | .output path => if slots.output = none then some { slots with output := some path } else none
  | .format format =>
      if slots.format = none then some { slots with format := some format } else none
  | .force => if slots.force = false then some { slots with force := true } else none
  | .noColor => some slots

end Slots

theorem parseFormat_eq_ok {value : String} {format : OutputFormat} :
    parseFormat value = .ok format ↔ value = format.text := by
  unfold parseFormat
  cases format with
  | human =>
      by_cases hhuman : value = "human"
      · simp [hhuman, OutputFormat.text]
      · by_cases hjson : value = "json" <;> simp [hhuman, hjson, OutputFormat.text]
  | json =>
      by_cases hhuman : value = "human"
      · simp [hhuman, OutputFormat.text]
      · by_cases hjson : value = "json" <;> simp [hhuman, hjson, OutputFormat.text]

theorem assign_eq_ok {slot slot' : Option String} {value option : String} :
    assign slot value option = .ok slot' ↔ slot = none ∧ slot' = some value := by
  unfold assign
  cases slot with
  | none => simp [eq_comm]
  | some v => simp

theorem find_option {options : List OptionName} {option : OptionName} (h : option ∈ options) :
    (options.find? fun o => o.text = option.text) = some option := by
  have htext : ∀ a b : OptionName, a.text = b.text → a = b := by
    intro a b
    cases a <;> cases b <;> decide
  have hsome : (options.find? fun o => o.text = option.text).isSome = true := by
    rw [List.find?_isSome]
    exact ⟨option, h, by simp⟩
  obtain ⟨found, hfound⟩ := Option.isSome_iff_exists.mp hsome
  rw [hfound, htext found option (by simpa using List.find?_some hfound)]

section

variable {options : List OptionName} {command : String} {onHelp : List String → Early}
  {slots slots' : Slots}

theorem readArgument_option {option : OptionName} (h : option ∈ options) :
    readArgument options command onHelp slots option.text = readOption slots option := by
  rw [readArgument, find_option h]

theorem readArgument_noColor :
    readArgument options command onHelp slots "--no-color" = .alone (.ok slots) := by
  have hnone : (options.find? fun o => o.text = "--no-color") = none := by
    rw [List.find?_eq_none]
    intro option _
    cases option <;> decide
  rw [readArgument, hnone]
  rfl

theorem stop_eq_ok {α β : Type} {x : Except String α} {f : α → β} {b : β} :
    stop (do pure (f (← x))) = .ok b ↔ ∃ a, x = .ok a ∧ f a = b := by
  rw [stop, mapError_eq_ok, bind_eq_ok]
  simp only [pure, Except.pure, Except.ok.injEq]

/-- Only `--force` is complete in itself. -/
theorem setting_of_alone {option : OptionName}
    (h : readOption slots option = .alone (.ok slots')) :
    option = .force ∧ slots.apply .force = some slots' := by
  cases option with
  | force =>
      rw [readOption] at h
      split at h
      · cases h
      · next hfree =>
          cases h
          exact ⟨rfl, by rw [Slots.apply, if_pos (Bool.eq_false_iff.mpr hfree)]⟩
  | format =>
      rw [readOption] at h
      split at h <;> cases h
  | _ => cases h

/-- The other options take a value and make their setting with it. -/
theorem setting_of_valued {option : OptionName} {missing : Early}
    {next : String → Except Early Slots} {value : String}
    (h : readOption slots option = .valued missing next) (hvalue : next value = .ok slots') :
    ∃ x : Setting, x.name = some option ∧ x.spell = [option.text, value] ∧
      slots.apply x = some slots' := by
  cases option with
  | force =>
      rw [readOption] at h
      split at h <;> cases h
  | format =>
      rw [readOption] at h
      split at h
      · cases h
      · next hfree =>
          cases h
          obtain ⟨format, hformat, rfl⟩ := stop_eq_ok.mp hvalue
          rw [parseFormat_eq_ok.mp hformat]
          exact ⟨.format format, rfl, rfl,
            by rw [Slots.apply, if_pos (Option.not_isSome_iff_eq_none.mp hfree)]⟩
  | lock =>
      cases h
      obtain ⟨slot, hslot, rfl⟩ := stop_eq_ok.mp hvalue
      obtain ⟨hfree, rfl⟩ := assign_eq_ok.mp hslot
      exact ⟨.lock value, rfl, rfl, by rw [Slots.apply, if_pos hfree]⟩
  | pack =>
      cases h
      obtain ⟨slot, hslot, rfl⟩ := stop_eq_ok.mp hvalue
      obtain ⟨hfree, rfl⟩ := assign_eq_ok.mp hslot
      exact ⟨.pack value, rfl, rfl, by rw [Slots.apply, if_pos hfree]⟩
  | profile =>
      cases h
      obtain ⟨slot, hslot, rfl⟩ := stop_eq_ok.mp hvalue
      obtain ⟨hfree, rfl⟩ := assign_eq_ok.mp hslot
      exact ⟨.profile value, rfl, rfl, by rw [Slots.apply, if_pos hfree]⟩
  | output =>
      cases h
      obtain ⟨slot, hslot, rfl⟩ := stop_eq_ok.mp hvalue
      obtain ⟨hfree, rfl⟩ := assign_eq_ok.mp hslot
      exact ⟨.output value, rfl, rfl, by rw [Slots.apply, if_pos hfree]⟩

/-- A setting that can be made is made by its option. -/
theorem takes_of_setting {x : Setting} (hknown : x.Known options)
    (happly : slots.apply x = some slots') :
    Takes (readArgument options command onHelp) slots x.spell slots' := by
  have hread : ∀ option ∈ x.name, readArgument options command onHelp slots option.text =
      readOption slots option :=
    fun option hoption => readArgument_option (hknown option hoption)
  cases x with
  | noColor =>
      cases happly
      exact .alone readArgument_noColor
  | force =>
      rw [Slots.apply, Option.ite_none_right_eq_some] at happly
      obtain ⟨hfree, happly⟩ := happly
      cases happly
      apply Takes.alone
      rw [show "--force" = OptionName.force.text from rfl, hread .force rfl, readOption,
        if_neg (Bool.eq_false_iff.mp hfree)]
  | format format =>
      rw [Slots.apply, Option.ite_none_right_eq_some] at happly
      obtain ⟨hfree, happly⟩ := happly
      cases happly
      have hvalued := hread .format rfl
      rw [readOption, if_neg (Option.not_isSome_iff_eq_none.mpr hfree)] at hvalued
      exact .valued hvalued (stop_eq_ok.mpr ⟨format, parseFormat_eq_ok.mpr rfl, rfl⟩)
  | lock path | pack path | profile path | output path =>
      rw [Slots.apply, Option.ite_none_right_eq_some] at happly
      obtain ⟨hfree, happly⟩ := happly
      cases happly
      exact .valued (hread _ rfl) (stop_eq_ok.mpr ⟨_, assign_eq_ok.mpr ⟨hfree, rfl⟩, rfl⟩)

/-- What an argument is: an option of the command, or one of the words of every loop, or an
error. -/
theorem readArgument_cases (argument : String) :
    (∃ option ∈ options, argument = option.text ∧
      readArgument options command onHelp slots argument = readOption slots option) ∨
    (argument = "--no-color" ∧
      readArgument options command onHelp slots argument = .alone (.ok slots)) ∨
    ((argument = "--help" ∨ argument = "-h") ∧
      readArgument options command onHelp slots argument = .leave onHelp) ∨
    readArgument options command onHelp slots argument = .alone (.error (.error
      ("unknown " ++ command ++ " option `" ++ argument ++ "`"))) := by
  unfold readArgument
  split
  · next option hfind =>
      have htext : option.text = argument := by simpa using List.find?_some hfind
      exact .inl ⟨option, List.mem_of_find?_eq_some hfind, htext.symm, rfl⟩
  · split
    · next hcolor => exact .inr (.inl ⟨hcolor, rfl⟩)
    · split
      · next hhelp => exact .inr (.inr (.inl ⟨hhelp, rfl⟩))
      · exact .inr (.inr (.inr rfl))

theorem readArgument_spells : Spells (readArgument options command onHelp) Setting.spell Slots.apply
    (Setting.Known options) := by
  constructor
  · intro slots x slots' hknown happly
    exact takes_of_setting hknown happly
  · intro slots used slots' htakes
    have hknown : ∀ {x : Setting} {option : OptionName}, option ∈ options →
        x.name = some option → x.Known options := by
      intro x option hoption hname o ho
      rw [hname, Option.mem_some_iff] at ho
      exact ho ▸ hoption
    cases htakes with
    | @alone argument _ h =>
        rcases @readArgument_cases options command onHelp slots argument with
          ⟨option, hoption, rfl, hread⟩ | ⟨rfl, hread⟩ | ⟨_, hread⟩ | hread
        · obtain ⟨rfl, happly⟩ := setting_of_alone (hread.symm.trans h)
          exact ⟨.force, hknown hoption rfl, rfl, happly⟩
        · rw [hread] at h
          cases h
          exact ⟨.noColor, by simp [Setting.Known, Setting.name], rfl, rfl⟩
        · rw [hread] at h
          cases h
        · rw [hread] at h
          cases h
    | @valued argument value missing next _ h hvalue =>
        rcases @readArgument_cases options command onHelp slots argument with
          ⟨option, hoption, rfl, hread⟩ | ⟨rfl, hread⟩ | ⟨_, hread⟩ | hread
        · obtain ⟨x, hname, hspell, happly⟩ := setting_of_valued (hread.symm.trans h) hvalue
          exact ⟨x, hknown hoption hname, hspell.symm, happly⟩
        · rw [hread] at h
          cases h
        · rw [hread] at h
          cases h
        · rw [hread] at h
          cases h

end

/-! ## Order of the options -/

theorem Slots.makes : fields.Makes Setting.make Slots.apply Setting.name where
  silent := by
    intro slots x hname
    cases x with
    | noColor => rfl
    | _ => cases hname
  made := by
    intro x option hname
    cases x with
    | noColor => cases hname
    | force =>
        cases hname
        exact ⟨(), rfl⟩
    | lock v | pack v | profile v | output v | format v =>
        cases hname
        exact ⟨v, rfl⟩
  name_make := by
    intro option value
    cases option <;> rfl
  make_injective := by
    intro option value value' h
    cases option <;> first | rfl | (cases h; rfl)
  fills := by
    intro slots option value hfree
    cases option with
    | force =>
        have hforce : slots.force = false := by
          cases h : slots.force with
          | true => simp [fields, get, h] at hfree
          | false => rfl
        exact if_pos hforce
    | lock | pack | profile | output | format => exact if_pos hfree
  once := by
    intro slots option value slots' h
    cases option with
    | force =>
        have hforce := (Option.ite_none_right_eq_some.mp h).1
        show (if slots.force then some () else none) = none
        rw [hforce]
        rfl
    | lock | pack | profile | output | format => exact (Option.ite_none_right_eq_some.mp h).1

theorem Slots.collects :
    Collects Slots.apply Slots.settings Setting.silent Setting.name :=
  Slots.makes.collects

/-- The commands know the settings whose options are among theirs. -/
theorem Slots.known_iff {slots : Slots} {options : List OptionName} :
    (∀ x ∈ slots.settings, x.Known options) ↔
      ∀ option, slots.get option = none ∨ option ∈ options := by
  constructor
  · intro h option
    by_cases hnone : slots.get option = none
    · exact .inl hnone
    · obtain ⟨value, hvalue⟩ := Option.ne_none_iff_exists'.mp hnone
      exact .inr (h _ (Slots.makes.mem_settings.mpr hvalue) option
        (Slots.makes.name_make option value))
  · intro h x hx option hname
    obtain ⟨option', value, rfl, hget⟩ := Fields.exists_of_mem hx
    rw [Slots.makes.name_make, Option.mem_some_iff] at hname
    subst hname
    rcases h option' with hnone | hmem
    · exact absurd (hget.symm.trans hnone) (by simp)
    · exact hmem

end Invokrum.Cli
