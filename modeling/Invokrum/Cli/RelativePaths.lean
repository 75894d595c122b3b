import Invokrum.Base.Equality
import Invokrum.Cli.OutputRuns
import Invokrum.Fs.PackSource
import Invokrum.Integrity.Lockfile

/-!
# Relative paths and their spelling

Reading and writing through a relative path, and through the same path behind
`./`. The parent of a single name is the empty path, which names nothing, so
the two spellings differ exactly there.
-/

namespace Invokrum.Cli

open Programs Invokrum.Inodes
open Invokrum.Core (PackRelativePath SourceFailure)
open Fs (LocalPackSource LocalPackSourceError openRoot loadSource)
open Text (Bytes)

/-! ## Reading -/

/-- Why an input is refused; `read_local` and `load_pack` tell it in their own words. -/
inductive InputError (ρ : Type) where
  | fileName
  | portablePath
  | root (error : LocalPackSourceError)
  | source (failure : SourceFailure)
  | utf8
  | document (error : ρ)

variable {ρ : Type}

abbrev Input (ρ : Type) : Type → Type := Fallible (Call Unit) Reply (InputError ρ)

def inputFileName (path : PathBuf) : Except (InputError ρ) String :=
  match (pathFileName path).bind Text.fromUtf8 with
  | some name => .ok name
  | none => .error .fileName

def readLocal (path : PathBuf) (maximumBytes : Nat) : Input ρ (LocalPackSource × Bytes) := do
  let parent := (pathParent path).getD [.curDir]
  let fileName ← Fallible.ofExcept (inputFileName path)
  let relative ← Fallible.ofExcept ((PackRelativePath.parse fileName).mapError fun _ =>
    .portablePath)
  let source ← Fallible.withError .root (openRoot parent)
  let bytes ← Fallible.withError .source (loadSource source relative maximumBytes)
  pure (source, bytes)

def maxPackBytes : Nat := 1048576

/-- The extension of a file name: what follows its last dot, if something stands before it. -/
def extensionOf (name : Name) : Name :=
  match (name.reverse.span (· ≠ 46)) with
  | (after, _ :: _ :: _) => after.reverse
  | _ => []

/-- `path.extension().and_then(to_str).unwrap_or_default().to_ascii_lowercase()` -/
def pathExtension (path : PathBuf) : String :=
  match ((pathFileName path).map extensionOf).bind Text.fromUtf8 with
  | some extension => extension.map Char.toLower
  | none => ""

/-- `parseDocument` is the choice of a parser by the extension with this parser. -/
def loadPack {π : Type} (parseDocument : String → String → Except ρ π) (path : PathBuf) :
    Input ρ (π × LocalPackSource) := do
  let (source, bytes) ← readLocal path maxPackBytes
  let text ← Fallible.ofExcept (match Text.fromUtf8 bytes with
    | some text => .ok text
    | none => .error .utf8)
  let pack ← Fallible.ofExcept ((parseDocument (pathExtension path) text).mapError .document)
  pure (pack, source)

/-! ## Spellings -/

/-- A relative path of normal components. -/
def plainPath (names : List Name) : PathBuf := names.map .normal

/-- The same behind `./`. -/
def dottedPath (names : List Name) : PathBuf := .curDir :: plainPath names

/-- The calls as the file system answers them. -/
abbrev answered (proc : Process) {T : Type} (d : Disk) (c : Call T) (r : Reply c) (d' : Disk) :
    Prop :=
  Answers proc d c.op r d'

section

variable {proc : Process} {d : Disk} {names : List Name} {T ε : Type} {site : T}
  {wrap : IoError → ε} {path path' : PathBuf}

/-- A leading `.` changes nothing in front of a name. -/
theorem lookup_dotted (follow : Bool) (hne : names ≠ []) :
    d.lookup proc.cwd follow (dottedPath names) = d.lookup proc.cwd follow (plainPath names) := by
  cases names with
  | nil => exact absurd rfl hne
  | cons name names =>
      obtain ⟨link, hlink⟩ := Disk.resolve_eq_walk d follow Disk.maxLinks
      have hhead : (dottedPath (name :: names)).head? ≠ some .rootDir := by simp [dottedPath]
      have hhead' : (plainPath (name :: names)).head? ≠ some .rootDir := by simp [plainPath]
      have hpath : dottedPath (name :: names) ≠ [] := by simp [dottedPath]
      have hpath' : plainPath (name :: names) ≠ [] := by simp [plainPath]
      rw [Disk.lookup, Disk.lookup, if_neg hpath, if_neg hpath', hlink, hlink]
      simp only [hhead, hhead', false_or]
      rw [dottedPath, Disk.walk]

theorem same_symlinkMetadata
    (h : d.lookup proc.cwd false path = d.lookup proc.cwd false path') :
    @Same (Call T) Reply Disk Metadata ε (answered proc) d
      (Fallible.attempt (⟨site, .symlinkMetadata path⟩ : Call T) wrap)
      (Fallible.attempt (⟨site, .symlinkMetadata path'⟩ : Call T) wrap) := by
  have hanswer : ∀ r d', Answers proc d (.symlinkMetadata path) r d' ↔
      Answers proc d (.symlinkMetadata path') r d' := by
    intro r d'
    have hinode : d.inodeAt proc.cwd false path = d.inodeAt proc.cwd false path' := by
      rw [Disk.inodeAt, Disk.inodeAt, h]
    show d' = d ∧ r = (d.inodeAt proc.cwd false path).map d.stat ↔ _
    rw [hinode]
    rfl
  intro result d'
  exact exists_congr fun r => exists_congr fun d₁ => and_congr_left fun _ => hanswer r d₁

theorem same_canonicalize
    (h : d.lookup proc.cwd true path = d.lookup proc.cwd true path') :
    @Same (Call T) Reply Disk Place ε (answered proc) d
      (Fallible.attempt (⟨site, .canonicalize path⟩ : Call T) wrap)
      (Fallible.attempt (⟨site, .canonicalize path'⟩ : Call T) wrap) := by
  have hanswer : ∀ r d', Answers proc d (.canonicalize path) r d' ↔
      Answers proc d (.canonicalize path') r d' := by
    intro r d'
    show d' = d ∧ r = d.lookup proc.cwd true path ↔ _
    rw [h]
    rfl
  intro result d'
  exact exists_congr fun r => exists_congr fun d₁ => and_congr_left fun _ => hanswer r d₁

end

/-! ## Several components -/

section

variable {proc : Process} {d : Disk} {names : List Name}

theorem getLast?_plainPath (front : List Name) (last : Name) :
    (plainPath (front ++ [last])).getLast? = some (.normal last) := by
  simp [plainPath]

theorem getLast?_dottedPath (front : List Name) (last : Name) :
    (dottedPath (front ++ [last])).getLast? = some (.normal last) := by
  simp [dottedPath, plainPath, List.getLast?_cons]

theorem pathParent_plainPath (front : List Name) (last : Name) :
    pathParent (plainPath (front ++ [last])) = some (plainPath front) := by
  rw [pathParent, getLast?_plainPath]
  simp [plainPath]

theorem pathParent_dottedPath (front : List Name) (last : Name) :
    pathParent (dottedPath (front ++ [last])) = some (dottedPath front) := by
  rw [pathParent, getLast?_dottedPath, dottedPath, List.dropLast_cons_of_ne_nil (by simp [plainPath])]
  simp [dottedPath, plainPath]

theorem pathFileName_plainPath (front : List Name) (last : Name) :
    pathFileName (plainPath (front ++ [last])) = some last := by
  rw [pathFileName, getLast?_plainPath]

theorem pathFileName_dottedPath (front : List Name) (last : Name) :
    pathFileName (dottedPath (front ++ [last])) = some last := by
  rw [pathFileName, getLast?_dottedPath]

theorem same_openRoot (hne : names ≠ []) :
    Same (answered proc) d (openRoot (plainPath names)) (openRoot (dottedPath names)) := by
  apply Same.bind (same_symlinkMetadata (lookup_dotted false hne).symm)
  intro lexical d₁ _
  apply Same.bind (.refl _)
  intro _ d₂ _
  apply Same.bind (.refl _)
  intro _ d₃ _
  exact Same.bind (same_canonicalize (lookup_dotted true hne).symm) fun _ _ _ => .refl _

theorem same_readLocal {front : List Name} (last : Name) (hne : front ≠ []) (maximumBytes : Nat) :
    Same (answered proc) d (readLocal (ρ := ρ) (plainPath (front ++ [last])) maximumBytes)
      (readLocal (dottedPath (front ++ [last])) maximumBytes) := by
  have hname : inputFileName (ρ := ρ) (plainPath (front ++ [last])) =
      inputFileName (dottedPath (front ++ [last])) := by
    rw [inputFileName, inputFileName, pathFileName_plainPath, pathFileName_dottedPath]
  unfold readLocal
  rw [hname, pathParent_plainPath, pathParent_dottedPath]
  apply Same.bind (.refl _)
  intro fileName d₁ _
  apply Same.bind (.refl _)
  intro relative d₂ _
  exact Same.bind (same_openRoot hne).withError fun _ _ _ => .refl _

theorem same_loadPack {π : Type} (parseDocument : String → String → Except ρ π) {front : List Name}
    (last : Name) (hne : front ≠ []) :
    Same (answered proc) d (loadPack parseDocument (plainPath (front ++ [last])))
      (loadPack parseDocument (dottedPath (front ++ [last]))) := by
  have hextension : pathExtension (plainPath (front ++ [last])) =
      pathExtension (dottedPath (front ++ [last])) := by
    rw [pathExtension, pathExtension, pathFileName_plainPath, pathFileName_dottedPath]
  unfold loadPack
  rw [hextension]
  exact Same.bind (same_readLocal last hne maxPackBytes) fun _ _ _ => .refl _

theorem rejectParentLinks_dottedPath (front : List Name) :
    rejectParentLinks (dottedPath front) = rejectParentLinks (plainPath front) := by
  have hhead : (dottedPath front).head? ≠ some .rootDir := by simp [dottedPath]
  have hhead' : (plainPath front).head? ≠ some .rootDir := by
    cases front <;> simp [plainPath]
  rw [rejectParentLinks, rejectParentLinks, if_neg hhead, if_neg hhead']
  rfl

theorem same_writeAtomic {front : List Name} (last : Name) (hne : front ≠ []) (pid sequence : Nat)
    (bytes : Bytes) (force : Bool) :
    Same (answered proc) d
      (writeAtomic pid sequence (plainPath (front ++ [last])) bytes force)
      (writeAtomic pid sequence (dottedPath (front ++ [last])) bytes force) := by
  have hname : validatedFileName (plainPath (front ++ [last])) =
      validatedFileName (dottedPath (front ++ [last])) := by
    rw [validatedFileName, validatedFileName, pathFileName_plainPath, pathFileName_dottedPath]
  unfold writeAtomic writePlatform
  rw [hname, pathParent_plainPath, pathParent_dottedPath]
  apply Same.bind (.refl _)
  intro fileName d₁ _
  show Same _ _ (rejectParentLinks (plainPath front) >>= _)
    (rejectParentLinks (dottedPath front) >>= _)
  rw [rejectParentLinks_dottedPath]
  apply Same.bind (.refl _)
  intro _ d₂ _
  exact Same.bind (same_canonicalize (lookup_dotted true hne).symm) fun _ _ _ => .refl _

/-! ## One component -/

/-- A file name of UTF-8 text. -/
def Named (name : Name) : Prop := (Text.fromUtf8 name).isSome ∧ name ≠ []

/-- Reading and writing do not tell a relative path from the same path behind `./`. -/
structure SpelledAlike (names : List Name) : Prop where
  readLocal : ∀ (ρ : Type) proc d maximumBytes, Same (answered proc) d
    (readLocal (ρ := ρ) (plainPath names) maximumBytes) (readLocal (dottedPath names) maximumBytes)
  loadPack : ∀ (ρ π : Type) (parseDocument : String → String → Except ρ π) proc d,
    Same (answered proc) d (loadPack parseDocument (plainPath names))
      (loadPack parseDocument (dottedPath names))
  writeAtomic : ∀ pid sequence bytes force proc d, Same (answered proc) d
    (writeAtomic pid sequence (plainPath names) bytes force)
    (writeAtomic pid sequence (dottedPath names) bytes force)

theorem spelledAlike_of_several {front : List Name} (last : Name) (hne : front ≠ []) :
    SpelledAlike (front ++ [last]) where
  readLocal _ _ _ maximumBytes := same_readLocal last hne maximumBytes
  loadPack _ _ parseDocument _ _ := same_loadPack parseDocument last hne
  writeAtomic pid sequence bytes force _ _ := same_writeAtomic last hne pid sequence bytes force

/-- A name that `read_local` goes on with. -/
theorem named_of_parsed {path : PathBuf} {last : Name} {fileName : String}
    {relative : PackRelativePath} (hpath : pathFileName path = some last)
    (hfile : inputFileName (ρ := ρ) path = .ok fileName)
    (hrelative : PackRelativePath.parse fileName = .ok relative) : Named last := by
  have hutf8 : Text.fromUtf8 last = some fileName := by
    rw [inputFileName, hpath, Option.bind_some] at hfile
    split at hfile
    · next name hname =>
        cases hfile
        exact hname
    · cases hfile
  refine ⟨by rw [hutf8]; rfl, ?_⟩
  rintro rfl
  have hempty : fileName = "" := by
    have hbytes := Text.fromUtf8_eq_some.mp hutf8
    exact Text.bytes_injective hbytes
  rw [hempty] at hrelative
  cases hrelative

/-- A name that is refused is refused in both spellings. -/
theorem spelledAlike_of_refused (front : List Name) {last : Name} (h : ¬ Named last) :
    SpelledAlike (front ++ [last]) := by
  have hread : ∀ (ρ : Type) proc d maximumBytes, Same (answered proc) d
      (readLocal (ρ := ρ) (plainPath (front ++ [last])) maximumBytes)
      (readLocal (dottedPath (front ++ [last])) maximumBytes) := by
    intro ρ proc d maximumBytes
    have hname : inputFileName (ρ := ρ) (plainPath (front ++ [last])) =
        inputFileName (dottedPath (front ++ [last])) := by
      rw [inputFileName, inputFileName, pathFileName_plainPath, pathFileName_dottedPath]
    unfold readLocal
    rw [hname]
    apply Same.bind (.refl _)
    intro fileName d₁ hfile
    apply Same.bind (.refl _)
    intro relative d₂ hrelative
    have hparsed : PackRelativePath.parse fileName = .ok relative := by
      have hmapped := hrelative.of_ofExcept
      cases hparse : PackRelativePath.parse fileName with
      | ok path =>
          rw [hparse] at hmapped
          cases hmapped
          rfl
      | error e =>
          rw [hparse] at hmapped
          cases hmapped
    exact absurd (named_of_parsed (pathFileName_dottedPath front last) hfile.of_ofExcept hparsed) h
  refine ⟨hread, ?_, ?_⟩
  · intro ρ π parseDocument proc d
    have hextension : pathExtension (plainPath (front ++ [last])) =
        pathExtension (dottedPath (front ++ [last])) := by
      rw [pathExtension, pathExtension, pathFileName_plainPath, pathFileName_dottedPath]
    unfold loadPack
    rw [hextension]
    exact Same.bind (hread ρ proc d maxPackBytes) fun _ _ _ => .refl _
  · intro pid sequence bytes force proc d
    have hrefused : ∀ path, pathFileName path = some last →
        validatedFileName path = .error .invalidPath := by
      intro path hpath
      rw [validatedFileName, hpath]
      exact if_neg h
    unfold writeAtomic writePlatform
    rw [hrefused _ (pathFileName_plainPath front last),
      hrefused _ (pathFileName_dottedPath front last)]
    exact Same.bind (.refl _) fun _ _ hfile => nomatch hfile.of_ofExcept

/-- A directory in the root directory. -/
def namedEntries (name : Name) : List (Place × Inode) := [([], rootInode), ([name], rootInode)]

theorem namedEntries_rooted (name : Name) : Rooted (namedEntries name) := by
  intro e he
  simp only [namedEntries, List.mem_cons, List.not_mem_nil, or_false] at he
  rcases he with rfl | rfl
  · exact .inl rfl
  · exact .inr rfl

def namedDisk (name : Name) : Disk := .ofList (namedEntries name) (namedEntries_rooted name)

theorem namedDisk_root (name : Name) :
    (namedDisk name).entry [] = some 0 ∧ (namedDisk name).IsDirectory [] := by
  have hentry : (namedDisk name).entry [] = some 0 := rfl
  exact ⟨hentry, 0, hentry, rfl⟩

theorem namedDisk_name (name : Name) : (namedDisk name).entry ([] ++ [name]) = some 1 := by
  show entryOf (namedEntries name) [name] = some 1
  simp [entryOf, namedEntries, List.findIdx?_cons]

theorem validatedFileName_named {path : PathBuf} {last : Name} (hpath : pathFileName path = some last)
    (h : Named last) : validatedFileName path = .ok last := by
  rw [validatedFileName, hpath]
  exact if_pos h

/-- Behind `./` the directory at the target is found. -/
theorem runs_dotted {last : Name} (h : Named last) (pid sequence : Nat) (bytes : Bytes)
    (force : Bool) :
    ∃ d', Runs (answered rootProcess) (.error .targetNotRegular) d' (namedDisk last)
      (writeAtomic pid sequence (dottedPath [last]) bytes force).run := by
  obtain ⟨hroot, hdir⟩ := namedDisk_root last
  have hvalid : Yields (Performs rootProcess neverFails) (.ok last) (namedDisk last) []
      (namedDisk last) [] (Fallible.ofExcept (validatedFileName (dottedPath [last])) :
        Output Name).run := ⟨validatedFileName_named rfl h, rfl, rfl⟩
  have hplain : Plain (namedDisk last) (startOf rootProcess.cwd [.curDir]) [.curDir] := trivial
  obtain ⟨t₁, hreject⟩ : ∃ t₁, Yields (Performs rootProcess neverFails) (.ok ())
      (namedDisk last) t₁ (namedDisk last) [] (rejectParentLinks [.curDir]).run :=
    yields_rejectParentLinks rootProcess neverFails (.inr hdir) hplain []
  have hlookup : (namedDisk last).lookup rootProcess.cwd true [.curDir] = .ok [] := by
    obtain ⟨link, hlink⟩ := Disk.resolve_eq_walk (namedDisk last) true Disk.maxLinks
    rw [Disk.lookup, if_neg (List.cons_ne_nil _ _), if_pos (.inr hdir), hlink, Disk.walk]
    exact Disk.walk_nil hdir.entry_ne_none
  have hcanonical : Answers rootProcess (namedDisk last) (.canonicalize [.curDir]) (.ok [])
      (namedDisk last) := ⟨rfl, hlookup.symm⟩
  obtain ⟨t', hcheck⟩ : ∃ t', Yields (Performs rootProcess neverFails) (.error .targetNotRegular)
      (namedDisk last) t' (namedDisk last) (t₁ ++ [⟨⟨.prepare, .canonicalize [.curDir]⟩, .ok []⟩] ++
        [⟨⟨.prepare, .symlinkMetadata (absolute [])⟩, .ok ((namedDisk last).stat 0)⟩])
      (checkTarget .prepare ([] ++ [last]) force).run :=
    ⟨_, yields_request (answers_symlinkMetadata (namedDisk_name last)) ⟨rfl, rfl, rfl⟩⟩
  have hrun : Yields (Performs rootProcess neverFails) (.error .targetNotRegular)
      (namedDisk last) t' (namedDisk last) []
      (writeAtomic pid sequence (dottedPath [last]) bytes force).run := by
    apply hvalid.bind
    apply Yields.bind hreject
    apply yields_call hcanonical
    apply Yields.bind (yields_pinParent rootProcess neverFails hroot rfl _)
    exact Yields.bind_error hcheck
  refine ⟨_, hrun.runs ?_⟩
  intro d c r d' hcall
  exact hcall.resolve_right fun hfault => hfault.elim fun _ h => h.1

/-- Without it the empty parent path is not found. -/
theorem not_runs_plain {last : Name} (h : Named last) {pid sequence : Nat} {bytes : Bytes}
    {force : Bool} {proc : Process} {d d' : Disk} :
    ¬ Runs (answered proc) (.error .targetNotRegular) d' d
      (writeAtomic pid sequence (plainPath [last]) bytes force).run := by
  intro hrun
  unfold writeAtomic writePlatform at hrun
  rw [validatedFileName_named rfl h] at hrun
  obtain ⟨r, d₁, _, hrun⟩ := hrun
  cases r with
  | error e => cases hrun.1
  | ok current =>
      obtain ⟨r, d₂, ⟨_, hlookup⟩, hrun⟩ := hrun
      obtain rfl : r = .error .notFound := hlookup
      cases hrun.1

theorem not_spelledAlike {last : Name} (h : Named last) : ¬ SpelledAlike [last] := by
  intro halike
  obtain ⟨d', hrun⟩ := runs_dotted h 0 0 [] false
  exact not_runs_plain h ((halike.writeAtomic 0 0 [] false rootProcess _ _ _).mpr hrun)

/-- The two spellings agree exactly on paths of several components, and where the file name is
refused anyway. -/
theorem spelledAlike_iff (front : List Name) (last : Name) :
    SpelledAlike (front ++ [last]) ↔ front ≠ [] ∨ ¬ Named last := by
  constructor
  · intro halike
    by_contra hnot
    rw [not_or, not_not, not_not] at hnot
    obtain ⟨rfl, hnamed⟩ := hnot
    exact not_spelledAlike hnamed halike
  · rintro (hne | hrefused)
    · exact spelledAlike_of_several last hne
    · exact spelledAlike_of_refused front hrefused

/-- `lock.json` is not `./lock.json`. -/
theorem not_spelledAlike_lock : ¬ SpelledAlike [Text.bytes "lock.json"] :=
  not_spelledAlike ⟨by decide, by decide⟩

end

end Invokrum.Cli
