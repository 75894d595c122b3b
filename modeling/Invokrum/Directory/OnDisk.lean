import Invokrum.Base.Watching
import Invokrum.Directory.Loader

/-!
# Reading a declared file while others write

`read_declared_file` as a program over file-system calls. The directory may
change between any two of them.
-/

namespace Invokrum.Directory.OnDisk

open Programs Invokrum.Inodes Invokrum.Distribution
open Install (LocalCandidateError)
open Text (Bytes)

structure PinnedRoot where
  canonical : Place
  device : Nat
  inode : Nat

abbrev Reading : Type → Type := Fallible (Call Unit) Reply LocalCandidateError

def call (op : Op) (error : LocalCandidateError) : Reading op.Value :=
  Fallible.attempt (⟨(), op⟩ : Call Unit) fun _ => error

def throwIf (c : Prop) [Decidable c] (e : LocalCandidateError) : Reading Unit :=
  Fallible.throwIf c e

def PinnedRoot.revalidate (root : PinnedRoot) : Reading Unit := do
  let metadata ← call (.symlinkMetadata (absolute root.canonical)) .rootChanged
  throwIf (metadata.kind = .symlink ∨ metadata.kind ≠ .directory ∨ metadata.device ≠ root.device
    ∨ metadata.inode ≠ root.inode) .rootChanged

/-- The names in a bundle path. -/
def names (path : BundlePath) : List Name := (Text.split '/' path.text.toList).map Text.utf8

/-- The loop over the components below `current`. -/
def validateFrom (root : PinnedRoot) (relative : BundlePath) (current : Place) :
    List Name → Reading Unit
  | [] => pure ()
  | component :: rest => do
      let metadata ← call (.symlinkMetadata (absolute (current ++ [component])))
        (.missingDeclaredFile relative)
      throwIf (metadata.kind = .symlink) (.symbolicLink relative)
      throwIf (metadata.kind ≠ .directory) (.nonRegularFile relative)
      throwIf (metadata.device ≠ root.device) .deviceBoundary
      validateFrom root relative (current ++ [component]) rest

def validateComponents (root : PinnedRoot) (relative : BundlePath) : Reading Unit := do
  throwIf (maxDirectoryDepth + 1 < (names relative).length) .traversalLimitExceeded
  validateFrom root relative root.canonical (names relative).dropLast

def validateRegularMetadata (root : PinnedRoot) (relative : BundlePath) (metadata : Metadata)
    (maximumBytes : Nat) : Reading Unit := do
  throwIf (metadata.kind ≠ .file) (.nonRegularFile relative)
  throwIf (metadata.links ≠ 1) (.hardLinkedFile relative)
  throwIf (metadata.device ≠ root.device) .deviceBoundary
  throwIf (maximumBytes < metadata.length) (.fileTooLarge relative)

def validateOpenedTarget (root : PinnedRoot) (relative : BundlePath) (file : Nat) :
    Reading Unit := do
  let target : Place ← call (.descriptorPath file) .treeChanged
  throwIf (target ≠ root.canonical ++ names relative ∨ ¬ root.canonical <+: target)
    (.rootEscape relative)

/-- The file type is a part of the mode of the source. -/
def sameFileIdentity (left right : Metadata) : Bool :=
  left.device == right.device && left.inode == right.inode && left.mode == right.mode
    && left.kind == right.kind

def sameStableMetadata (left right : Metadata) : Bool :=
  sameFileIdentity left right && left.length == right.length && left.mtime == right.mtime
    && left.ctime == right.ctime && left.links == right.links

def readDeclaredFile (root : PinnedRoot) (relative : BundlePath) (maximumBytes : Nat) :
    Reading Bytes := do
  validateComponents root relative
  let path := absolute (root.canonical ++ names relative)
  let before ← call (.symlinkMetadata path) (.missingDeclaredFile relative)
  validateRegularMetadata root relative before maximumBytes
  let file : Nat ← call (.openFile path true) (.openFailed relative)
  let opened ← call (.descriptorMetadata file) .treeChanged
  throwIf (sameFileIdentity before opened = false) (.fileChanged relative)
  validateRegularMetadata root relative opened maximumBytes
  validateOpenedTarget root relative file
  let limit := saturatingSucc maximumBytes
  let bytes ← readToEnd () file (fun _ => .readFailed relative) limit 0 limit
  throwIf (maximumBytes < bytes.length) (.fileTooLarge relative)
  let after ← call (.descriptorMetadata file) .treeChanged
  throwIf (sameStableMetadata opened after = false ∨ after.length ≠ bytes.length)
    (.fileChanged relative)
  let pathAfter ← call (.symlinkMetadata path) (.fileChanged relative)
  throwIf (sameFileIdentity after pathAfter = false ∨ pathAfter.kind = .symlink)
    (.fileChanged relative)
  root.revalidate
  pure bytes

/-! ## What a read has seen -/

section

variable {proc : Process} {faulty : Call Unit → IoError → Prop} {root : PinnedRoot}
  {relative : BundlePath} {maximumBytes : Nat} {d d' : Disk} {place : Place}
  {past past' : List (Moment Disk (Call Unit) Reply)} {u : Unit}

theorem observes_validateFrom {rest : List Name} {current : Place}
    (h : Observes (fun _ => Meddles place) (Performs proc faulty)
      (validateFrom root relative current rest) d past u d' past') :
    ∃ more, past' = past ++ more ∧ ∀ m ∈ more, NoRead m := by
  induction rest generalizing current d past with
  | nil =>
      obtain ⟨_, _, rfl⟩ := h.pure
      exact ⟨[], (List.append_nil _).symm, by simp⟩
  | cons component rest ih =>
      obtain ⟨metadata, d₁, _, _, h⟩ := observes_call rfl h
      obtain ⟨_, h⟩ := h.bindThrowIf
      obtain ⟨_, h⟩ := h.bindThrowIf
      obtain ⟨_, h⟩ := h.bindThrowIf
      obtain ⟨more, rfl, hmore⟩ := ih h
      refine ⟨_ :: more, List.append_assoc _ _ _, ?_⟩
      intro m hm
      rcases List.mem_cons.mp hm with rfl | hm
      · exact fun _ _ _ => nofun
      · exact hmore m hm

theorem observes_validateComponents
    (h : Observes (fun _ => Meddles place) (Performs proc faulty)
      (validateComponents root relative) d past u d' past') :
    ∃ more, past' = past ++ more ∧ ∀ m ∈ more, NoRead m := by
  obtain ⟨_, h⟩ := h.bindThrowIf
  exact observes_validateFrom h

theorem observes_validateRegularMetadata {metadata : Metadata}
    (h : Observes (fun _ => Meddles place) (Performs proc faulty)
      (validateRegularMetadata root relative metadata maximumBytes) d past u d' past') :
    metadata.kind = .file ∧ metadata.links = 1 ∧ metadata.device = root.device ∧
      metadata.length ≤ maximumBytes ∧ d' = d ∧ past' = past := by
  obtain ⟨hkind, h⟩ := h.bindThrowIf
  obtain ⟨hlinks, h⟩ := h.bindThrowIf
  obtain ⟨hdevice, h⟩ := h.bindThrowIf
  obtain ⟨hlength, rfl, rfl⟩ := h.throwIf
  exact ⟨not_not.mp hkind, not_not.mp hlinks, not_not.mp hdevice, Nat.not_lt.mp hlength, rfl, rfl⟩

/-- The descriptor stands exactly at the declared path. -/
theorem observes_validateOpenedTarget {file : Nat}
    (h : Observes (fun _ => Meddles place) (Performs proc faulty)
      (validateOpenedTarget root relative file) d past u d' past') :
    Meddles place d d' ∧ d'.entry (root.canonical ++ names relative) = some file ∧
      past' = past ++ [momentOf () d' (.descriptorPath file) (root.canonical ++ names relative)] := by
  obtain ⟨(target : Place), d₁, hmeddles, hanswer, h⟩ := observes_call rfl h
  obtain ⟨htarget, rfl, rfl⟩ := h.throwIf
  rw [not_or, not_not] at htarget
  obtain ⟨rfl, _⟩ := htarget
  refine ⟨hmeddles, ?_, rfl⟩
  rcases hanswer.2 with ⟨p, hp, hsame⟩ | ⟨_, herror⟩
  · cases hsame
    exact hp
  · cases herror

/-- A file with a single link, on the device of the root and within the limit. -/
structure Intact (root : PinnedRoot) (maximumBytes : Nat) (bytes : Bytes) (file : Nat)
    (d : Disk) : Prop where
  content : (d.inode file).content = .file bytes
  links : (d.inode file).links = 1
  device : (d.inode file).device = root.device
  limit : bytes.length ≤ maximumBytes

/-- The moments of a read: what comes before the first read of the file, the reads, and what
comes after the last. -/
structure Stably (root : PinnedRoot) (relative : BundlePath) (maximumBytes : Nat) (bytes : Bytes)
    (file : Nat) (before reads after : List (Moment Disk (Call Unit) Reply)) : Prop where
  outside : ∀ m ∈ before ++ after, NoRead m
  opened : ∃ d, momentOf () d (.openFile (absolute (root.canonical ++ names relative)) true) file ∈
    before
  placed : ∃ d, momentOf () d (.descriptorPath file) (root.canonical ++ names relative) ∈ before ∧
    d.entry (root.canonical ++ names relative) = some file
  first : ∃ d, momentOf () d (.descriptorMetadata file) (d.stat file) ∈ before ∧
    Intact root maximumBytes bytes file d
  whole : ∀ m ∈ reads, (∃ offset count, m.event.call.op = .read file offset count) ∧
    (m.state.inode file).content = .file bytes
  last : ∃ d, momentOf () d (.descriptorMetadata file) (d.stat file) ∈ after ∧
    Intact root maximumBytes bytes file d

theorem sameStableMetadata_iff {left right : Metadata} :
    sameStableMetadata left right = true ↔
      (left.device = right.device ∧ left.inode = right.inode ∧ left.mode = right.mode ∧
        left.kind = right.kind) ∧ left.length = right.length ∧ left.mtime = right.mtime ∧
        left.ctime = right.ctime ∧ left.links = right.links := by
  simp [sameStableMetadata, sameFileIdentity, and_assoc]

/-- Whatever others do meanwhile, the bytes of a read are the content of one file as it stood at
the declared path. -/
theorem readDeclaredFile_stable {bytes : Bytes}
    {moments : List (Moment Disk (Call Unit) Reply)}
    (h : Observes (fun _ => Meddles root.canonical) (Performs proc faulty)
      (readDeclaredFile root relative maximumBytes) d [] bytes d' moments) :
    ∃ file before reads after, moments = before ++ reads ++ after ∧
      Stably root relative maximumBytes bytes file before reads after := by
  obtain ⟨_, d₁, more, hcomponents, h⟩ := h.bind
  obtain ⟨_, rfl, hmore⟩ := observes_validateComponents hcomponents
  obtain ⟨before, d₂, _, _, h⟩ := observes_call rfl h
  obtain ⟨_, d₃, _, hbefore, h⟩ := h.bind
  obtain ⟨_, _, _, _, rfl, rfl⟩ := observes_validateRegularMetadata hbefore
  obtain ⟨(file : Nat), d₄, _, hopen, h⟩ := observes_call rfl h
  have hfile : file < d₄.next := Disk.openFile_lt hopen.2.symm
  obtain ⟨opened, d₅, hmeddles₆, hopened, h⟩ := observes_call rfl h
  obtain rfl := Except.ok.inj hopened.2
  obtain ⟨_, h⟩ := h.bindThrowIf
  obtain ⟨_, d₆, _, hregular, h⟩ := h.bind
  obtain ⟨hkind, hlinks, hdevice, hlength, rfl, rfl⟩ := observes_validateRegularMetadata hregular
  obtain ⟨_, d₇, _, htarget, h⟩ := h.bind
  obtain ⟨hmeddles₇, hplaced, rfl⟩ := observes_validateOpenedTarget htarget
  obtain ⟨bytes', d₈, _, hread, h⟩ := h.bind
  have hfile₆ := Nat.lt_of_lt_of_le hfile (hmeddles₆.ages hfile).1
  have hfile₇ := Nat.lt_of_lt_of_le hfile₆ (hmeddles₇.ages hfile₆).1
  obtain ⟨reads, rfl, hthrough⟩ := observes_readToEnd (fun _ _ _ h => h) hfile₇
    (Nat.le_refl _) hread
  obtain ⟨hlimit, h⟩ := h.bindThrowIf
  obtain ⟨after, d₉, hmeddles₉, hafter, h⟩ := observes_call rfl h
  obtain rfl := Except.ok.inj hafter.2
  obtain ⟨hstable, h⟩ := h.bindThrowIf
  obtain ⟨pathAfter, d₁₀, _, _, h⟩ := observes_call rfl h
  obtain ⟨_, h⟩ := h.bindThrowIf
  obtain ⟨_, d₁₁, _, hrevalidate, h⟩ := h.bind
  obtain ⟨rfl, rfl, rfl⟩ := h.pure
  obtain ⟨root', d₁₂, _, _, hrevalidate⟩ := observes_call rfl hrevalidate
  obtain ⟨_, rfl, rfl⟩ := hrevalidate.throwIf
  rw [not_or, Bool.not_eq_false, sameStableMetadata_iff, not_not] at hstable
  obtain ⟨⟨⟨hsameDevice, _, _, hsameKind⟩, hsameLength, _, hsameTime, hsameLinks⟩, hwhole⟩ :=
    hstable
  -- No time passes for the inode between the two looks at it.
  have hto₇ := (hmeddles₇.ages hfile₆).2
  have hfrom₈ := (hmeddles₉.ages (Nat.lt_of_lt_of_le hfile₇ hthrough.next)).2
  have hrest := hthrough.ages.trans hfrom₈
  have htime₇ := hto₇.between hrest hsameTime.symm
  have htime₈ := (hto₇.trans hthrough.ages).between hfrom₈ hsameTime.symm
  have hcontent₇ := hto₇.content htime₇
  have hwholeFile : (d₆.inode file).content = .file bytes' := by
    have htaken := hthrough.bytes (htime₈.trans htime₇.symm)
    rw [hcontent₇, List.drop_zero] at htaken
    have hall : bytes' = (d₆.inode file).content.bytes := by
      rw [htaken]
      apply (List.take_prefix _ _).eq_of_length
      rw [← htaken]
      exact (hsameLength.trans hwhole).symm
    rw [hall]
    exact Content.eq_file hkind
  have hcontent₉ : (d₉.inode file).content = .file bytes' := by
    rw [(hto₇.trans hrest).content hsameTime.symm, hwholeFile]
  have hshort : bytes'.length ≤ maximumBytes := Nat.not_lt.mp hlimit
  refine ⟨file, more ++ [momentOf () d₃ (.symlinkMetadata _) before,
      momentOf () d₄ (.openFile (absolute (root.canonical ++ names relative)) true) file,
      momentOf () d₆ (.descriptorMetadata file) (d₆.stat file),
      momentOf () d₇ (.descriptorPath file) (root.canonical ++ names relative)], reads,
    [momentOf () d₉ (.descriptorMetadata file) (d₉.stat file),
      momentOf () d₁₀ (.symlinkMetadata _) pathAfter,
      momentOf () d' (.symlinkMetadata _) root'], by simp, ?_, ⟨d₄, by simp⟩,
    ⟨d₇, by simp, hplaced⟩, ⟨d₆, by simp, hwholeFile, hlinks, hdevice, hshort⟩, ?_,
    ⟨d₉, by simp, hcontent₉, hsameLinks.symm.trans hlinks, hsameDevice.symm.trans hdevice, hshort⟩⟩
  · intro m hm
    simp only [List.append_assoc, List.mem_append, List.mem_cons, List.not_mem_nil, or_false]
      at hm
    rcases hm with hm | (rfl | rfl | rfl | rfl) | rfl | rfl | rfl
    · exact hmore m hm
    all_goals exact fun _ _ _ => nofun
  · intro m hm
    obtain ⟨hop, hto, hfrom⟩ := hthrough.reads m hm
    refine ⟨hop, ?_⟩
    have htime := (hto₇.trans hto).between (hfrom.trans hfrom₈) hsameTime.symm
    rw [(hto₇.trans hto).content htime, hwholeFile]

end

/-! ## A read beside a writer -/

def sampleEntries : List (Place × Inode) :=
  [([], ⟨.directory, 0, 0o755, 2, 0, 0⟩),
    ([Text.bytes "a"], ⟨.file (Text.bytes "data"), 0, 0o644, 1, 0, 0⟩),
    ([Text.bytes "b"], ⟨.file [], 0, 0o644, 1, 0, 0⟩)]

theorem sampleEntries_rooted : Rooted sampleEntries := by decide

def sampleDisk : Disk := .ofList sampleEntries sampleEntries_rooted

theorem samplePath_valid : bundlePathValid "a" = true := by decide

def samplePath : BundlePath := ⟨"a", samplePath_valid⟩

def sampleProcess : Process := ⟨[], 0⟩

def sampleRoot : PinnedRoot := ⟨[], 0, 0⟩

/-- The other process writes to `b`. -/
def writeBeside (past : List (Moment Disk (Call Unit) Reply)) (d : Disk) : Disk :=
  if past.length = 3 then d.rewrite 2 (· ++ [1]) else d

theorem writeBeside_meddles (past : List (Moment Disk (Call Unit) Reply)) (d : Disk) :
    Meddles sampleRoot.canonical d (writeBeside past d) := by
  unfold writeBeside
  split
  · exact .single (.write 2 _)
  · exact .refl

theorem sampleRead_played :
    (play (interfere writeBeside fun d c => d.answer sampleProcess [Text.bytes "a"] c.op)
      (sampleDisk, []) [] (readDeclaredFile sampleRoot samplePath 10).run).map (·.1) =
      some (.ok (Text.bytes "data")) := by
  decide

theorem readDeclaredFile_stable_sample :
    ∃ file before reads after,
      Stably sampleRoot samplePath 10 (Text.bytes "data") file before reads after := by
  obtain ⟨⟨result, ⟨d, moments⟩, t⟩, hplay, rfl⟩ := Option.map_eq_some_iff.mp sampleRead_played
  have hobserves : Observes (fun _ => Meddles sampleRoot.canonical) (Performs sampleProcess fun _ _ => False)
      (readDeclaredFile sampleRoot samplePath 10) sampleDisk [] (Text.bytes "data") d moments :=
    observes_of_play writeBeside_meddles (fun d c r d' h => .inl (Disk.answers_answer h)) hplay
  obtain ⟨file, before, reads, after, _, hstably⟩ := readDeclaredFile_stable hobserves
  exact ⟨file, before, reads, after, hstably⟩

end Invokrum.Directory.OnDisk
