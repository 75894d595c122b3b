import Invokrum.Fs.PackSource

/-!
# Sources and symbolic links

While no component of a source that has been checked turns into a symbolic
link, a loaded source was opened at its declared place. Another process that
replaces a checked directory by a link gets another file read.
-/

namespace Invokrum.Fs

open Programs Invokrum.Inodes
open Invokrum.Core (PackRelativePath SourceFailure SourceFailureKind)
open Text (Bytes)

/-! ## Other processes -/

/-- The source has not been opened yet. -/
def Unopened (past : List (Moment Disk (Call Unit) Reply)) : Prop :=
  ∀ m ∈ past, ∀ path noFollow, m.event.call.op ≠ .openFile path noFollow

/-- The walk over the components has looked at this place. -/
def LookedAt (past : List (Moment Disk (Call Unit) Reply)) (p : Place) : Prop :=
  ∃ m ∈ past, m.event.call.op = .symlinkMetadata (absolute p)

/-- No component behind the walk turns into a symbolic link. -/
def KeepsComponents (root : Place) (components : List Name)
    (past : List (Moment Disk (Call Unit) Reply)) (d d' : Disk) : Prop :=
  ∀ front, front ≠ [] → front <+: components → LookedAt past (root ++ front) →
    d.NoLink (root ++ front) → d'.NoLink (root ++ front)

/-- Steps of another process that leave the components that were looked at as they are until the
source is open. -/
def Harmless (root : Place) (components : List Name)
    (past : List (Moment Disk (Call Unit) Reply)) : Disk → Disk → Prop :=
  Relation.ReflTransGen fun d d' =>
    Meddle root d d' ∧ (Unopened past → KeepsComponents root components past d d')

variable {root : Place} {components : List Name} {d d' : Disk}
  {past past' : List (Moment Disk (Call Unit) Reply)}

theorem Harmless.meddles (h : Harmless root components past d d') : Meddles root d d' :=
  Relation.ReflTransGen.mono (fun _ _ hstep => hstep.1) _ _ h

theorem Harmless.keeps (h : Harmless root components past d d') (hpast : Unopened past) :
    KeepsComponents root components past d d' := by
  induction h with
  | refl => exact fun _ _ _ _ hlink => hlink
  | tail _ hstep ih =>
      intro front hne hfront hlooked hlink
      exact hstep.2 hpast front hne hfront hlooked (ih front hne hfront hlooked hlink)

theorem not_below_self : ¬ Below root root := by
  intro h
  obtain ⟨rest, hne, hrest⟩ := h
  exact hne (List.append_right_eq_self.mp hrest.symm)

theorem meddles_isDirectory (h : Meddles root d d') (hdir : d.IsDirectory root) :
    d'.IsDirectory root := by
  obtain ⟨i, hi, hcontent⟩ := hdir
  refine ⟨i, by rw [h.entry not_below_self, hi], ?_⟩
  have hkind := (h.ages (d.fresh root i hi)).2.kind
  rw [hcontent] at hkind
  cases hnew : (d'.inode i).content <;> simp [hnew, Content.kind] at hkind ⊢

theorem isDirectory_noLink {p : Place} (h : d.IsDirectory p) : d.NoLink p := by
  obtain ⟨j, hj, hcontent⟩ := h
  intro i hi
  obtain rfl := Option.some.inj (hj.symm.trans hi)
  rw [hcontent]
  exact nofun

/-- Before the source is opened, with the components in `front` checked. -/
structure Checked (root : Place) (front : List Name) (d : Disk)
    (past : List (Moment Disk (Call Unit) Reply)) : Prop where
  directory : d.IsDirectory root
  unopened : Unopened past
  noRead : ∀ m ∈ past, NoRead m
  looked : ∀ part, part ≠ [] → part <+: front → LookedAt past (root ++ part)
  noLink : ∀ part, part ≠ [] → part <+: front → d.NoLink (root ++ part)

theorem Checked.meddled {front : List Name} (h : Checked root front d past)
    (hfront : front <+: components) (hmeddled : Harmless root components past d d') :
    Checked root front d' past where
  directory := meddles_isDirectory hmeddled.meddles h.directory
  unopened := h.unopened
  noRead := h.noRead
  looked := h.looked
  noLink part hne hpart :=
    hmeddled.keeps h.unopened part hne (hpart.trans hfront) (h.looked part hne hpart)
      (h.noLink part hne hpart)

/-- A call that neither opens nor reads. -/
theorem Checked.called {front : List Name} {op : Op} {v : op.Value}
    (h : Checked root front d past) (hopen : ∀ path noFollow, op ≠ .openFile path noFollow)
    (hread : ∀ descriptor offset count, op ≠ .read descriptor offset count) :
    Checked root front d (past ++ [momentOf () d op v]) where
  directory := h.directory
  unopened m hm := by
    rcases List.mem_append.mp hm with hm | hm
    · exact h.unopened m hm
    · obtain rfl := List.mem_singleton.mp hm
      exact hopen
  noRead m hm := by
    rcases List.mem_append.mp hm with hm | hm
    · exact h.noRead m hm
    · obtain rfl := List.mem_singleton.mp hm
      exact hread
  looked part hne hpart := by
    obtain ⟨m, hm, hop⟩ := h.looked part hne hpart
    exact ⟨m, List.mem_append_left _ hm, hop⟩
  noLink := h.noLink

/-- The next component is looked at and is no link. -/
theorem Checked.extend {front : List Name} {segment : Name} {metadata : Metadata}
    (h : Checked root front d past) (hkind : d.NoLink (root ++ (front ++ [segment]))) :
    Checked root (front ++ [segment]) d
      (past ++ [momentOf () d (.symlinkMetadata (absolute (root ++ (front ++ [segment]))))
        metadata]) := by
  have hcalled : Checked root front d
      (past ++ [momentOf () d (.symlinkMetadata (absolute (root ++ (front ++ [segment]))))
        metadata]) :=
    h.called (fun _ _ => nofun) fun _ _ _ => nofun
  refine ⟨hcalled.directory, hcalled.unopened, hcalled.noRead, ?_, ?_⟩
  · intro part hne hpart
    rcases List.prefix_concat_iff.mp hpart with hpart | hpart
    · rw [hpart]
      exact ⟨_, List.mem_append_right _ (List.mem_singleton_self _), rfl⟩
    · exact hcalled.looked part hne hpart
  · intro part hne hpart
    rcases List.prefix_concat_iff.mp hpart with hpart | hpart
    · rw [hpart]
      exact hkind
    · exact hcalled.noLink part hne hpart

/-! ## The checks -/

section

variable {proc : Process} {faulty : Call Unit → IoError → Prop} {adapter : LocalPackSource}
  {source : PackRelativePath} {u : Unit}

theorem observes_verifyRoot {front : List Name} (hfront : front <+: components)
    (hchecked : Checked root front d past)
    (h : Observes (Harmless root components) (Performs proc faulty)
      (verifyRoot adapter source) d past u d' past') : Checked root front d' past' := by
  obtain ⟨metadata, d₁, hmeddled, _, h⟩ := observes_call rfl h
  obtain ⟨_, h⟩ := h.bindThrowIf
  obtain ⟨_, rfl, rfl⟩ := h.throwIf
  exact (hchecked.meddled hfront hmeddled).called (fun _ _ => nofun) fun _ _ _ => nofun

/-- A component that was looked at is no link. -/
theorem noLink_of_metadata {p : Place} {metadata : Metadata}
    (hanswer : Answers proc d (.symlinkMetadata (absolute p)) (.ok metadata) d)
    (hkind : metadata.kind ≠ .symlink) : d.NoLink p := by
  intro i hi
  have hmetadata := hanswer.2
  rw [inodeAt_place hi] at hmetadata
  obtain rfl := Except.ok.inj hmetadata
  exact hkind

theorem observes_verifyFrom {front rest : List Name} (hnames : components = front ++ rest)
    (hchecked : Checked root front d past)
    (h : Observes (Harmless root components) (Performs proc faulty)
      (verifyFrom adapter source (root ++ front) rest) d past u d' past') :
    Checked root components d' past' := by
  induction rest generalizing front d past with
  | nil =>
      obtain ⟨_, rfl, rfl⟩ := h.pure
      rw [hnames, List.append_nil]
      exact hchecked
  | cons segment rest ih =>
      obtain ⟨metadata, d₁, hmeddled, hanswer, h⟩ := observes_call rfl h
      obtain ⟨hkind, h⟩ := h.bindThrowIf
      obtain ⟨_, h⟩ := h.bindThrowIf
      obtain ⟨_, h⟩ := h.bindThrowIf
      rw [List.append_assoc] at h hanswer
      have hmeddled := hchecked.meddled ⟨segment :: rest, hnames.symm⟩ hmeddled
      apply ih (by rw [hnames, List.append_assoc, List.singleton_append]) _ h
      exact hmeddled.extend (noLink_of_metadata hanswer hkind)

theorem observes_verifyComponents {candidate : Place} (hnames : components = names source)
    (hchecked : Checked adapter.root [] d past)
    (h : Observes (Harmless adapter.root components) (Performs proc faulty)
      (verifyComponents adapter source candidate) d past u d' past') :
    Checked adapter.root components d' past' := by
  obtain ⟨_, d₁, past₁, hfrom, h⟩ := h.bind
  rw [← hnames] at hfrom
  have hall : Checked adapter.root components d₁ past₁ :=
    observes_verifyFrom rfl hchecked (by rwa [List.append_nil])
  obtain ⟨(canonical : Place), d₂, hmeddled, _, h⟩ := observes_call rfl h
  obtain ⟨_, rfl, rfl⟩ := h.throwIf
  exact (hall.meddled (List.prefix_refl _) hmeddled).called (fun _ _ => nofun) fun _ _ _ => nofun

theorem observes_verifyFileMetadata {env : List (Moment Disk (Call Unit) Reply) → Disk → Disk → Prop}
    {metadata : Metadata}
    (h : Observes env (Performs proc faulty) (verifyFileMetadata adapter source metadata) d past u
      d' past') : d' = d ∧ past' = past := by
  obtain ⟨_, h⟩ := h.bindThrowIf
  obtain ⟨_, h⟩ := h.bindThrowIf
  obtain ⟨_, rfl, rfl⟩ := h.throwIf
  exact ⟨rfl, rfl⟩

/-! ## The opened file -/

/-- The source was opened at its declared place, and nothing else was read. -/
def Linkless (proc : Process) (adapter : LocalPackSource) (source : PackRelativePath)
    (moments : List (Moment Disk (Call Unit) Reply)) : Prop :=
  ∃ d file, momentOf () d (.openFile (absolute (adapter.root ++ names source)) false) file ∈
      moments ∧
    d.lookup proc.cwd true (absolute (adapter.root ++ names source)) =
      .ok (adapter.root ++ names source) ∧
    d.entry (adapter.root ++ names source) = some file ∧
    ∀ m ∈ moments, ∀ descriptor offset count,
      m.event.call.op = .read descriptor offset count → descriptor = file

theorem openFile_place {path : PathBuf} {file : Nat} (h : d.openFile proc.cwd path false = .ok file) :
    ∃ p, d.lookup proc.cwd true path = .ok p ∧ d.entry p = some file := by
  unfold Disk.openFile Disk.inodeAt at h
  split at h
  · next i hi =>
      split at hi
      · next p hlookup =>
          split at hi
          · next k hk =>
              split_ifs at h
              cases h
              cases hi
              exact ⟨p, hlookup, hk⟩
          · cases hi
      · cases hi
  · cases h

/-- Behind the checks the way to the source has no links. -/
theorem Checked.lookup {names : List Name} (h : Checked root names d past) {cwd p : Place}
    (hlookup : d.lookup cwd true (absolute (root ++ names)) = .ok p) : p = root ++ names := by
  apply Disk.lookup_noLink _ hlookup
  intro front hne hfront
  rcases List.prefix_or_prefix_of_prefix hfront (List.prefix_append root names) with
    ⟨rest, hrest⟩ | ⟨part, rfl⟩
  · by_cases hnil : rest = []
    · rw [hnil, List.append_nil] at hrest
      rw [hrest]
      exact isDirectory_noLink h.directory
    · have hdir := h.directory.entry_ne_none
      rw [← hrest] at hdir
      exact isDirectory_noLink (Disk.isDirectory_of_below hdir hnil)
  · by_cases hnil : part = []
    · rw [hnil, List.append_nil]
      exact isDirectory_noLink h.directory
    · exact h.noLink part hnil ((List.prefix_append_right_inj root).mp hfront)

/-- Where no checked component turns into a link, a loaded source was opened where it is
declared. -/
theorem loadSource_linkless {maximumBytes : Nat} {bytes : Bytes}
    {moments : List (Moment Disk (Call Unit) Reply)} (hroot : d.IsDirectory adapter.root)
    (h : Observes (Harmless adapter.root (names source)) (Performs proc faulty)
      (loadSource adapter source maximumBytes) d [] bytes d' moments) :
    Linkless proc adapter source moments := by
  have hstart : Checked adapter.root [] d [] :=
    ⟨hroot, by simp [Unopened], by simp, fun part hne hpart => absurd (List.prefix_nil.mp hpart) hne,
      fun part hne hpart => absurd (List.prefix_nil.mp hpart) hne⟩
  obtain ⟨_, d₁, _, hverify, h⟩ := h.bind
  have hchecked := observes_verifyRoot (List.nil_prefix) hstart hverify
  obtain ⟨_, d₂, _, hcomponents, h⟩ := h.bind
  have hchecked := observes_verifyComponents rfl hchecked hcomponents
  obtain ⟨before, d₃, hmeddled, _, h⟩ := observes_call rfl h
  obtain ⟨_, d₄, past₄, hfile, hrest⟩ := h.bind
  obtain ⟨rfl, hpast₄⟩ := observes_verifyFileMetadata hfile
  have hchecked : Checked adapter.root (names source) d₄ past₄ := by
    rw [hpast₄]
    exact (hchecked.meddled (List.prefix_refl _) hmeddled).called (fun _ _ => nofun)
      fun _ _ _ => nofun
  obtain ⟨(file : Nat), d₅, hmeddled, hopen, h⟩ := observes_call rfl hrest
  have hatOpen := hchecked.meddled (List.prefix_refl _) hmeddled
  obtain ⟨p, hlookup, hentry⟩ := openFile_place hopen.2.symm
  obtain rfl := hatOpen.lookup hlookup
  obtain ⟨opened, d₆, hmeddled₆, _, h⟩ := observes_call rfl h
  obtain ⟨_, d₇, _, hfile, h⟩ := h.bind
  obtain ⟨rfl, rfl⟩ := observes_verifyFileMetadata hfile
  obtain ⟨_, h⟩ := h.bindThrowIf
  obtain ⟨(openedPath : Place), d₈, hmeddled₈, _, h⟩ := observes_call rfl h
  obtain ⟨_, h⟩ := h.bindThrowIf
  obtain ⟨bytes', d₉, _, hread, h⟩ := h.bind
  have hfile : file < d₈.next :=
    Nat.lt_of_lt_of_le (d₅.fresh _ file hentry)
      (Meddles.ages (hmeddled₆.meddles.trans hmeddled₈.meddles) (d₅.fresh _ file hentry)).1
  obtain ⟨reads, rfl, hthrough⟩ := observes_readToEnd (fun _ _ _ h => h.meddles) hfile
    (Nat.le_refl _) hread
  obtain ⟨_, h⟩ := h.bindThrowIf
  obtain ⟨after, d₁₀, _, _, h⟩ := observes_call rfl h
  obtain ⟨_, h⟩ := h.bindThrowIf
  obtain ⟨current, d₁₁, _, _, h⟩ := observes_call rfl h
  obtain ⟨_, h⟩ := h.bindThrowIf
  obtain ⟨_, d₁₂, _, hcurrent, h⟩ := h.bind
  obtain ⟨rfl, rfl⟩ := observes_verifyFileMetadata hcurrent
  obtain ⟨_, h⟩ := h.bindThrowIf
  obtain ⟨_, d₁₃, _, hverify, h⟩ := h.bind
  obtain ⟨rfl, rfl, rfl⟩ := h.pure
  obtain ⟨root', d₁₄, _, _, hverify⟩ := observes_call rfl hverify
  obtain ⟨_, hverify⟩ := hverify.bindThrowIf
  obtain ⟨_, rfl, rfl⟩ := hverify.throwIf
  refine ⟨d₅, file, by simp, hlookup, hentry, ?_⟩
  intro m hm descriptor offset count hop
  simp only [List.append_assoc, List.mem_append, List.mem_cons, List.not_mem_nil, or_false] at hm
  rcases hm with hm | rfl | rfl | rfl | hm | rfl | rfl | rfl
  · exact absurd hop (hchecked.noRead m hm descriptor offset count)
  · cases hop
  · cases hop
  · cases hop
  · obtain ⟨⟨offset', count', hread⟩, _⟩ := hthrough.reads m hm
    rw [hread] at hop
    cases hop
    rfl
  · cases hop
  · cases hop
  · cases hop

end

/-! ## A directory replaced by a link -/

def directoryInode : Inode := ⟨.directory, 0, 0o755, 2, 0, 0⟩

def fileInode (bytes : Bytes) : Inode := ⟨.file bytes, 0, 0o644, 1, 0, 0⟩

/-- `a/f` and `b/f`. -/
def sampleEntries : List (Place × Inode) :=
  [([], directoryInode), ([Text.bytes "a"], directoryInode),
    ([Text.bytes "a", Text.bytes "f"], fileInode (Text.bytes "declared")),
    ([Text.bytes "b"], directoryInode),
    ([Text.bytes "b", Text.bytes "f"], fileInode (Text.bytes "other"))]

theorem sampleEntries_rooted : Rooted sampleEntries := by decide

def sampleDisk : Disk := .ofList sampleEntries sampleEntries_rooted

theorem sampleSource_valid : Core.packRelativePathValid "a/f" = true := by decide

def sampleSource : PackRelativePath := ⟨"a/f", sampleSource_valid⟩

def sampleAdapter : LocalPackSource := ⟨[], 0, 0⟩

def sampleProcess : Process := ⟨[], 0⟩

theorem below_nil (name : Name) : Below [] [name] := ⟨[name], List.cons_ne_nil _ _, rfl⟩

/-- Once the components are checked, another process makes the link `c` to `b`. -/
def linkBeside (past : List (Moment Disk (Call Unit) Reply)) (d : Disk) : Disk :=
  if past.length = 4 then
    match d.createNew [Text.bytes "c"] ⟨.symlink [.normal (Text.bytes "b")], 0, 0o777, 1, 0, 0⟩ with
    | .ok (_, d₁) => d₁
    | .error _ => d
  else d

/-- A new file elsewhere leaves the components as they are. -/
theorem keepsComponents_createNew {p : Place} {inode : Inode} {j : Nat}
    (hcreate : d.createNew p inode = .ok (j, d'))
    (hother : ∀ front, front <+: components → root ++ front ≠ p) :
    KeepsComponents root components past d d' := by
  obtain ⟨_, _, _, _, hentry, hinode⟩ := Disk.createNew_eq_ok hcreate
  intro front _ hfront _ hlink i hi
  rw [hentry, Function.update_of_ne (hother front hfront)] at hi
  rw [hinode, Function.update_of_ne (Nat.ne_of_lt (d.fresh _ i hi))]
  exact hlink i hi

theorem linkBeside_harmless (past : List (Moment Disk (Call Unit) Reply)) (d : Disk) :
    Harmless sampleAdapter.root (names sampleSource) past d (linkBeside past d) := by
  have hother : ∀ front, front <+: names sampleSource →
      sampleAdapter.root ++ front ≠ [Text.bytes "c"] := by
    intro front hfront hsame
    obtain rfl : front = [Text.bytes "c"] := hsame
    exact absurd hfront (by decide)
  unfold linkBeside
  split
  · split
    · next j d₁ hcreate =>
        exact .single ⟨.createNew (below_nil _) hcreate,
          fun _ => keepsComponents_createNew hcreate hother⟩
    · exact .refl
  · exact .refl

theorem sampleLoad_played :
    (play (interfere linkBeside fun d c =>
        d.answer sampleProcess [Text.bytes "a", Text.bytes "f"] c.op)
      (sampleDisk, []) [] (loadSource sampleAdapter sampleSource 100).run).map
        (fun run => (run.1, run.2.1.1.entry [Text.bytes "c"] != none)) =
      some (.ok (Text.bytes "declared"), true) := by
  decide

theorem loadSource_linkless_sample :
    ∃ (d : Disk) (moments : List (Moment Disk (Call Unit) Reply)),
      d.entry [Text.bytes "c"] ≠ none ∧
      Linkless sampleProcess sampleAdapter sampleSource moments := by
  obtain ⟨⟨result, ⟨d, moments⟩, t⟩, hplay, hend⟩ := Option.map_eq_some_iff.mp sampleLoad_played
  obtain ⟨rfl, hlinked⟩ := Prod.mk.inj hend
  have hobserves : Observes (Harmless sampleAdapter.root (names sampleSource))
      (Performs sampleProcess fun _ _ => False) (loadSource sampleAdapter sampleSource 100)
      sampleDisk [] (Text.bytes "declared") d moments :=
    observes_of_play linkBeside_harmless (fun d c r d' h => .inl (Disk.answers_answer h)) hplay
  have hroot : sampleDisk.IsDirectory sampleAdapter.root := by decide
  exact ⟨d, moments, bne_iff_ne.mp hlinked, loadSource_linkless hroot hobserves⟩

/-- Once the components are checked, `a` goes to `c`, and a link to `b` takes its place. -/
def replaceByLink (past : List (Moment Disk (Call Unit) Reply)) (d : Disk) : Disk :=
  if past.length = 4 then
    match d.rename [Text.bytes "a"] [Text.bytes "c"] with
    | .ok d₁ =>
        match d₁.createNew [Text.bytes "a"]
            ⟨.symlink [.normal (Text.bytes "b")], 0, 0o777, 1, 0, 0⟩ with
        | .ok (_, d₂) => d₂
        | .error _ => d₁
    | .error _ => d
  else d

theorem replaceByLink_meddles (past : List (Moment Disk (Call Unit) Reply)) (d : Disk) :
    Meddles sampleAdapter.root d (replaceByLink past d) := by
  unfold replaceByLink
  split
  · split
    · next d₁ hrename =>
        have hfirst : Meddle [] d d₁ := .rename _ _ (below_nil _) (below_nil _) hrename
        split
        · next j d₂ hcreate =>
            exact .tail (.single hfirst) (.createNew (below_nil _) hcreate)
        · exact .single hfirst
    · exact .refl
  · exact .refl

/-- Whether the declared place was not where the source was opened. -/
def openedElsewhere (m : Moment Disk (Call Unit) Reply) : Bool :=
  match m.event.call.op with
  | .openFile path _ => decide (m.state.lookup sampleProcess.cwd true path ≠
      .ok (sampleAdapter.root ++ names sampleSource))
  | _ => true

theorem replacedLoad_played :
    (play (interfere replaceByLink fun d c =>
        d.answer sampleProcess [Text.bytes "b", Text.bytes "f"] c.op)
      (sampleDisk, []) [] (loadSource sampleAdapter sampleSource 100).run).map
        (fun run => (run.1, run.2.1.2.all openedElsewhere)) =
      some (.ok (Text.bytes "other"), true) := by
  decide

/-- The bytes of `b/f` are returned for `a/f`. -/
theorem loadSource_through_link :
    ∃ d moments, Observes (fun _ => Meddles sampleAdapter.root)
        (Performs sampleProcess fun _ _ => False) (loadSource sampleAdapter sampleSource 100)
        sampleDisk [] (Text.bytes "other") d moments ∧
      ¬ Linkless sampleProcess sampleAdapter sampleSource moments := by
  obtain ⟨⟨result, ⟨d, moments⟩, t⟩, hplay, hend⟩ := Option.map_eq_some_iff.mp replacedLoad_played
  obtain ⟨rfl, helsewhere⟩ := Prod.mk.inj hend
  refine ⟨d, moments, observes_of_play replaceByLink_meddles
    (fun d c r d' h => .inl (Disk.answers_answer h)) hplay, ?_⟩
  intro h
  obtain ⟨d', file, hmoment, hlookup, _⟩ := h
  have hother := List.all_eq_true.mp helsewhere _ hmoment
  exact of_decide_eq_true hother hlookup

end Invokrum.Fs
