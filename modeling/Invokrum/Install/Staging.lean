import Invokrum.Install.Exact

/-!
# Putting files in place

On a file system without failures a file is materialized with the directories on
the way to it, all of them private, and nothing that was there changes. Files
that do not stand in each other's way are materialized one after another.
-/

namespace Invokrum.Install

open Programs Environment Invokrum.Distribution Invokrum.Acquisition Invokrum.FileSystem
open Directory (Tree Holds parents treeEntries)
open Text (Bytes)

variable {umask : Nat} {store : LinuxInstallStore} {fs fs' fs'' : Fs} {site : Site}
  {root : Path} {path : BundlePath} {bytes : Bytes}

/-! ## Growth -/

/-- What was there stays, and new entries are at these paths only. -/
structure Grows (paths : List Path) (fs fs' : Fs) : Prop where
  kept : ∀ q, fs.node q ≠ none → fs'.node q = fs.node q
  new : ∀ q, fs'.node q ≠ none → fs.node q ≠ none ∨ q ∈ paths

theorem Grows.refl (paths : List Path) (fs : Fs) : Grows paths fs fs :=
  ⟨fun _ _ => rfl, fun _ h => .inl h⟩

theorem Grows.trans {paths paths' : List Path} (h : Grows paths fs fs')
    (h' : Grows paths' fs' fs'') : Grows (paths ++ paths') fs fs'' := by
  constructor
  · intro q hq
    have hkept := h.kept q hq
    rw [h'.kept q (hkept ▸ hq), hkept]
  · intro q hq
    rcases h'.new q hq with hold | hnew
    · rcases h.new q hold with hold | hnew
      · exact .inl hold
      · exact .inr (List.mem_append_left _ hnew)
    · exact .inr (List.mem_append_right _ hnew)

theorem grows_update {p : Path} {n : Node} (habsent : fs.node p = none)
    (h : fs'.node = Function.update fs.node p (some n)) : Grows [p] fs fs' := by
  constructor
  · intro q hq
    have hne : q ≠ p := by
      intro heq
      exact hq (heq ▸ habsent)
    rw [h, Function.update_of_ne hne]
  · intro q hq
    by_cases heq : q = p
    · exact .inr (List.mem_singleton.mpr heq)
    · rw [h, Function.update_of_ne heq] at hq
      exact .inl hq

theorem Grows.safeAt {paths : List Path} {directory : Path} (h : Grows paths fs fs')
    (hsafe : SafeAt store fs directory) : SafeAt store fs' directory := by
  obtain ⟨n, hn, hprivate⟩ := hsafe
  exact ⟨n, (h.kept directory (by simp [hn])).trans hn, hprivate⟩

/-- Growth below a root changes nothing outside. -/
theorem Grows.sameOutside {paths : List Path} (h : Grows paths fs fs')
    (hbelow : ∀ q ∈ paths, root <+: q) : Fs.SameOutside root fs fs' := by
  intro q hq
  by_cases hnode : fs.node q = none
  · rw [hnode]
    by_contra hsome
    rcases h.new q hsome with hold | hnew
    · exact hold hnode
    · exact hq (hbelow q hnew)
  · exact h.kept q hnode

/-! ## Directories -/

theorem safeAt_iff {directory : Path} :
    SafeAt store fs directory ↔ ∃ n, fs.node directory = some n ∧ PrivateDirectory store n := by
  simp only [SafeAt, safePrivateDirectory_eq_true]

theorem SafeAt.parentDirectory {directory : Path} {name : String}
    (h : SafeAt store fs directory) : ∃ n, fs.parentDirectory (directory ++ [name]) = some n ∧
      fs.node directory = some n ∧ PrivateDirectory store n := by
  obtain ⟨n, hn, hprivate⟩ := safeAt_iff.mp h
  refine ⟨n, ?_, hn, hprivate⟩
  have hkind := hprivate.kind
  simp [Fs.parentDirectory, hn, hkind]

theorem verifyPrivateDirectory_outcome {directory : Path} (h : SafeAt store fs directory) :
    (faultless umask).outcome (verifyPrivateDirectory store site directory) fs = (.ok (), fs) := by
  apply Prod.ext
  · exact verifyPrivateDirectory_eq_ok.mpr (safeAt_iff.mp h)
  · exact (reads_verifyPrivateDirectory (List.prefix_refl directory) fs).1

/-- The directories below a private one are there after their step, whoever made them. -/
theorem ensurePrivateDirectories_outcome {current : Path} {names : List String}
    (hcurrent : SafeAt store fs current)
    (h : ∀ d ∈ directoriesFrom current names, fs.node d = none ∨ SafeAt store fs d) :
    ∃ fs', (faultless umask).outcome ((directoriesFrom current names).forM
        (ensurePrivateDirectory store site)) fs = (.ok ⟨⟩, fs') ∧
      Grows (directoriesFrom current names) fs fs' ∧
        ∀ d ∈ directoriesFrom current names, SafeAt store fs' d := by
  induction names generalizing current fs with
  | nil => exact ⟨fs, rfl, Grows.refl _ fs, by simp [directoriesFrom]⟩
  | cons name names ih =>
      have hfirst : ∃ fs₁, (faultless umask).outcome
          (ensurePrivateDirectory store site (current ++ [name])) fs = (.ok (), fs₁) ∧
            Grows [current ++ [name]] fs fs₁ ∧ SafeAt store fs₁ (current ++ [name]) := by
        rcases h (current ++ [name]) List.mem_cons_self with habsent | hsafe
        · obtain ⟨d, hparent, _, hprivate⟩ := @hcurrent.parentDirectory _ _ _ name
          obtain ⟨fs₁, n, houtcome, hsafe, hnode⟩ :=
            ensurePrivateDirectory_created hparent hprivate.device habsent
          exact ⟨fs₁, houtcome, grows_update habsent hnode,
            ⟨n, by rw [hnode, Function.update_self], hsafe⟩⟩
        · exact ⟨fs, ensurePrivateDirectory_safe hsafe, Grows.refl _ fs, hsafe⟩
      obtain ⟨fs₁, houtcome, hgrows, hsafe⟩ := hfirst
      have hrest : ∀ d ∈ directoriesFrom (current ++ [name]) names,
          fs₁.node d = none ∨ SafeAt store fs₁ d := by
        intro d hd
        rcases h d (List.mem_cons_of_mem _ hd) with habsent | hold
        · by_cases hthere : fs₁.node d = none
          · exact .inl hthere
          · rcases hgrows.new d hthere with hold | hnew
            · exact absurd habsent hold
            · exact .inr (List.mem_singleton.mp hnew ▸ hsafe)
        · exact .inr (hgrows.safeAt hold)
      obtain ⟨fs', hloop, hgrows', hall⟩ := ih hsafe hrest
      refine ⟨fs', ?_, hgrows.trans hgrows', ?_⟩
      · show (faultless umask).outcome (ensurePrivateDirectory store site (current ++ [name]) >>=
          fun _ => (directoriesFrom (current ++ [name]) names).forM _) fs = _
        rw [bind_of_ok houtcome, hloop]
      · intro d hd
        rcases List.mem_cons.mp hd with rfl | hd
        · exact hgrows'.safeAt hsafe
        · exact hall d hd

/-! ## One file -/

/-- The directories on the way to a file and the file. -/
def wayTo (root : Path) (path : BundlePath) : List Path :=
  directoriesFrom root (components path).dropLast ++ [root ++ components path]

/-- A file has been put at this path below the root. -/
structure Materialized (store : LinuxInstallStore) (root : Path) (path : BundlePath)
    (bytes : Bytes) (fs fs' : Fs) : Prop where
  file : ∃ n, fs'.node (root ++ components path) = some n ∧ PrivateFile store n ∧ n.bytes = bytes
  directory : ∀ d ∈ parents path, SafeAt store fs' (root ++ d)
  grows : Grows (wayTo root path) fs fs'

theorem ensureRelativeDirectories_eq :
    ensureRelativeDirectories store root (root ++ components path).dropLast =
      (directoriesFrom root (components path).dropLast).forM
        (ensurePrivateDirectory store .tree) := by
  have hparent : (root ++ components path).dropLast = root ++ (components path).dropLast :=
    List.dropLast_append_of_ne_nil (components_ne_nil path)
  rw [ensureRelativeDirectories, hparent, List.drop_left,
    if_pos (List.isPrefixOf_iff_prefix.mpr (List.prefix_append _ _))]

/-- The directory of a file is the root or one of the directories on the way. -/
theorem safeAt_dropLast (hroot : SafeAt store fs root)
    (h : ∀ d ∈ directoriesFrom root (components path).dropLast, SafeAt store fs d) :
    SafeAt store fs (root ++ (components path).dropLast) := by
  by_cases hempty : (components path).dropLast = []
  · rwa [hempty, List.append_nil]
  · exact h _ (mem_directoriesFrom.mpr ⟨_, hempty, List.prefix_refl _, rfl⟩)

theorem answer_writeAll {p : Path} {n : Node} (h : fs.node p = some n) (hkind : n.kind = .file) :
    ∃ fs', answer umask fs (.writeAll p bytes) = (.ok (), fs') ∧
      fs'.node = Function.update fs.node p (some { n with bytes := n.bytes ++ bytes }) := by
  refine ⟨fs.modify p (fun n => { n with bytes := n.bytes ++ bytes }) fun _ => rfl, ?_, ?_⟩
  · show changed fs (fs.append p bytes) = _
    rw [Fs.append, h]
    simp only [hkind, if_true]
    rfl
  · simp [Fs.modify, h]

/-- A new file is written and made private. -/
theorem writeFile_outcome {p : Path} {name : String} (hparent : SafeAt store fs p)
    (habsent : fs.node (p ++ [name]) = none) :
    ∃ fs' n, (faultless umask).outcome (do
      call .tree (.createNew (p ++ [name]) privateFileMode) fun _ => .materializationConflict path
      call .tree (.writeAll (p ++ [name]) bytes) fun _ => .io
      call .tree (.syncAll (p ++ [name])) fun _ => .io
      call .tree (.setPermissions (p ++ [name]) privateFileMode) fun _ => .io
      let metadata ← call .tree (.fileMetadata (p ++ [name])) fun _ => .io
      Fallible.throwIf (safePrivateFile metadata store.rootDevice = false) .storePathUnsafe
      syncDirectory .tree (p ++ [name]).dropLast : Installation Unit) fs = (.ok (), fs') ∧
      PrivateFile store n ∧ n.bytes = bytes ∧
        fs'.node = Function.update fs.node (p ++ [name]) (some n) := by
  obtain ⟨d, hd, hnode, hprivate⟩ := @hparent.parentDirectory _ _ _ name
  obtain ⟨fs₁, hcreate, hnode₁⟩ := @Fs.createNode_absent fs (p ++ [name]) d .file 1
    (privateFileMode.ldiff umask) habsent hd
  have hcreated : answer umask fs (.createNew (p ++ [name]) privateFileMode) = (.ok (), fs₁) := by
    show changed fs (fs.createNode (p ++ [name]) .file 1 (privateFileMode.ldiff umask)) = _
    rw [hcreate]
    rfl
  have hthere₁ : fs₁.node (p ++ [name]) = some ⟨⟨.file, d.metadata.device, fs.nextInode, 1,
      privateFileMode.ldiff umask⟩, []⟩ := by
    rw [hnode₁, Function.update_self]
  obtain ⟨fs₂, hwritten, hnode₂⟩ := @answer_writeAll umask fs₁ bytes _ _ hthere₁ rfl
  rw [hnode₁, Function.update_idem] at hnode₂
  have hthere₂ : fs₂.node (p ++ [name]) = some ⟨⟨.file, d.metadata.device, fs.nextInode, 1,
      privateFileMode.ldiff umask⟩, [] ++ bytes⟩ := by
    rw [hnode₂, Function.update_self]
  have hsynced : answer umask fs₂ (.syncAll (p ++ [name])) = (.ok (), fs₂) := by
    show (fs₂.sync (p ++ [name]), fs₂) = _
    rw [Fs.sync, hthere₂]
  obtain ⟨fs₃, hmode, hnode₃⟩ := @Fs.setMode_some fs₂ _ _ privateFileMode hthere₂
  have hprotected : answer umask fs₂ (.setPermissions (p ++ [name]) privateFileMode) =
      (.ok (), fs₃) := by
    show changed fs₂ (fs₂.setMode (p ++ [name]) privateFileMode) = _
    rw [hmode]
    rfl
  rw [hnode₂, Function.update_idem] at hnode₃
  have hthere₃ : fs₃.node (p ++ [name]) = some
      ⟨⟨.file, d.metadata.device, fs.nextInode, 1, privateFileMode⟩, [] ++ bytes⟩ := by
    rw [hnode₃, Function.update_self]
  have hmetadata : answer umask fs₃ (.fileMetadata (p ++ [name])) =
      (.ok ⟨.file, d.metadata.device, fs.nextInode, 1, privateFileMode⟩, fs₃) := by
    show (fs₃.symlinkMetadata (p ++ [name]), fs₃) = _
    rw [Fs.symlinkMetadata_eq_ok.mpr ⟨_, hthere₃, rfl⟩]
  have hfile : PrivateFile store
      ⟨⟨.file, d.metadata.device, fs.nextInode, 1, privateFileMode⟩, [] ++ bytes⟩ := by
    refine ⟨rfl, hprivate.device, rfl, ?_⟩
    show 0o600 &&& 0o777 = privateFileMode
    decide
  have hsafe : safePrivateFile ⟨.file, d.metadata.device, fs.nextInode, 1, privateFileMode⟩
      store.rootDevice = true := safePrivateFile_eq_true.mpr hfile
  have hstill : fs₃.node (p ++ [name]).dropLast = some d := by
    rw [List.dropLast_concat, hnode₃, Function.update_of_ne (by simp), hnode]
  refine ⟨fs₃, _, ?_, hfile, List.nil_append _, hnode₃⟩
  rw [bind_of_ok (call_outcome hcreated), bind_of_ok (call_outcome hwritten),
    bind_of_ok (call_outcome hsynced), bind_of_ok (call_outcome hprotected),
    bind_of_ok (call_outcome hmetadata)]
  rw [bind_of_ok (a := ()) (by rw [outcome_throwIf, if_neg (by simp [hsafe])])]
  exact syncDirectory_outcome hstill

theorem materializeFile_outcome (hroot : SafeAt store fs root)
    (habsent : fs.node (root ++ components path) = none)
    (hparents : ∀ d ∈ parents path, fs.node (root ++ d) = none ∨ SafeAt store fs (root ++ d)) :
    ∃ fs', (faultless umask).outcome (materializeFile store root path bytes) fs = (.ok (), fs') ∧
      Materialized store root path bytes fs fs' := by
  have hway : ∀ d ∈ directoriesFrom root (components path).dropLast,
      fs.node d = none ∨ SafeAt store fs d := by
    intro d hd
    obtain ⟨directory, hdirectory, rfl⟩ := mem_directoriesFrom_parents.mp hd
    exact hparents directory hdirectory
  obtain ⟨fs₁, hdirectories, hgrows, hsafe⟩ :=
    @ensurePrivateDirectories_outcome umask store fs .tree root _ hroot hway
  have hlast : root ++ components path = (root ++ (components path).dropLast) ++
      [(components path).getLast (components_ne_nil path)] := by
    rw [List.append_assoc, List.dropLast_append_getLast]
  have habsent₁ : fs₁.node (root ++ components path) = none := by
    by_contra hthere
    rcases hgrows.new _ hthere with hold | hnew
    · exact hold habsent
    · obtain ⟨directory, hdirectory, heq⟩ := mem_directoriesFrom_parents.mp hnew
      exact (Directory.mem_parents.mp hdirectory).2.2 (List.append_cancel_left heq).symm
  obtain ⟨fs', n, hwrite, hfile, hbytes, hnode⟩ := @writeFile_outcome umask store fs₁ path bytes
    _ _ (safeAt_dropLast (hgrows.safeAt hroot) hsafe) (hlast ▸ habsent₁)
  rw [← hlast] at hwrite hnode
  have hgrows' := grows_update habsent₁ hnode
  refine ⟨fs', ?_, ?_, ?_, hgrows.trans hgrows'⟩
  · rw [materializeFile, ensureRelativeDirectories_eq, bind_of_ok hdirectories]
    exact hwrite
  · exact ⟨n, by rw [hnode, Function.update_self], hfile, hbytes⟩
  · intro d hd
    exact hgrows'.safeAt (hsafe _ (mem_directoriesFrom_parents.mpr ⟨d, hd, rfl⟩))

/-! ## Many files -/

/-- No path is a directory on the way to another. -/
def Unnested (paths : List BundlePath) : Prop :=
  ∀ p ∈ paths, ∀ q ∈ paths, components p ∉ parents q

/-- Below the root are these files and the directories on the way to them, all private. -/
structure Staged (store : LinuxInstallStore) (root : Path) (files : List (BundlePath × Bytes))
    (fs : Fs) : Prop where
  top : SafeAt store fs root
  file : ∀ file ∈ files, ∃ n, fs.node (root ++ components file.1) = some n ∧
    PrivateFile store n ∧ n.bytes = file.2
  directory : ∀ file ∈ files, ∀ d ∈ parents file.1, SafeAt store fs (root ++ d)
  only : ∀ q, fs.below root q ≠ none → q = [] ∨ q ∈ treeEntries (files.map (·.1))

theorem staged_nil (hroot : SafeAt store fs root) (hempty : ∀ q ≠ [], fs.node (root ++ q) = none) :
    Staged store root [] fs := by
  refine ⟨hroot, by simp, by simp, ?_⟩
  intro q hq
  by_contra hother
  exact hq (hempty q fun hnil => hother (.inl hnil))

section

variable {files : List (BundlePath × Bytes)}

theorem Staged.absent (h : Staged store root files fs) (hfresh : path ∉ files.map (·.1))
    (hnested : ∀ p ∈ files.map (·.1), components path ∉ parents p) :
    fs.node (root ++ components path) = none := by
  by_contra hthere
  rcases h.only (components path) hthere with hnil | hentry
  · exact components_ne_nil path hnil
  · rcases Directory.mem_treeEntries.mp hentry with ⟨p, hp, heq⟩ | ⟨p, hp, hparent⟩
    · exact hfresh (Directory.components_injective heq ▸ hp)
    · exact hnested p hp hparent

theorem Staged.parents (h : Staged store root files fs)
    (hnested : ∀ p ∈ files.map (·.1), components p ∉ parents path) :
    ∀ d ∈ parents path, fs.node (root ++ d) = none ∨ SafeAt store fs (root ++ d) := by
  intro d hd
  by_cases hthere : fs.node (root ++ d) = none
  · exact .inl hthere
  · right
    rcases h.only d hthere with rfl | hentry
    · exact absurd rfl (Directory.mem_parents.mp hd).1
    · rcases Directory.mem_treeEntries.mp hentry with ⟨p, hp, rfl⟩ | ⟨p, hp, hparent⟩
      · exact absurd hd (hnested p hp)
      · obtain ⟨file, hfile, rfl⟩ := List.mem_map.mp hp
        exact h.directory file hfile d hparent

theorem mem_wayTo {q : Path} : q ∈ wayTo root path ↔
    ∃ entry, (entry = components path ∨ entry ∈ Directory.parents path) ∧ q = root ++ entry := by
  rw [wayTo, List.mem_append, mem_directoriesFrom_parents, List.mem_singleton]
  constructor
  · intro h
    rcases h with ⟨d, hd, rfl⟩ | rfl
    · exact ⟨d, .inr hd, rfl⟩
    · exact ⟨_, .inl rfl, rfl⟩
  · intro h
    obtain ⟨entry, rfl | hd, rfl⟩ := h
    · exact .inr rfl
    · exact .inl ⟨entry, hd, rfl⟩

theorem Materialized.sameOutside (h : Materialized store root path bytes fs fs') :
    Fs.SameOutside root fs fs' := by
  apply h.grows.sameOutside
  intro q hq
  obtain ⟨entry, _, rfl⟩ := mem_wayTo.mp hq
  exact List.prefix_append root entry

theorem Staged.materialized (h : Staged store root files fs)
    (hfile : Materialized store root path bytes fs fs') :
    Staged store root (files ++ [(path, bytes)]) fs' := by
  constructor
  · exact hfile.grows.safeAt h.top
  · intro file hmem
    rcases List.mem_append.mp hmem with hmem | hmem
    · obtain ⟨n, hn, hprivate⟩ := h.file file hmem
      exact ⟨n, (hfile.grows.kept _ (by simp [hn])).trans hn, hprivate⟩
    · rw [List.mem_singleton.mp hmem]
      exact hfile.file
  · intro file hmem d hd
    rcases List.mem_append.mp hmem with hmem | hmem
    · exact hfile.grows.safeAt (h.directory file hmem d hd)
    · rw [List.mem_singleton.mp hmem] at hd
      exact hfile.directory d hd
  · intro q hq
    simp only [List.map_append, Directory.mem_treeEntries, List.mem_append]
    rcases hfile.grows.new (root ++ q) hq with hold | hnew
    · rcases h.only q hold with hnil | hentry
      · exact .inl hnil
      · right
        rcases Directory.mem_treeEntries.mp hentry with ⟨p, hp, heq⟩ | ⟨p, hp, hparent⟩
        · exact .inl ⟨p, .inl hp, heq⟩
        · exact .inr ⟨p, .inl hp, hparent⟩
    · right
      obtain ⟨entry, hentry, heq⟩ := mem_wayTo.mp hnew
      obtain rfl := List.append_cancel_left heq
      rcases hentry with heq | hparent
      · exact .inl ⟨path, by simp, heq⟩
      · exact .inr ⟨path, by simp, hparent⟩

/-- One more file of a list whose paths do not stand in each other's way. -/
theorem Staged.materializeFile_outcome (h : Staged store root files fs)
    (hdistinct : ((files ++ [(path, bytes)]).map (·.1)).Nodup)
    (hnested : Unnested ((files ++ [(path, bytes)]).map (·.1))) :
    ∃ fs', (faultless umask).outcome (materializeFile store root path bytes) fs = (.ok (), fs') ∧
      Staged store root (files ++ [(path, bytes)]) fs' ∧ Fs.SameOutside root fs fs' := by
  rw [List.map_append] at hdistinct hnested
  have hpath : path ∈ files.map (·.1) ++ [(path, bytes)].map (·.1) := by simp
  have hfresh : path ∉ files.map (·.1) := by
    intro hmem
    exact (List.nodup_append.mp hdistinct).2.2 path hmem path (by simp) rfl
  obtain ⟨fs', houtcome, hfile⟩ := @Install.materializeFile_outcome umask store fs root path bytes
    h.top (h.absent hfresh fun p hp => hnested path hpath p (List.mem_append_left _ hp))
    (h.parents fun p hp => hnested p (List.mem_append_left _ hp) path hpath)
  exact ⟨fs', houtcome, h.materialized hfile, hfile.sameOutside⟩

end

def contentOf (file : VerifiedFile) : BundlePath × Bytes := (file.path, file.bytes)

/-- Files that do not stand in each other's way are put in place one after another. -/
theorem Staged.materializeFiles_outcome {done : List (BundlePath × Bytes)}
    {rest : List VerifiedFile} (h : Staged store root done fs)
    (hdistinct : ((done ++ rest.map contentOf).map (·.1)).Nodup)
    (hnested : Unnested ((done ++ rest.map contentOf).map (·.1))) :
    ∃ fs', (faultless umask).outcome
        (rest.forM fun file => materializeFile store root file.path file.bytes) fs =
          (.ok ⟨⟩, fs') ∧
      Staged store root (done ++ rest.map contentOf) fs' ∧ Fs.SameOutside root fs fs' := by
  induction rest generalizing done fs with
  | nil => exact ⟨fs, rfl, by rwa [List.map_nil, List.append_nil], Fs.SameOutside.refl root fs⟩
  | cons file rest ih =>
      rw [List.map_cons, List.append_cons] at hdistinct hnested ⊢
      have hsub : ((done ++ [contentOf file]).map (·.1)).Sublist
          ((done ++ [contentOf file] ++ rest.map contentOf).map (·.1)) :=
        (List.sublist_append_left _ _).map _
      have hnested₁ : Unnested ((done ++ [contentOf file]).map (·.1)) :=
        fun p hp q hq => hnested p (hsub.subset hp) q (hsub.subset hq)
      obtain ⟨fs₁, hfirst, hstaged, hoff⟩ :=
        @Staged.materializeFile_outcome umask _ _ _ _ _ _ h (hsub.nodup hdistinct) hnested₁
      obtain ⟨fs', hrest, hstaged', hoff'⟩ := ih hstaged hdistinct hnested
      refine ⟨fs', ?_, hstaged', fun q hq => (hoff' q hq).trans (hoff q hq)⟩
      show (faultless umask).outcome (materializeFile store root file.path file.bytes >>=
        fun _ => rest.forM _) fs = _
      rw [bind_of_ok hfirst, hrest]

/-! ## What a reader finds -/

theorem Staged.holds {files : List (BundlePath × Bytes)} (h : Staged store root files fs)
    {tree : Tree} (htree : tree.node = fs.below root) :
    Holds tree store.rootDevice (files.map (·.1)) := by
  have hdirectory : ∀ d, SafeAt store fs (root ++ d) → ∃ n, tree.node d = some n ∧
      n.kind = .directory ∧ n.metadata.device = store.rootDevice := by
    intro d hd
    obtain ⟨n, hn, hprivate⟩ := safeAt_iff.mp hd
    exact ⟨n, by rw [htree, Fs.below, hn], hprivate.kind, hprivate.device⟩
  constructor
  · exact hdirectory [] (by rw [List.append_nil]; exact h.top)
  · intro path hpath
    obtain ⟨file, hfile, rfl⟩ := List.mem_map.mp hpath
    obtain ⟨n, hn, hprivate, _⟩ := h.file file hfile
    exact ⟨n, by rw [htree, Fs.below, hn], hprivate.kind, hprivate.links, hprivate.device⟩
  · intro path hpath d hd
    obtain ⟨file, hfile, rfl⟩ := List.mem_map.mp hpath
    exact hdirectory d (h.directory file hfile d hd)
  · intro q hq
    exact h.only q (htree ▸ hq)

/-- Names in a tree of bundle paths have no separator. -/
theorem plain_of_mem_treeEntries {paths : List BundlePath} {q : Path} {name : String}
    (h : q ++ [name] ∈ treeEntries paths) : '/' ∉ name.toList := by
  rcases Directory.mem_treeEntries.mp h with ⟨p, _, heq⟩ | ⟨p, _, hparent⟩
  · exact Directory.components_plain (heq ▸ List.mem_append_right q List.mem_cons_self)
  · exact Directory.plain_of_mem_parents hparent name
      (List.mem_append_right q List.mem_cons_self)

theorem plain_of_entries {paths : List BundlePath} {tree : Tree} (htree : tree.node = fs.below root)
    (honly : ∀ q, tree.node q ≠ none → q = [] ∨ q ∈ treeEntries paths) : tree.Plain := by
  constructor
  · intro q name hnode
    rw [htree, Fs.below, ← List.append_assoc] at hnode
    obtain ⟨n, hn, hkind⟩ := fs.closed _ _ hnode
    simp [Tree.isDirectory, htree, Fs.below, hn, hkind]
  · intro q name hnode
    rcases honly _ hnode with hnil | hentry
    · simp at hnil
    · exact plain_of_mem_treeEntries hentry

end Invokrum.Install
