import Invokrum.Base.Environment
import Invokrum.Directory.Loader
import Invokrum.Install.Store

/-!
# Installations without file-system failures

Every operation that can succeed does, and an error tells the truth. One
process at a time works on the store, so an installation has one outcome. The
calls of this environment are calls that the effects allow.
-/

namespace Invokrum.Install

open Programs Environment Invokrum.Distribution Invokrum.Acquisition Invokrum.FileSystem
open Directory (Tree PinnedRoot Load loadCandidate readCandidateFile readDeclaredFile)
open Text (Bytes)

/-! ## The environment -/

open Classical in
/-- What a reader finds in the tree of these nodes. It lists a directory in some order; a
directory without end exceeds every limit. -/
noncomputable def viewed {α : Type} (nodes : Path → Option Node) (read : Tree → Load α) : Load α :=
  if h : ∃ tree : Tree, tree.node = nodes then read h.choose else .error .traversalLimitExceeded

open Classical in
/-- `rename` of a directory. -/
noncomputable def moved (fs : Fs) (a b : Path) : Except IoError Fs :=
  if h : fs.CanMove a b then .ok (fs.moveTree a b h.parent h.apart) else .error .other

/-- A change that happens, or an error that changes nothing. -/
def changed (fs : Fs) : Except IoError Fs → Except IoError Unit × Fs
  | .ok fs' => (.ok (), fs')
  | .error e => (.error e, fs)

noncomputable def answer (umask : Nat) (fs : Fs) : (op : Op) → Except op.Error op.Value × Fs
  | .symlinkMetadata p => (fs.symlinkMetadata p, fs)
  | .createDir p mode => changed fs (fs.createDir p (mode.ldiff umask))
  | .setPermissions p mode => changed fs (fs.setMode p mode)
  | .createNew p mode => changed fs (fs.createFile p (mode.ldiff umask))
  | .writeAll p bytes => changed fs (fs.append p bytes)
  | .syncAll p => (fs.sync p, fs)
  | .fileMetadata p => (fs.symlinkMetadata p, fs)
  | .syncDirectory p => (fs.sync p, fs)
  | .rename a b => changed fs (moved fs a b)
  | .removeFile p => changed fs (fs.removeFile p)
  | .removeDirAll p => changed fs (fs.removeDirAll p)
  | .openSource root =>
      (viewed (fs.below root) fun tree => (PinnedRoot.open tree).map fun _ => (), fs)
  | .load root manifest allowed =>
      (viewed (fs.below root) fun tree => loadCandidate tree manifest allowed, fs)
  | .readExactWithLimit root path maximum =>
      (viewed (fs.below root) fun tree => readCandidateFile tree path maximum, fs)

/-- The file system under this process mask, without failures. -/
noncomputable def faultless (umask : Nat) : Environment Call Reply Fs :=
  fun fs c => answer umask fs c.op

/-- The outcome of an installation. -/
noncomputable def install (umask : Nat) (store : LinuxInstallStore) (bundle : VerifiedBundle)
    (publisher : Option AuthorizedPublisher) (fs : Fs) :
    Except LinuxInstallStoreError InstalledBundle × Fs :=
  (faultless umask).outcome (installBundleWithPublisher store bundle publisher) fs

variable {umask : Nat} {fs fs' : Fs}

/-- A reader of nodes finds the same in every tree of these nodes. -/
theorem viewed_eq {α : Type} {nodes : Path → Option Node} {read : Tree → Load α} {tree : Tree}
    (h : tree.node = nodes) (hread : ∀ tree', tree'.node = tree.node → read tree' = read tree) :
    viewed nodes read = read tree := by
  have hexists : ∃ tree : Tree, tree.node = nodes := ⟨tree, h⟩
  rw [viewed, dif_pos hexists]
  exact hread _ (hexists.choose_spec.trans h.symm)

theorem viewed_eq_ok {α : Type} {nodes : Path → Option Node} {read : Tree → Load α} {a : α}
    (h : viewed nodes read = .ok a) : ∃ tree, tree.node = nodes ∧ read tree = .ok a := by
  unfold viewed at h
  split at h
  · next htree => exact ⟨_, htree.choose_spec, h⟩
  · cases h

/-- The listing order does not matter: what a load finds is what it finds in any tree of these
nodes. -/
theorem viewed_load {nodes : Path → Option Node} {tree : Tree} (h : tree.node = nodes)
    (manifest : BundleManifest) (allowed : Option (BundlePath × Nat)) :
    (viewed nodes fun tree => loadCandidate tree manifest allowed) =
      loadCandidate tree manifest allowed :=
  viewed_eq h fun _ hnodes => Directory.loadCandidate_congr hnodes manifest allowed

/-- A file that the loader reads is there, with these bytes. -/
theorem viewed_read {root : Path} {path : BundlePath} {maximum : Nat} {bytes : Bytes}
    (h : viewed (fs.below root) (fun tree => readCandidateFile tree path maximum) = .ok bytes) :
    fs.readFile (root ++ components path) = .ok bytes ∧ bytes.length ≤ maximum := by
  obtain ⟨tree, htree, h⟩ := viewed_eq_ok h
  simp only [readCandidateFile, Outcome.bind_eq_ok] at h
  obtain ⟨pinned, _, hread⟩ := h
  obtain ⟨n, hnode, hkind, hbytes, hlimit⟩ := Directory.readDeclaredFile_eq_ok hread
  rw [htree] at hnode
  have hthere : fs.node (root ++ components path) = some n := hnode
  refine ⟨?_, hlimit⟩
  simp only [Fs.readFile, hthere, hkind, hbytes, if_true]

theorem moved_eq_ok {a b : Path} (h : moved fs a b = .ok fs') :
    ∃ hmove : fs.CanMove a b, fs' = fs.moveTree a b hmove.parent hmove.apart := by
  unfold moved at h
  split at h
  · next hmove => exact ⟨hmove, (Except.ok.inj h).symm⟩
  · cases h

theorem changed_cases {P : Except IoError Unit → Fs → Prop} {x : Except IoError Fs}
    (hok : ∀ fs', x = .ok fs' → P (.ok ()) fs') (herror : ∀ e, x = .error e → P (.error e) fs) :
    P (changed fs x).1 (changed fs x).2 := by
  cases x with
  | ok fs' => exact hok fs' rfl
  | error e => exact herror e rfl

/-- An operation that only looks. -/
theorem performs_look {site : Site} {op : Op} {y : Except op.Error op.Value}
    (hok : ∀ v, y = .ok v → Succeeds fs op v fs) (herror : Fails True fs op fs) :
    Performs True fs ⟨site, op⟩ y fs := by
  cases y with
  | ok v => exact hok v rfl
  | error e => exact herror

/-- Every answer is an effect that the calls allow, with removals that never fail. -/
theorem performs_faultless (umask : Nat) (fs : Fs) (c : Call) :
    Performs True fs c (faultless umask fs c).1 (faultless umask fs c).2 := by
  obtain ⟨site, op⟩ := c
  cases op with
  | symlinkMetadata p => exact performs_look (fun _ h => ⟨h, rfl⟩) rfl
  | fileMetadata p => exact performs_look (fun _ h => ⟨h, rfl⟩) rfl
  | syncAll p => exact performs_look (fun _ h => ⟨h, rfl⟩) rfl
  | syncDirectory p => exact performs_look (fun _ h => ⟨h, rfl⟩) rfl
  | openSource root => exact performs_look (fun _ _ => rfl) rfl
  | load root manifest allowed => exact performs_look (fun _ _ => rfl) rfl
  | readExactWithLimit root path maximum =>
      apply performs_look
      · intro bytes h
        obtain ⟨hread, hlimit⟩ := viewed_read h
        exact ⟨hread, hlimit, rfl⟩
      · rfl
  | createDir p mode =>
      exact changed_cases (P := Performs True fs ⟨site, .createDir p mode⟩)
        (fun _ h => ⟨umask, h⟩) fun _ _ => rfl
  | setPermissions p mode =>
      exact changed_cases (P := Performs True fs ⟨site, .setPermissions p mode⟩)
        (fun _ h => h) fun _ _ => rfl
  | createNew p mode =>
      exact changed_cases (P := Performs True fs ⟨site, .createNew p mode⟩)
        (fun _ h => ⟨umask, h⟩) fun _ _ => rfl
  | writeAll p bytes =>
      exact changed_cases (P := Performs True fs ⟨site, .writeAll p bytes⟩)
        (fun _ h => h) fun _ _ => .inl rfl
  | rename a b =>
      exact changed_cases (P := Performs True fs ⟨site, .rename a b⟩)
        (fun _ h => moved_eq_ok h) fun _ _ => rfl
  | removeFile p =>
      apply changed_cases (P := Performs True fs ⟨site, .removeFile p⟩) (fun _ h => h)
      intro e h
      refine ⟨rfl, ?_⟩
      intro _ fs' hok
      rw [h] at hok
      cases hok
  | removeDirAll p =>
      apply changed_cases (P := Performs True fs ⟨site, .removeDirAll p⟩) (fun _ h => h)
      intro e h
      refine ⟨⟨fun _ _ => rfl, fun _ => .inr rfl⟩, ?_⟩
      intro _
      refine ⟨rfl, ?_⟩
      intro fs' hok
      rw [h] at hok
      cases hok

/-! ## What an operation touches -/

/-- The trees that an operation may change. -/
def Op.touches : Op → List Path
  | .createDir p _ => [p]
  | .setPermissions p _ => [p]
  | .createNew p _ => [p]
  | .writeAll p _ => [p]
  | .rename a b => [a, b]
  | .removeFile p => [p]
  | .removeDirAll p => [p]
  | _ => []

theorem changed_snd {x : Except IoError Fs} {q : Path}
    (h : ∀ fs', x = .ok fs' → fs'.node q = fs.node q) : (changed fs x).2.node q = fs.node q := by
  cases x with
  | ok fs' => exact h fs' rfl
  | error e => rfl

/-- Outside these trees nothing changes. -/
theorem answer_frame (umask : Nat) (fs : Fs) (op : Op) {q : Path}
    (h : ∀ p ∈ op.touches, ¬ p <+: q) : (answer umask fs op).2.node q = fs.node q := by
  cases op with
  | createDir p mode =>
      apply changed_snd
      intro fs' hok
      obtain ⟨_, n, _, _, hnode⟩ := Fs.createNode_eq_ok hok
      exact Fs.sameOutside_update hnode q (h p List.mem_cons_self)
  | setPermissions p mode =>
      apply changed_snd
      intro fs' hok
      obtain ⟨n, _, hnode⟩ := Fs.setMode_eq_ok hok
      exact Fs.sameOutside_update hnode q (h p List.mem_cons_self)
  | createNew p mode =>
      apply changed_snd
      intro fs' hok
      obtain ⟨_, n, _, _, hnode⟩ := Fs.createNode_eq_ok hok
      exact Fs.sameOutside_update hnode q (h p List.mem_cons_self)
  | writeAll p bytes =>
      apply changed_snd
      intro fs' hok
      obtain ⟨n, _, _, hnode⟩ := Fs.append_eq_ok hok
      exact Fs.sameOutside_update hnode q (h p List.mem_cons_self)
  | rename a b =>
      apply changed_snd
      intro fs' hok
      obtain ⟨hmove, rfl⟩ := moved_eq_ok hok
      exact Fs.moveTree_outside fs _ _ (h a List.mem_cons_self)
        (h b (List.mem_cons_of_mem a List.mem_cons_self))
  | removeFile p =>
      apply changed_snd
      intro fs' hok
      obtain rfl := Fs.removeFile_eq_ok hok
      exact Fs.sameOutside_removeTree fs p q (h p List.mem_cons_self)
  | removeDirAll p =>
      apply changed_snd
      intro fs' hok
      obtain rfl := Fs.removeDirAll_eq_ok hok
      exact Fs.sameOutside_removeTree fs p q (h p List.mem_cons_self)
  | symlinkMetadata p => rfl
  | syncAll p => rfl
  | fileMetadata p => rfl
  | syncDirectory p => rfl
  | openSource root => rfl
  | load root manifest allowed => rfl
  | readExactWithLimit root path maximum => rfl

end Invokrum.Install
