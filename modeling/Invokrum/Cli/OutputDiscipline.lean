import Invokrum.Base.Shared
import Invokrum.Cli.OutputRuns

/-!
# The discipline of a safe write

Which calls a write makes behind which answers: it creates behind all checks
only, writes to what it has created, commits behind a valid look at it, and
removes its temporary place, or a target that it has linked.
-/

namespace Invokrum.Cli

open Programs Invokrum.Inodes
open Text (Bytes)

/-- A call of `write_atomic` by some process. A path names the root at its head only. -/
structure Writer where
  proc : Process
  pid : Nat
  sequence : Nat
  path : PathBuf
  bytes : Bytes
  force : Bool
  rooted : Component.rootDir ∉ path.tail

abbrev History := List (Event (Call Site) Reply)

namespace Writer

def program (w : Writer) : Output Unit :=
  writeAtomic w.pid w.sequence w.path w.bytes w.force

/-- The temporary place of the writer, for a target. -/
def temporary (w : Writer) (target : Place) : Place := temporaryOf w.pid w.sequence target

end Writer

variable {w : Writer} {t t' : History}

/-! ## What has been seen -/

/-- The components behind `current` have been seen to be directories. -/
def Walked (t : History) (current : Place) : PathBuf → Prop
  | [] => True
  | .rootDir :: rest | .curDir :: rest => Walked t current rest
  | .parentDir :: _ => False
  | .normal segment :: rest =>
      (∃ m, Saw t (.symlinkMetadata (absolute (current ++ [segment]))) (.ok m) ∧
        m.kind = .directory) ∧ Walked t (current ++ [segment]) rest

theorem Walked.mono {path : PathBuf} {current : Place} (h : Walked t current path)
    (hpast : t <+: t') : Walked t' current path := by
  induction path generalizing current with
  | nil => trivial
  | cons component rest ih =>
      cases component with
      | rootDir => exact ih h
      | curDir => exact ih h
      | parentDir => exact h.elim
      | normal segment =>
          obtain ⟨⟨m, hsaw, hkind⟩, hrest⟩ := h
          exact ⟨⟨m, hsaw.mono hpast, hkind⟩, ih hrest⟩

/-- The walk has started at the root, or in the current directory. -/
def Started (t : History) (path : PathBuf) (start : Place) : Prop :=
  if path.head? = some .rootDir then start = [] else Saw t .currentDir (.ok start)

/-- Nothing has been seen at the target, or a regular file that may be replaced. -/
def SeenWritable (t : History) (target : Place) (force : Bool) : Prop :=
  Saw t (.symlinkMetadata (absolute target)) (.error .notFound) ∨
    force = true ∧ ∃ m, Saw t (.symlinkMetadata (absolute target)) (.ok m) ∧ m.kind = .file

/-- All checks of the writer have passed. -/
structure Checked (w : Writer) (t : History) (parent : Place) (name : Name) : Prop where
  valid : validatedFileName w.path = .ok name
  walked : ∃ start, Started t w.path.dropLast start ∧ Walked t start w.path.dropLast
  canonical : Saw t (.canonicalize w.path.dropLast) (.ok parent)
  pinned : ∃ m, Saw t (.symlinkMetadata (absolute parent)) (.ok m) ∧ m.kind = .directory
  writable : SeenWritable t (parent ++ [name]) w.force

/-- A created file has been seen to be private. -/
def Validated (t : History) : Prop :=
  ∃ n m, Created t n ∧ Saw t (.descriptorMetadata n) (.ok m) ∧ m.mode &&& 0o777 = privateMode

/-- The target has been linked. -/
def LinkedTo (t : History) (target : Place) : Prop :=
  ∃ src, Saw t (.hardLink src (absolute target)) (.ok ())

theorem LinkedTo.mono {target : Place} (h : LinkedTo t target) (hpast : t <+: t') :
    LinkedTo t' target := by
  obtain ⟨src, hsaw⟩ := h
  exact ⟨src, hsaw.mono hpast⟩

theorem Started.mono {path : PathBuf} {start : Place} (h : Started t path start)
    (hpast : t <+: t') : Started t' path start := by
  unfold Started at h ⊢
  split_ifs at h ⊢
  · exact h
  · exact h.mono hpast

theorem SeenWritable.mono {target : Place} {force : Bool} (h : SeenWritable t target force)
    (hpast : t <+: t') : SeenWritable t' target force := by
  rcases h with hnone | ⟨hforce, m, hsaw, hkind⟩
  · exact .inl (hnone.mono hpast)
  · exact .inr ⟨hforce, m, hsaw.mono hpast, hkind⟩

theorem Checked.mono {parent : Place} {name : Name} (h : Checked w t parent name)
    (hpast : t <+: t') : Checked w t' parent name := by
  obtain ⟨start, hstarted, hwalked⟩ := h.walked
  obtain ⟨m, hpinned, hkind⟩ := h.pinned
  exact ⟨h.valid, ⟨start, hstarted.mono hpast, hwalked.mono hpast⟩, h.canonical.mono hpast,
    ⟨m, hpinned.mono hpast, hkind⟩, h.writable.mono hpast⟩

theorem Validated.mono (h : Validated t) (hpast : t <+: t') : Validated t' := by
  obtain ⟨n, m, hcreated, hsaw, hmode⟩ := h
  exact ⟨n, m, hcreated.mono hpast, hsaw.mono hpast, hmode⟩

/-! ## Allowed calls -/

/-- What the writer may call behind the events `t`. -/
def Writer.Allowed (w : Writer) (t : History) (c : Call Site) : Prop :=
  match c.op with
  | .createNew path mode => ∃ parent name, Checked w t parent name ∧
      path = absolute (parent ++ [temporaryName name w.pid w.sequence]) ∧ mode = privateMode
  | .writeAll n _ => Created t n
  | .descriptorMetadata n => Created t n
  | .rename src dst | .hardLink src dst => ∃ parent name, Checked w t parent name ∧ Validated t ∧
      src = absolute (parent ++ [temporaryName name w.pid w.sequence]) ∧
      dst = absolute (parent ++ [name])
  | .removeFile path => ∃ parent name, Checked w t parent name ∧
      (path = absolute (parent ++ [temporaryName name w.pid w.sequence]) ∨
        Validated t ∧ LinkedTo t (parent ++ [name]) ∧ path = absolute (parent ++ [name]))
  | _ => True

/-- From `t` the program makes allowed calls only. -/
abbrev Disciplined {α : Type} (w : Writer) (Ok : History → α → Prop) (Err : History → Prop)
    (t : History) (x : Output α) : Prop :=
  (recalling w.Allowed).Meets Ok Err t x

section

variable {α : Type} {Ok : History → α → Prop} {Err : History → Prop} {site : Site} {op : Op}

theorem disciplined_call {wrap : IoError → OutputError} {f : op.Value → Output α}
    (hallowed : w.Allowed t ⟨site, op⟩) (herror : ∀ t', t <+: t' → Err t')
    (hf : ∀ v t', t <+: t' → Saw t' op (.ok v) → Disciplined w Ok Err t' (f v)) :
    Disciplined w Ok Err t (call site op wrap >>= f) := by
  have hcall : Disciplined w (fun t' v => t <+: t' ∧ Saw t' op (.ok v)) Err t
      (call site op wrap) := by
    unfold call
    exact Protocol.Meets.attempt (P := recalling w.Allowed) hallowed
      (fun _ => ⟨List.prefix_append t _, saw_concat⟩) fun _ => herror _ (List.prefix_append t _)
  apply Protocol.Meets.bind hcall
  intro t' v h
  exact hf v t' h.1 h.2

theorem disciplined_request {f : Except IoError op.Value → Output α}
    (hallowed : w.Allowed t ⟨site, op⟩)
    (hf : ∀ r t', t <+: t' → Saw t' op r → Disciplined w Ok Err t' (f r)) :
    Disciplined w Ok Err t (request site op >>= f) := by
  have hcall : Disciplined w (fun t' r => t <+: t' ∧ Saw t' op r) Err t (request site op) := by
    unfold request
    exact Protocol.Meets.reply (P := recalling w.Allowed) hallowed
      fun _ => ⟨List.prefix_append t _, saw_concat⟩
  apply Protocol.Meets.bind hcall
  intro t' r h
  exact hf r t' h.1 h.2

/-- A part that keeps the evidence, in front of the rest. -/
theorem disciplined_bind {β : Type} {Mid : History → α → Prop} {Ok : History → β → Prop}
    {x : Output α} {f : α → Output β}
    (hx : Disciplined w (fun t' a => t <+: t' ∧ Mid t' a) Err t x)
    (hf : ∀ a t', t <+: t' → Mid t' a → Disciplined w Ok Err t' (f a)) :
    Disciplined w Ok Err t (x >>= f) := by
  apply Protocol.Meets.bind hx
  intro t' a h
  exact hf a t' h.1 h.2

end

/-! ## The checks -/

theorem disciplined_walkComponents (path : PathBuf) (current : Place) (t : History) :
    Disciplined w (fun t' _ => t <+: t' ∧ Walked t' current path) (fun _ => True) t
      (walkComponents current path) := by
  induction path generalizing current t with
  | nil => exact Protocol.Meets.pure ⟨List.prefix_refl t, trivial⟩
  | cons component rest ih =>
      cases component with
      | rootDir => exact ih current t
      | curDir => exact ih current t
      | parentDir => exact Protocol.Meets.throw trivial
      | normal segment =>
          refine disciplined_call ?_ (fun _ _ => trivial) ?_
          · trivial
          intro m t₁ hpast hsaw
          apply Protocol.Meets.bindThrowIf fun _ => trivial
          intro _
          apply Protocol.Meets.bindThrowIf fun _ => trivial
          intro hkind
          apply Protocol.Meets.mono _ (fun _ h => h) (ih (current ++ [segment]) t₁)
          intro t₂ _ h
          obtain ⟨hpast₂, hwalked⟩ := h
          exact ⟨hpast.trans hpast₂, ⟨m, hsaw.mono hpast₂, not_not.mp hkind⟩, hwalked⟩

theorem disciplined_rejectParentLinks (path : PathBuf) (t : History) :
    Disciplined w (fun t' _ => t <+: t' ∧ ∃ start, Started t' path start ∧ Walked t' start path)
      (fun _ => True) t (rejectParentLinks path) := by
  unfold rejectParentLinks
  by_cases hroot : path.head? = some .rootDir
  · rw [if_pos hroot]
    apply Protocol.Meets.mono _ (fun _ h => h) (disciplined_walkComponents path [] t)
    intro t' _ h
    exact ⟨h.1, [], by rw [Started, if_pos hroot], h.2⟩
  · rw [if_neg hroot]
    refine disciplined_call ?_ (fun _ _ => trivial) ?_
    · trivial
    intro start t₁ hpast hsaw
    apply Protocol.Meets.mono _ (fun _ h => h) (disciplined_walkComponents path start t₁)
    intro t' _ h
    refine ⟨hpast.trans h.1, start, ?_, h.2⟩
    unfold Started
    rw [if_neg hroot]
    exact hsaw.mono h.1

theorem disciplined_pinParent (parent : Place) (t : History) :
    Disciplined w (fun t' _ => t <+: t' ∧
        ∃ m, Saw t' (.symlinkMetadata (absolute parent)) (.ok m) ∧ m.kind = .directory)
      (fun _ => True) t (pinParent parent) := by
  refine disciplined_call ?_ (fun _ _ => trivial) ?_
  · trivial
  intro m t₁ hpast hsaw
  apply Protocol.Meets.bindThrowIf fun _ => trivial
  intro _
  apply Protocol.Meets.bindThrowIf fun _ => trivial
  intro hkind
  exact Protocol.Meets.pure ⟨hpast, m, hsaw, not_not.mp hkind⟩

theorem disciplined_checkTarget {Err : History → Prop} (site : Site) (target : Place)
    (force : Bool) (t : History) (herror : ∀ t', t <+: t' → Err t') :
    Disciplined w (fun t' _ => t <+: t' ∧ SeenWritable t' target force) Err t
      (checkTarget site target force) := by
  apply disciplined_request
  · trivial
  intro r t' hpast hsaw
  cases r with
  | ok m =>
      apply Protocol.Meets.bindThrowIf fun _ => herror t' hpast
      intro _
      apply Protocol.Meets.bindThrowIf fun _ => herror t' hpast
      intro hkind
      apply Protocol.Meets.throwIf _ fun _ => herror t' hpast
      intro hforce
      exact ⟨hpast, .inr ⟨by simpa using hforce, m, hsaw, not_not.mp hkind⟩⟩
  | error e =>
      cases e with
      | notFound => exact Protocol.Meets.pure ⟨hpast, .inl hsaw⟩
      | permissionDenied => exact Protocol.Meets.throw (herror t' hpast)
      | alreadyExists => exact Protocol.Meets.throw (herror t' hpast)
      | other => exact Protocol.Meets.throw (herror t' hpast)

/-! ## Staging and committing -/

section

variable {parent : Place} {name : Name} {site : Site} {staged : Metadata}

theorem disciplined_validateStagedMetadata {m : Metadata} :
    Disciplined w (fun t' _ => t <+: t' ∧ m.mode &&& 0o777 = privateMode) (fun t' => t <+: t') t
      (validateStagedMetadata m) := by
  apply Protocol.Meets.bindThrowIf fun _ => List.prefix_refl t
  intro _
  apply Protocol.Meets.throwIf _ fun _ => List.prefix_refl t
  intro hprivate
  rw [not_or, not_not] at hprivate
  exact ⟨List.prefix_refl t, hprivate.1⟩

theorem disciplined_stageFile (bytes : Bytes) (h : Checked w t parent name) :
    Disciplined w (fun t' _ => t <+: t' ∧ Validated t') (fun t' => t <+: t') t
      (stageFile (parent ++ [temporaryName name w.pid w.sequence]) bytes) := by
  apply disciplined_call
  · exact ⟨parent, name, h, rfl, rfl⟩
  · exact fun _ h => h
  intro n t₁ h₁ hcreate
  have hcreated : Created t₁ n := ⟨_, _, hcreate⟩
  apply disciplined_call
  · exact hcreated
  · exact fun _ h => h₁.trans h
  intro _ t₂ h₂ _
  apply disciplined_call
  · trivial
  · exact fun _ h => (h₁.trans h₂).trans h
  intro _ t₃ h₃ _
  have hcreated₃ := (hcreated.mono h₂).mono h₃
  have hpast₃ := (h₁.trans h₂).trans h₃
  apply disciplined_call
  · exact hcreated₃
  · exact fun _ h => hpast₃.trans h
  intro m t₄ h₄ hmetadata
  apply Protocol.Meets.bind (Protocol.Meets.mono (fun _ _ h => h)
    (fun _ h => (hpast₃.trans h₄).trans h) disciplined_validateStagedMetadata)
  intro t₅ _ h
  obtain ⟨h₅, hmode⟩ := h
  exact Protocol.Meets.pure ⟨(hpast₃.trans h₄).trans h₅, n, m,
    (hcreated₃.mono h₄).mono h₅, hmetadata.mono h₅, hmode⟩

theorem disciplined_verifyParentIdentity {pinned : Metadata} {Err : History → Prop}
    (herror : ∀ t', t <+: t' → Err t') :
    Disciplined w (fun t' _ => t <+: t') Err t (verifyParentIdentity site parent pinned) := by
  apply disciplined_call
  · trivial
  · exact herror
  intro current t' hpast _
  exact Protocol.Meets.throwIf (fun _ => hpast) fun _ => herror t' hpast

theorem disciplined_validateCommittedTarget {target : Place} {Err : History → Prop}
    (herror : ∀ t', t <+: t' → Err t') :
    Disciplined w (fun t' _ => t <+: t') Err t (validateCommittedTarget site target staged) := by
  apply disciplined_call
  · trivial
  · exact herror
  intro metadata t' hpast _
  apply Protocol.Meets.bindThrowIf fun _ => herror t' hpast
  intro _
  apply Protocol.Meets.bindThrowIf fun _ => herror t' hpast
  intro _
  exact Protocol.Meets.throwIf (fun _ => hpast) fun _ => herror t' hpast

theorem disciplined_commitReplace (h : Checked w t parent name) (hvalid : Validated t) :
    Disciplined w (fun _ _ => True) (fun t' => t <+: t') t
      (commitReplace (parent ++ [temporaryName name w.pid w.sequence]) (parent ++ [name])
        staged) := by
  apply disciplined_bind (disciplined_checkTarget .commit (parent ++ [name]) true t fun _ h => h)
  intro _ t₁ h₁ _
  apply disciplined_call
  · exact ⟨parent, name, h.mono h₁, hvalid.mono h₁, rfl, rfl⟩
  · exact fun _ h => h₁.trans h
  intro _ t₂ h₂ _
  exact Protocol.Meets.mono (fun _ _ _ => trivial) (fun _ h => h)
    (disciplined_validateCommittedTarget fun _ h => (h₁.trans h₂).trans h)

theorem disciplined_dropGuard {path : Place} (hallowed : w.Allowed t
      ⟨.cleanup, .removeFile (absolute path)⟩) :
    Disciplined w (fun t' _ => t <+: t') (fun t' => t <+: t') t (dropGuard path) := by
  apply disciplined_request hallowed
  intro _ t' hpast _
  exact Protocol.Meets.pure hpast

theorem disciplined_dropGuardIfIdentity (h : Checked w t parent name) (hvalid : Validated t)
    (hlinked : LinkedTo t (parent ++ [name])) :
    Disciplined w (fun t' _ => t <+: t') (fun t' => t <+: t') t
      (dropGuardIfIdentity (parent ++ [name]) staged) := by
  apply disciplined_request
  · trivial
  intro r t₁ h₁ _
  cases r with
  | ok metadata =>
      by_cases hsame : sameIdentity metadata staged = true
      · simp only [hsame, if_true]
        apply Protocol.Meets.mono (fun _ _ h => h₁.trans h) fun _ h => h₁.trans h
        exact disciplined_dropGuard ⟨parent, name, h.mono h₁, .inr ⟨hvalid.mono h₁,
          hlinked.mono h₁, rfl⟩⟩
      · simp only [hsame]
        exact Protocol.Meets.pure h₁
  | error e => exact Protocol.Meets.pure h₁

theorem disciplined_commitNoClobber (h : Checked w t parent name) (hvalid : Validated t) :
    Disciplined w (fun _ _ => True) (fun t' => t <+: t') t
      (commitNoClobber (parent ++ [temporaryName name w.pid w.sequence]) (parent ++ [name])
        staged) := by
  apply disciplined_request
  · exact ⟨parent, name, h, hvalid, rfl, rfl⟩
  intro r t₁ h₁ hlink
  cases r with
  | ok _ =>
      have hlinked : LinkedTo t₁ (parent ++ [name]) := ⟨_, hlink⟩
      have hbody : Disciplined w (fun _ _ => True) (fun t' => t₁ <+: t') t₁ (do
          call .commit (.removeFile (absolute
            (parent ++ [temporaryName name w.pid w.sequence]))) fun _ => .io
          validateCommittedTarget .commit (parent ++ [name]) staged) := by
        apply disciplined_call
        · exact ⟨parent, name, h.mono h₁, .inl rfl⟩
        · exact fun _ h => h
        intro _ t₂ h₂ _
        exact Protocol.Meets.mono (fun _ _ _ => trivial) (fun _ h => h)
          (disciplined_validateCommittedTarget fun _ h => h₂.trans h)
      apply Protocol.Meets.onError hbody
      · intro t₂ h₂
        apply Protocol.Meets.mono (fun _ _ h => (h₁.trans h₂).trans h)
          fun _ h => (h₁.trans h₂).trans h
        exact disciplined_dropGuardIfIdentity (h.mono (h₁.trans h₂)) (hvalid.mono (h₁.trans h₂))
          (hlinked.mono h₂)
  | error e =>
      cases e with
      | alreadyExists => exact Protocol.Meets.throw h₁
      | notFound => exact Protocol.Meets.throw h₁
      | permissionDenied => exact Protocol.Meets.throw h₁
      | other => exact Protocol.Meets.throw h₁

theorem disciplined_syncDirectory :
    Disciplined w (fun _ _ => True) (fun _ => True) t (syncDirectory parent) := by
  apply disciplined_call
  · trivial
  · exact fun _ _ => trivial
  intro (directory : Nat) t₁ _ _
  unfold call
  exact Protocol.Meets.attempt (P := recalling w.Allowed) (c := ⟨.settle, .syncAll directory⟩)
    trivial (fun _ => trivial) fun _ => trivial

theorem disciplined_stageAndCommit {pinned : Metadata} (bytes : Bytes) (force : Bool)
    (h : Checked w t parent name) :
    Disciplined w (fun _ _ => True) (fun t' => t <+: t') t
      (stageAndCommit parent (parent ++ [name]) (parent ++ [temporaryName name w.pid w.sequence])
        pinned bytes force) := by
  apply disciplined_bind (disciplined_stageFile bytes h)
  intro staged t₁ h₁ hvalid
  apply Protocol.Meets.bind (disciplined_verifyParentIdentity fun _ h => h₁.trans h)
  intro t₂ _ h₂
  have hpast := h₁.trans h₂
  cases force with
  | true =>
      exact Protocol.Meets.mono (fun _ _ h => h) (fun _ h => hpast.trans h)
        (disciplined_commitReplace (h.mono hpast) (hvalid.mono h₂))
  | false =>
      exact Protocol.Meets.mono (fun _ _ h => h) (fun _ h => hpast.trans h)
        (disciplined_commitNoClobber (h.mono hpast) (hvalid.mono h₂))

theorem disciplined_publish {pinned : Metadata} (bytes : Bytes) (force : Bool)
    (h : Checked w t parent name) :
    Disciplined w (fun _ _ => True) (fun _ => True) t
      (publish parent (parent ++ [name]) (parent ++ [temporaryName name w.pid w.sequence]) pinned
        bytes force) := by
  have hguarded : Disciplined w (fun _ _ => True) (fun _ => True) t
      (Fallible.onError (stageAndCommit parent (parent ++ [name])
        (parent ++ [temporaryName name w.pid w.sequence]) pinned bytes force)
        (dropGuard (parent ++ [temporaryName name w.pid w.sequence]))) := by
    apply Protocol.Meets.onError (disciplined_stageAndCommit bytes force h)
    · intro t₁ h₁
      exact Protocol.Meets.mono (fun _ _ _ => trivial) (fun _ _ => trivial)
        (disciplined_dropGuard ⟨parent, name, h.mono h₁, .inl rfl⟩)
  apply Protocol.Meets.bind hguarded
  intro t₁ _ _
  apply Protocol.Meets.bind (disciplined_verifyParentIdentity fun _ _ => trivial)
  exact fun _ _ _ => disciplined_syncDirectory

end

/-- The whole write obeys. -/
theorem disciplined_program (w : Writer) :
    Disciplined w (fun _ _ => True) (fun _ => True) [] w.program := by
  apply Protocol.Meets.bindExcept trivial
  intro name hname
  have hparent : pathParent w.path = some w.path.dropLast := by
    rw [pathParent, getLast?_of_validatedFileName hname]
  rw [hparent, Option.getD_some]
  apply disciplined_bind (disciplined_rejectParentLinks w.path.dropLast [])
  intro _ t₁ _ hwalked
  apply disciplined_call
  · trivial
  · exact fun _ _ => trivial
  intro (parent : Place) t₂ h₂ hcanonical
  apply disciplined_bind (disciplined_pinParent parent t₂)
  intro pinned t₃ h₃ hpinned
  apply disciplined_bind (disciplined_checkTarget .prepare (parent ++ [name]) w.force t₃
    fun _ _ => trivial)
  intro _ t₄ h₄ hwritable
  apply disciplined_publish
  obtain ⟨start, hstarted, hwalk⟩ := hwalked
  obtain ⟨m, hsaw, hkind⟩ := hpinned
  have hpast := (h₂.trans h₃).trans h₄
  exact ⟨hname, ⟨start, hstarted.mono hpast, hwalk.mono hpast⟩,
    hcanonical.mono (h₃.trans h₄), ⟨m, hsaw.mono h₄, hkind⟩, hwritable⟩

end Invokrum.Cli
