import Invokrum.Cli.Output

/-!
# The checks of a safe write

The checks change nothing. Where they pass, the disk as found has a directory
for the target, no link on the way to it, and at the target nothing or, with
`--force`, a regular file.
-/

namespace Invokrum.Cli

open Programs Invokrum.Inodes
open Text (Bytes)

/-- A call failed from which there is no way back. -/
def Late (t : List (Event (Call Site) Reply)) : Prop :=
  ∃ e ∈ t, (e.call.site = .settle ∨ e.call.site = .rollback) ∧ ∃ error, e.reply = .error error

theorem Late.append {t : List (Event (Call Site) Reply)} (h : Late t)
    (t' : List (Event (Call Site) Reply)) : Late (t ++ t') := by
  obtain ⟨e, he, hsite⟩ := h
  exact ⟨e, List.mem_append_left t' he, hsite⟩

theorem late_concat {t : List (Event (Call Site) Reply)} {site : Site} {op : Op} {error : IoError}
    (hsite : site = .settle ∨ site = .rollback) : Late (t ++ [⟨⟨site, op⟩, .error error⟩]) :=
  ⟨_, List.mem_append_right t List.mem_cons_self, hsite, error, rfl⟩

section

variable {proc : Process} {faulty : Call Site → IoError → Prop} {Inv : Disk → Prop} {d : Disk}
  {t : List (Event (Call Site) Reply)} {α : Type}
  {Ok : α → Disk → List (Event (Call Site) Reply) → Prop}
  {Err : Disk → List (Event (Call Site) Reply) → Prop} {site : Site} {op : Op}

/-! ## Observing calls -/

theorem bindObserve {wrap : IoError → OutputError} {f : op.Value → Output α}
    (hop : op.observes = true) (hinv : Inv d)
    (hf : ∀ v, Performs proc faulty d (⟨site, op⟩ : Call Site) (.ok v) d →
      Ends (Performs proc faulty) Inv Ok Err d (t ++ [⟨⟨site, op⟩, .ok v⟩]) (f v))
    (herror : ∀ e, Err d (t ++ [⟨⟨site, op⟩, .error e⟩])) :
    Ends (Performs proc faulty) Inv Ok Err d t (call site op wrap >>= f) := by
  apply Ends.bindAttempt hinv
  · intro v d' h
    obtain rfl := h.unchanged hop
    exact hf v h
  · intro e d' h
    obtain rfl := h.unchanged hop
    exact ⟨hinv, herror e⟩

/-- A last call that changes nothing. -/
theorem lastObserve {wrap : IoError → OutputError}
    {Ok : op.Value → Disk → List (Event (Call Site) Reply) → Prop} (hop : op.observes = true)
    (hinv : Inv d)
    (hok : ∀ v, Performs proc faulty d (⟨site, op⟩ : Call Site) (.ok v) d →
      Ok v d (t ++ [⟨⟨site, op⟩, .ok v⟩]))
    (herror : ∀ e, Err d (t ++ [⟨⟨site, op⟩, .error e⟩])) :
    Ends (Performs proc faulty) Inv Ok Err d t (call site op wrap) := by
  refine ⟨hinv, ?_⟩
  intro r d' h
  obtain rfl := h.unchanged hop
  cases r with
  | ok v => exact ⟨hinv, hok v h⟩
  | error e => exact ⟨hinv, herror e⟩

theorem bindRequest {f : Except IoError op.Value → Output α} (hop : op.observes = true)
    (hinv : Inv d)
    (hf : ∀ r, Performs proc faulty d (⟨site, op⟩ : Call Site) r d →
      Ends (Performs proc faulty) Inv Ok Err d (t ++ [⟨⟨site, op⟩, r⟩]) (f r)) :
    Ends (Performs proc faulty) Inv Ok Err d t (request site op >>= f) := by
  apply Ends.bindReply hinv
  intro r d' h
  obtain rfl := h.unchanged hop
  exact hf r h

/-! ## Checks -/

/-- No call claims that an entry is missing which is there. -/
def Truthful (faulty : Call Site → IoError → Prop) : Prop :=
  ∀ c, ¬ faulty c .notFound

/-- The components behind `current` name directories, without links or `..`. -/
def Plain (d : Disk) (current : Place) : PathBuf → Prop
  | [] => True
  | .rootDir :: rest | .curDir :: rest => Plain d current rest
  | .parentDir :: _ => False
  | .normal segment :: rest =>
      d.IsDirectory (current ++ [segment]) ∧ Plain d (current ++ [segment]) rest

/-- Where the walk over the components of a path starts. -/
def startOf (cwd : Place) (path : PathBuf) : Place :=
  if path.head? = some .rootDir then [] else cwd

/-- What may stand at the target. -/
def Writable (d : Disk) (target : Place) (force : Bool) : Prop :=
  d.entry target = none ∨
    force = true ∧ ∃ i, d.entry target = some i ∧ (d.inode i).content.kind = .file

/-- A part of the program that changes nothing, and where it passes `P` holds of the disk. -/
def Still (proc : Process) (faulty : Call Site → IoError → Prop) (Inv P : Disk → Prop)
    (x : Output α) : Prop :=
  ∀ d t, Inv d →
    Ends (Performs proc faulty) Inv (fun _ d' _ => d' = d ∧ P d) (fun d' _ => d' = d) d t x

theorem still_walkComponents (parent : PathBuf) (current : Place) :
    ∀ d t, Inv d → current = [] ∨ d.IsDirectory current →
      Ends (Performs proc faulty) Inv (fun _ d' _ => d' = d ∧ Plain d current parent)
        (fun d' _ => d' = d) d t (walkComponents current parent) := by
  induction parent generalizing current with
  | nil => exact fun d t hinv _ => Ends.pure hinv ⟨rfl, trivial⟩
  | cons component rest ih =>
      cases component with
      | rootDir => exact ih current
      | curDir => exact ih current
      | parentDir => exact fun d t hinv _ => Ends.throw hinv rfl
      | normal segment =>
          intro d t hinv hcurrent
          apply bindObserve rfl hinv
          · intro metadata h
            apply Ends.bindThrowIf hinv fun _ => rfl
            intro _
            apply Ends.bindThrowIf hinv fun _ => rfl
            intro hkind
            have hdir : d.IsDirectory (current ++ [segment]) :=
              h.isDirectory_child hcurrent (not_not.mp hkind)
            apply Ends.mono _ (fun _ _ h => h) (ih _ d _ hinv (.inr hdir))
            rintro _ d' t' ⟨rfl, hplain⟩
            exact ⟨rfl, hdir, hplain⟩
          · exact fun _ => rfl

theorem still_rejectParentLinks (parent : PathBuf) :
    Still proc faulty Inv (fun d => Plain d (startOf proc.cwd parent) parent)
      (rejectParentLinks parent) := by
  intro d t hinv
  unfold rejectParentLinks startOf
  by_cases hroot : parent.head? = some .rootDir
  · rw [if_pos hroot, if_pos hroot]
    exact still_walkComponents parent [] d t hinv (.inl rfl)
  · rw [if_neg hroot, if_neg hroot]
    apply bindObserve rfl hinv
    · intro current h
      have hanswer := h.answers.2
      by_cases hcwd : d.IsDirectory proc.cwd
      · rw [if_pos hcwd] at hanswer
        cases hanswer
        exact still_walkComponents parent proc.cwd d _ hinv (.inr hcwd)
      · rw [if_neg hcwd] at hanswer
        cases hanswer
    · exact fun _ => rfl

theorem still_checkTarget {parent : Place} {name : Name} {force : Bool} (hinv : Inv d)
    (hdir : d.IsDirectory parent) :
    Ends (Performs proc faulty) Inv
      (fun _ d' _ => d' = d ∧ (Truthful faulty → Writable d (parent ++ [name]) force))
      (fun d' _ => d' = d) d t (checkTarget site (parent ++ [name]) force) := by
  apply bindRequest rfl hinv
  intro r h
  cases r with
  | ok metadata =>
      obtain ⟨i, hi, rfl⟩ := h.symlinkMetadata_child hdir
      apply Ends.bindThrowIf hinv fun _ => rfl
      intro _
      apply Ends.bindThrowIf hinv fun _ => rfl
      intro hkind
      apply Ends.throwIf hinv _ fun _ => rfl
      intro hforce
      exact ⟨rfl, fun _ => .inr ⟨by simpa using hforce, i, hi, not_not.mp hkind⟩⟩
  | error e =>
      cases e with
      | notFound =>
          refine Ends.pure hinv ⟨rfl, fun htruthful => .inl ?_⟩
          exact h.absent_child (htruthful _)
      | permissionDenied => exact Ends.throw hinv rfl
      | alreadyExists => exact Ends.throw hinv rfl
      | other => exact Ends.throw hinv rfl

/-- What `pin_parent` learns. -/
theorem ends_pinParent {parent : Place} (hinv : Inv d) (hentry : d.entry parent ≠ none) :
    Ends (Performs proc faulty) Inv
      (fun pinned d' _ => d' = d ∧ d.IsDirectory parent ∧
        ∃ i, d.entry parent = some i ∧ pinned = d.stat i)
      (fun d' _ => d' = d) d t (pinParent parent) := by
  apply bindObserve rfl hinv
  · intro metadata h
    obtain ⟨i, hi, rfl⟩ := h.symlinkMetadata_place hentry
    apply Ends.bindThrowIf hinv fun _ => rfl
    intro _
    apply Ends.bindThrowIf hinv fun _ => rfl
    intro hkind
    have hdir : (d.inode i).content = .directory := by
      cases hcontent : (d.inode i).content <;>
        simp [Disk.stat, hcontent, Content.kind] at hkind ⊢
    exact Ends.pure hinv ⟨rfl, ⟨i, hi, hdir⟩, i, hi, rfl⟩
  · exact fun _ => rfl

/-- The parent is what was pinned, so only the call itself can fail. -/
theorem ends_verifyParentIdentity {parent : Place} {pinned : Metadata} {i : Nat} (hinv : Inv d)
    (hentry : d.entry parent = some i) (hdir : (d.inode i).content = .directory)
    (hinode : pinned.inode = i) (hdevice : pinned.device = (d.inode i).device) :
    Ends (Performs proc faulty) Inv (fun _ d' _ => d' = d)
      (fun d' t' => d' = d ∧ (site = .settle → Late t')) d t
      (verifyParentIdentity site parent pinned) := by
  apply bindObserve rfl hinv
  · intro current h
    have hsome : d.entry parent ≠ none := by
      rw [hentry]
      exact Option.some_ne_none i
    obtain ⟨j, hj, rfl⟩ := h.symlinkMetadata_place hsome
    obtain rfl := Option.some.inj (hentry.symm.trans hj)
    apply Ends.throwIf hinv fun _ => rfl
    intro hchanged
    simp [Disk.stat, hdir, Content.kind, sameIdentity, hinode, hdevice] at hchanged
  · exact fun e => ⟨rfl, fun hsite => late_concat (.inl hsite)⟩

/-! ## All checks -/

/-- What the checks accept, the disk being as found. -/
structure Accepts (d : Disk) (cwd : Place) (path : PathBuf) (force : Bool) : Prop where
  name : ∃ name, validatedFileName path = .ok name
  relative : path.dropLast ≠ []
  plain : Plain d (startOf cwd path.dropLast) path.dropLast
  target : ∃ target, d.locate cwd path = .ok target ∧ Writable d target force

theorem getLast?_of_validatedFileName {path : PathBuf} {name : Name}
    (h : validatedFileName path = .ok name) : path.getLast? = some (.normal name) := by
  unfold validatedFileName pathFileName at h
  split at h
  · next heq =>
      split at heq
      · split_ifs at h
        cases heq
        cases h
        assumption
      · cases heq
  · cases h

/-- Behind the checks the disk is as found, and the target's directory is pinned. -/
theorem ends_writeAtomic {d₀ : Disk} {Ok : Unit → Disk → List (Event (Call Site) Reply) → Prop}
    {pid sequence : Nat} {path : PathBuf} {bytes : Bytes} {force : Bool} (hinv : Inv d₀)
    (herror : ∀ t, Err d₀ t)
    (hpublish : ∀ parent name i t, d₀.locate proc.cwd path = .ok (parent ++ [name]) →
      (Truthful faulty → Accepts d₀ proc.cwd path force) → d₀.IsDirectory parent →
      d₀.entry parent = some i →
      Ends (Performs proc faulty) Inv Ok Err d₀ t
        (publish parent (parent ++ [name]) (parent ++ [temporaryName name pid sequence])
          (d₀.stat i) bytes force)) :
    Ends (Performs proc faulty) Inv Ok Err d₀ t (writeAtomic pid sequence path bytes force) := by
  apply Ends.bindExcept hinv (herror _)
  intro name hname
  have hlast := getLast?_of_validatedFileName hname
  have hparent : pathParent path = some path.dropLast := by
    rw [pathParent, hlast]
  rw [hparent, Option.getD_some]
  apply Ends.bind (still_rejectParentLinks _ d₀ t hinv)
  · rintro _ d t₁ _ ⟨rfl, hplain⟩
    apply bindObserve rfl hinv
    · intro (parent : Place) hcanonical
      have hlookup : d.lookup proc.cwd true path.dropLast = .ok parent := hcanonical.answers.2.symm
      apply Ends.bind (ends_pinParent hinv (Disk.lookup_entry hlookup))
      · rintro pinned d' t₂ _ ⟨rfl, hdir, i, hi, rfl⟩
        apply Ends.bind (still_checkTarget hinv hdir)
        · rintro _ d'' t₃ _ ⟨rfl, hwritable⟩
          have hne : path.dropLast ≠ [] := by
            intro hnil
            rw [hnil, Disk.lookup, if_pos rfl] at hlookup
            cases hlookup
          have hlocate : d''.locate proc.cwd path = .ok (parent ++ [name]) := by
            simp [Disk.locate, hlast, hne, hlookup, hdir]
          exact hpublish parent name i t₃ hlocate (fun htruthful =>
            ⟨⟨name, hname⟩, hne, hplain, _, hlocate, hwritable htruthful⟩) hdir hi
        · rintro d'' t₃ rfl
          exact herror t₃
      · rintro d' t₂ rfl
        exact herror t₂
    · exact fun _ => herror _
  · rintro d t₁ rfl
    exact herror t₁

end

end Invokrum.Cli
