import Invokrum.Base.Outcome
import Invokrum.Base.Safety
import Invokrum.Base.Syscalls

/-!
# Several processes on one file system

Every process runs its own program, and a call carries the mark of the process
that makes it. A discipline says which calls a process may make behind its own
events so far; what all disciplined calls keep, every interleaving keeps.
-/

namespace Invokrum.Inodes

open Programs
open Outcome (bind_eq_ok)

variable {ι T α β ε : Type}

/-! ## Marked calls -/

/-- The program with every call marked as one of process `i`. -/
def tagged (i : ι) : Program (Call T) Reply α → Program (Call (ι × T)) Reply α
  | .done a => .done a
  | .call c next => .call ⟨(i, c.site), c.op⟩ fun r => tagged i (next r)

def Call.untagged (c : Call (ι × T)) : Call T := ⟨c.site.2, c.op⟩

def untaggedEvent (e : Event (Call (ι × T)) Reply) : Event (Call T) Reply :=
  ⟨e.call.untagged, e.reply⟩

/-- What a marked call does, each process in its own directory and with its own failures. -/
def PerformsFor (proc : ι → Process) (faulty : ι → Call T → IoError → Prop) (d : Disk)
    (c : Call (ι × T)) (r : Reply c) (d' : Disk) : Prop :=
  Performs (proc c.site.1) (faulty c.site.1) d c.untagged r d'

/-- The events of every process so far, without the marks. -/
def histories (σ : Config ι (Call (ι × T)) Reply Disk α) (i : ι) : List (Event (Call T) Reply) :=
  (σ.trace i).map untaggedEvent

/-- What a process can do alone, its marked calls do. -/
theorem goes_tagged {proc : ι → Process} {faulty : ι → Call T → IoError → Prop} {i : ι}
    {d d' : Disk} {t t' : List (Event (Call T) Reply)} {p p' : Program (Call T) Reply α}
    (h : Goes (Performs (proc i) (faulty i)) d' t' p' d t p)
    (u : List (Event (Call (ι × T)) Reply)) :
    ∃ u', Goes (PerformsFor proc faulty) d' u' (tagged i p') d u (tagged i p) := by
  induction h generalizing u with
  | refl => exact ⟨u, .refl⟩
  | @call d d₁ t c r next hcall _ ih =>
      have hmarked : PerformsFor proc faulty d (⟨(i, c.site), c.op⟩ : Call (ι × T)) r d₁ := hcall
      obtain ⟨u', hrest⟩ := ih (u ++ [⟨⟨(i, c.site), c.op⟩, r⟩])
      exact ⟨u', .call hmarked hrest⟩

/-! ## Events of the past -/

/-- The operation has been answered so. -/
def Saw (t : List (Event (Call T) Reply)) (op : Op) (r : Except IoError op.Value) : Prop :=
  ∃ site, (⟨⟨site, op⟩, r⟩ : Event (Call T) Reply) ∈ t

/-- The events hold the creation of the inode. -/
def Created (t : List (Event (Call T) Reply)) (k : Nat) : Prop :=
  ∃ path mode, Saw t (.createNew path mode) (.ok k)

/-- The answer is the creation of the inode. -/
def creates (k : Nat) : (op : Op) → Except IoError op.Value → Bool
  | .createNew _ _, .ok created => Nat.beq created k
  | _, _ => false

section

variable {t t' : List (Event (Call T) Reply)} {site : T} {op : Op} {r : Except IoError op.Value}
  {k : Nat}

theorem Saw.mono (h : Saw t op r) (hpast : t <+: t') : Saw t' op r := by
  obtain ⟨site, hmem⟩ := h
  exact ⟨site, hpast.mem hmem⟩

theorem saw_concat : Saw (t ++ [⟨⟨site, op⟩, r⟩]) op r :=
  ⟨site, List.mem_append_right t List.mem_cons_self⟩

theorem Created.mono (h : Created t k) (hpast : t <+: t') : Created t' k := by
  obtain ⟨path, mode, hsaw⟩ := h
  exact ⟨path, mode, hsaw.mono hpast⟩

theorem created_iff : Created t k ↔ t.any (fun e => creates k e.call.op e.reply) = true := by
  rw [List.any_eq_true]
  constructor
  · intro h
    obtain ⟨path, mode, site, hmem⟩ := h
    exact ⟨_, hmem, Nat.beq_refl k⟩
  · intro h
    obtain ⟨⟨⟨site, op⟩, r⟩, hmem, hcreates⟩ := h
    cases op with
    | createNew path mode =>
        cases r with
        | ok created =>
            obtain rfl := Nat.eq_of_beq_eq_true hcreates
            exact ⟨path, mode, site, hmem⟩
        | error e => cases hcreates
    | _ => cases hcreates

instance : Decidable (Created t k) := decidable_of_iff _ created_iff.symm

theorem created_concat_of_ne (hop : ∀ path mode, op ≠ .createNew path mode) :
    Created (t ++ [⟨⟨site, op⟩, r⟩]) k ↔ Created t k := by
  constructor
  · intro h
    obtain ⟨path, mode, site', hmem⟩ := h
    rcases List.mem_append.mp hmem with hold | hnew
    · exact ⟨path, mode, site', hold⟩
    · cases List.mem_singleton.mp hnew
      exact absurd rfl (hop path mode)
  · exact fun h => h.mono (List.prefix_append t _)

theorem created_concat_error {e : IoError} :
    Created (t ++ [⟨⟨site, op⟩, .error e⟩]) k ↔ Created t k := by
  constructor
  · intro h
    obtain ⟨path, mode, site', hmem⟩ := h
    rcases List.mem_append.mp hmem with hold | hnew
    · exact ⟨path, mode, site', hold⟩
    · cases List.mem_singleton.mp hnew
  · exact fun h => h.mono (List.prefix_append t _)

theorem created_concat_ok {path : PathBuf} {mode j : Nat} :
    Created (t ++ [⟨⟨site, .createNew path mode⟩, .ok j⟩]) k ↔ Created t k ∨ k = j := by
  constructor
  · intro h
    obtain ⟨path', mode', site', hmem⟩ := h
    rcases List.mem_append.mp hmem with hold | hnew
    · exact .inl ⟨path', mode', site', hold⟩
    · cases List.mem_singleton.mp hnew
      exact .inr rfl
  · intro h
    rcases h with hold | rfl
    · exact hold.mono (List.prefix_append t _)
    · exact ⟨path, mode, saw_concat⟩

theorem created_untagged {t : List (Event (Call (ι × T)) Reply)} :
    Created (t.map untaggedEvent) k ↔ Created t k := by
  constructor
  · intro h
    obtain ⟨path, mode, site, hmem⟩ := h
    obtain ⟨⟨⟨tag, op⟩, r⟩, he, heq⟩ := List.mem_map.mp hmem
    cases heq
    exact ⟨path, mode, tag, he⟩
  · intro h
    obtain ⟨path, mode, tag, hmem⟩ := h
    exact ⟨path, mode, tag.2, List.mem_map.mpr ⟨_, hmem, rfl⟩⟩

end

/-! ## Calls that only move entries -/

/-- The same inodes, as far as contents and modes go. -/
structure SameFiles (d d' : Disk) : Prop where
  next : d'.next = d.next
  content : ∀ k, (d'.inode k).content = (d.inode k).content
  mode : ∀ k, (d'.inode k).mode = (d.inode k).mode

section

variable {d d' : Disk} {p src dst : Place} {j : Nat} {f : Nat → Nat}

theorem sameFiles_refl (d : Disk) : SameFiles d d := ⟨rfl, fun _ => rfl, fun _ => rfl⟩

theorem sameFiles_of_relinked (hnext : d'.next = d.next)
    (hinode : d'.inode = Function.update d.inode j (Disk.relinked (d.inode j) f)) :
    SameFiles d d' := by
  refine ⟨hnext, ?_, ?_⟩ <;>
  · intro k
    rw [hinode]
    by_cases hk : k = j
    · subst hk
      rw [Function.update_self]
      rfl
    · rw [Function.update_of_ne hk]

theorem sameFiles_removeFile (h : d.removeFile p = .ok d') : SameFiles d d' := by
  obtain ⟨j, _, _, hnext, _, hinode⟩ := Disk.removeFile_eq_ok h
  exact sameFiles_of_relinked hnext hinode

theorem sameFiles_hardLink (h : d.hardLink src dst = .ok d') : SameFiles d d' := by
  obtain ⟨j, _, _, _, hnext, _, hinode⟩ := Disk.hardLink_eq_ok h
  exact sameFiles_of_relinked hnext hinode

theorem sameFiles_replaced (d : Disk) (p : Place) : SameFiles d (d.replaced p) := by
  unfold Disk.replaced
  cases d.entry p with
  | none => exact sameFiles_refl d
  | some k =>
      have hinode : (d.relink k (· - 1)).inode =
          Function.update d.inode k (Disk.relinked (d.inode k) (· - 1)) := rfl
      exact sameFiles_of_relinked rfl hinode

theorem sameFiles_rename (h : d.rename src dst = .ok d') : SameFiles d d' := by
  unfold Disk.rename at h
  split_ifs at h
  · cases h
    exact sameFiles_refl d
  · cases h
    have hreplaced := sameFiles_replaced d dst
    exact ⟨hreplaced.next, hreplaced.content, hreplaced.mode⟩

theorem rewrite_mode (f : Text.Bytes → Text.Bytes) (n : Inode) :
    (Inode.rewrite f n).mode = n.mode := by
  unfold Inode.rewrite
  split <;> rfl

theorem absolute_injective {p q : Place} (h : absolute p = absolute q) : p = q := by
  have hmap := (List.cons.inj h).2
  exact List.map_injective_iff.mpr (fun _ _ hc => Component.normal.inj hc) hmap

end

/-! ## Disciplines -/

/-- The protocol of a process that remembers its events and obeys `allowed`. -/
def recalling {C : Type} {R : C → Type} (allowed : List (Event C R) → C → Prop) :
    Protocol C R (List (Event C R)) where
  allowed := allowed
  advance t c r := t ++ [⟨c, r⟩]

/-- The same for marked calls. -/
def markedRecalling (i : ι) (allowed : List (Event (Call T) Reply) → Call T → Prop) :
    Protocol (Call (ι × T)) Reply (List (Event (Call T) Reply)) where
  allowed t c := c.site.1 = i ∧ allowed t c.untagged
  advance t c r := t ++ [untaggedEvent ⟨c, r⟩]

variable {allowed : ι → List (Event (Call T) Reply) → Call T → Prop}

theorem obeys_tagged {i : ι} {Post : List (Event (Call T) Reply) → α → Prop}
    {t : List (Event (Call T) Reply)} {p : Program (Call T) Reply α}
    (h : (recalling (allowed i)).Obeys Post t p) :
    (markedRecalling i (allowed i)).Obeys Post t (tagged i p) := by
  induction p generalizing t with
  | done a => exact h
  | call c next ih => exact ⟨⟨rfl, h.1⟩, fun r => ih r (h.2 r)⟩

theorem after_markedRecalling (i : ι) (t : List (Event (Call T) Reply))
    (events : List (Event (Call (ι × T)) Reply)) :
    (markedRecalling i (allowed i)).after t events = t ++ events.map untaggedEvent := by
  induction events generalizing t with
  | nil => exact (List.append_nil t).symm
  | cons e events ih =>
      show (markedRecalling i (allowed i)).after (t ++ [untaggedEvent e]) events = _
      rw [ih, List.map_cons, List.append_assoc, List.singleton_append]

variable [DecidableEq ι] {proc : ι → Process} {faulty : ι → Call T → IoError → Prop}
  {program : ι → Program (Call T) Reply α} {d₀ : Disk}
  {σ : Config ι (Call (ι × T)) Reply Disk α}

/-- What all disciplined calls keep holds in every state reached, where every process is about to
make a call of its own that its discipline allows. -/
theorem disciplined_reaches {Inv : Disk → (ι → List (Event (Call T) Reply)) → Prop}
    (hstart : Inv d₀ fun _ => [])
    (hstep : ∀ d γ i c r d', Inv d γ → allowed i (γ i) c →
      Performs (proc i) (faulty i) d c r d' →
      Inv d' (Function.update γ i (γ i ++ [⟨c, r⟩])))
    (hprogram : ∀ i, (recalling (allowed i)).Obeys (fun _ _ => True) [] (program i))
    (hreaches : Reaches (PerformsFor proc faulty)
      (Config.start d₀ fun i => tagged i (program i)) σ) :
    Inv σ.state (histories σ) ∧ ∀ i c next, σ.thread i = .running (.call c next) →
      c.site.1 = i ∧ allowed i (histories σ i) c.untagged := by
  have hkept : Kept (fun i => markedRecalling i (allowed i)) [] Inv (fun _ _ _ => True)
      (Config.start d₀ fun i => tagged i (program i)) :=
    Kept.start hstart fun i => obeys_tagged (hprogram i)
  have hcalls : ∀ d γ i c r d', Inv d γ → (markedRecalling i (allowed i)).allowed (γ i) c →
      PerformsFor proc faulty d c r d' → Inv d' (Function.update γ i
        ((markedRecalling i (allowed i)).advance (γ i) c r)) := by
    intro d γ i c r d' hinv hallowed hcall
    obtain ⟨rfl, hallowed⟩ := hallowed
    exact hstep d γ _ c.untagged r d' hinv hallowed hcall
  have hend := hkept.reaches hcalls hreaches
  have hphases : phases (fun i => markedRecalling i (allowed i)) [] σ = histories σ := by
    funext i
    exact after_markedRecalling i [] (σ.trace i)
  refine ⟨hphases ▸ hend.inv, ?_⟩
  intro i c next hthread
  have hobeys := (hend.obeys i _ hthread).1
  rw [hphases] at hobeys
  exact hobeys

/-! ## One process at a time -/

/-- What one process can do alone, it can do while the others wait. -/
theorem reaches_of_goes (proc : ι → Process) (faulty : ι → Call T → IoError → Prop) {i : ι}
    {d d' : Disk} {t t' : List (Event (Call T) Reply)} {p p' : Program (Call T) Reply α}
    (h : Goes (Performs (proc i) (faulty i)) d' t' p' d t p)
    (hstate : σ.state = d) (hthread : σ.thread i = .running (tagged i p)) :
    ∃ σ' : Config ι (Call (ι × T)) Reply Disk α, Reaches (PerformsFor proc faulty) σ σ' ∧
      σ'.state = d' ∧ σ'.thread i = .running (tagged i p') ∧
      ∀ j, j ≠ i → σ'.thread j = σ.thread j ∧ σ'.trace j = σ.trace j := by
  obtain ⟨_, hgoes⟩ := goes_tagged h []
  exact hgoes.reaches hstate hthread

/-! ## Inode numbers -/

section

variable {proc : Process} {faulty : Call T → IoError → Prop} {d d' : Disk} {site : T}

theorem createNew_next {path : PathBuf} {mode k : Nat}
    (h : Performs proc faulty d ⟨site, .createNew path mode⟩ (.ok k) d') :
    k = d.next ∧ d'.next = d.next + 1 := by
  obtain ⟨p, _, hcreate⟩ := bind_eq_ok.mp (Changes.of_ok h.answers)
  obtain ⟨hk, _, _, hnext, _⟩ := Disk.createNew_eq_ok hcreate
  exact ⟨hk, hnext⟩

/-- No call takes an inode number back. -/
theorem performs_next {c : Call T} {r : Reply c} (h : Performs proc faulty d c r d') :
    d.next ≤ d'.next := by
  obtain ⟨site, op⟩ := c
  by_cases hobserves : op.observes = true
  · rw [h.unchanged hobserves]
  · cases r with
    | error e =>
        rcases h with h | ⟨_, _, _, h⟩
        · cases op with
          | createNew path mode => rw [(Changes.of_error h).2]
          | rename src dst => rw [(Changes.of_error h).2]
          | hardLink src dst => rw [(Changes.of_error h).2]
          | removeFile path => rw [(Changes.of_error h).2]
          | writeAll j bytes => cases h.1
          | _ => exact absurd rfl hobserves
        · cases op with
          | writeAll j bytes =>
              obtain ⟨n, rfl⟩ := h
              exact Nat.le_refl _
          | _ => exact Nat.le_of_eq (congrArg Disk.next h.symm)
    | ok v =>
        cases op with
        | createNew path mode =>
            rw [(createNew_next h).2]
            exact Nat.le_succ _
        | rename src dst =>
            obtain ⟨p, _, hrest⟩ := bind_eq_ok.mp (effect_eq_ok (Changes.of_ok h.answers))
            obtain ⟨q, _, hrename⟩ := bind_eq_ok.mp hrest
            exact Nat.le_of_eq (sameFiles_rename hrename).next.symm
        | hardLink src dst =>
            obtain ⟨p, _, hrest⟩ := bind_eq_ok.mp (effect_eq_ok (Changes.of_ok h.answers))
            obtain ⟨q, _, hlink⟩ := bind_eq_ok.mp hrest
            exact Nat.le_of_eq (sameFiles_hardLink hlink).next.symm
        | removeFile path =>
            obtain ⟨p, _, hremove⟩ := bind_eq_ok.mp (effect_eq_ok (Changes.of_ok h.answers))
            exact Nat.le_of_eq (sameFiles_removeFile hremove).next.symm
        | writeAll j bytes =>
            rw [h.answers.2]
            exact Nat.le_refl _
        | _ => exact absurd rfl hobserves

end

/-- Created inodes are new ones. -/
theorem created_next (hreaches : Reaches (PerformsFor proc faulty)
      (Config.start d₀ fun i => tagged i (program i)) σ) :
    d₀.next ≤ σ.state.next ∧
      ∀ i k, Created (σ.trace i) k → d₀.next ≤ k ∧ k < σ.state.next := by
  induction hreaches with
  | refl =>
      refine ⟨Nat.le_refl _, ?_⟩
      intro i k h
      obtain ⟨_, _, _, hmem⟩ := h
      cases hmem
  | @tail σ σ' _ hstep ih =>
      cases hstep with
      | crash i hthread => exact ih
      | @call i c next r d' hthread hcall =>
          have hnext := performs_next hcall
          refine ⟨Nat.le_trans ih.1 hnext, ?_⟩
          intro j k hcreated
          by_cases hj : j = i
          · subst hj
            simp only [Function.update_self] at hcreated
            obtain ⟨path, mode, site, hmem⟩ := hcreated
            rcases List.mem_append.mp hmem with hold | hnew
            · obtain ⟨hlow, hhigh⟩ := ih.2 j k ⟨path, mode, site, hold⟩
              exact ⟨hlow, Nat.lt_of_lt_of_le hhigh hnext⟩
            · cases List.mem_singleton.mp hnew
              obtain ⟨rfl, hsucc⟩ := createNew_next hcall
              refine ⟨ih.1, ?_⟩
              show σ.state.next < d'.next
              rw [hsucc]
              exact Nat.lt_succ_self _
          · simp only [Function.update_of_ne hj] at hcreated
            obtain ⟨hlow, hhigh⟩ := ih.2 j k hcreated
            exact ⟨hlow, Nat.lt_of_lt_of_le hhigh hnext⟩

end Invokrum.Inodes
