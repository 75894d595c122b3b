import Invokrum.Base.Interference
import Invokrum.Base.Meddling
import Invokrum.Base.Syscalls

/-!
# Reading among meddling

The calls of a reader change nothing, so the states it sees differ by what
others do. A file that is read to its end, and whose change time is the same
before and after, has been read as it was at any moment between.
-/

namespace Invokrum.Inodes

open Programs
open Text (Bytes)

variable {T ε α : Type}

/-! ## Observing calls -/

section

variable {proc : Process} {faulty : Call T → IoError → Prop} {site : T} {op : Op} {a : α}
  {env : List (Moment Disk (Call T) Reply) → Disk → Disk → Prop} {d d' : Disk}
  {past past' : List (Moment Disk (Call T) Reply)}

/-- The moment of a call with its answer. -/
def momentOf (site : T) (d : Disk) (op : Op) (v : op.Value) : Moment Disk (Call T) Reply :=
  ⟨d, ⟨⟨site, op⟩, .ok v⟩⟩

theorem observes_call {wrap : IoError → ε} {f : op.Value → Fallible (Call T) Reply ε α}
    (hop : op.observes = true)
    (h : Observes env (Performs proc faulty)
      (Fallible.attempt (⟨site, op⟩ : Call T) wrap >>= f) d past a d' past') :
    ∃ v d₁, env past d d₁ ∧ Answers proc d₁ op (.ok v) d₁ ∧
      Observes env (Performs proc faulty) (f v) d₁ (past ++ [momentOf site d₁ op v]) a d' past' := by
  obtain ⟨v, d₁, d₂, henv, hcall, hrest⟩ := h.bindAttempt
  obtain rfl := hcall.unchanged hop
  exact ⟨v, d₂, henv, hcall.answers, hrest⟩

end

/-- What was opened is there. -/
theorem Disk.openFile_lt {cwd : Place} {path : PathBuf} {noFollow : Bool} {file : Nat} {d : Disk}
    (h : d.openFile cwd path noFollow = .ok file) : file < d.next := by
  unfold Disk.openFile at h
  split at h
  · next i hi =>
      unfold Disk.inodeAt at hi
      split at hi
      · next p _ =>
          split at hi
          · next k hk =>
              split_ifs at h
              cases h
              cases hi
              exact d.fresh p _ hk
          · cases hi
      · cases hi
  · cases h

/-! ## Reading to the end -/

/-- `n.saturating_add(1)` of a `u64`. -/
def saturatingSucc (n : Nat) : Nat := min (n + 1) (2 ^ 64 - 1)

/-- Nothing is read at this moment. -/
def NoRead (m : Moment Disk (Call T) Reply) : Prop :=
  ∀ descriptor offset count, m.event.call.op ≠ .read descriptor offset count

/-- `read_to_end` behind `take(limit)`. Every read but the last returns a byte, so as many reads
as the limit says are enough. -/
def readToEnd (site : T) (descriptor : Nat) (wrap : IoError → ε) :
    (fuel offset limit : Nat) → Fallible (Call T) Reply ε Bytes
  | 0, _, _ => pure []
  | fuel + 1, offset, limit =>
      if limit = 0 then pure []
      else do
        let chunk : Bytes ← Fallible.attempt (⟨site, .read descriptor offset limit⟩ : Call T) wrap
        if chunk = [] then pure []
        else do
          let rest ← readToEnd site descriptor wrap fuel (offset + chunk.length)
            (limit - chunk.length)
          pure (chunk ++ rest)

/-- What a read loop sees of its inode. -/
structure ReadThrough (j offset limit : Nat) (bytes : Bytes) (d d' : Disk)
    (reads : List (Moment Disk (Call T) Reply)) : Prop where
  next : d.next ≤ d'.next
  ages : Ages (d.inode j) (d'.inode j)
  reads : ∀ m ∈ reads, (∃ offset count, m.event.call.op = .read j offset count) ∧
    Ages (d.inode j) (m.state.inode j) ∧ Ages (m.state.inode j) (d'.inode j)
  bytes : (d'.inode j).ctime = (d.inode j).ctime →
    bytes = ((d.inode j).content.bytes.drop offset).take limit

section

variable {proc : Process} {faulty : Call T → IoError → Prop} {site : T} {j : Nat} {root : Place}
  {wrap : IoError → ε} {d d' : Disk} {past past' : List (Moment Disk (Call T) Reply)}
  {bytes : Bytes} {env : List (Moment Disk (Call T) Reply) → Disk → Disk → Prop}

theorem readThrough_nothing {offset : Nat} :
    ReadThrough (T := T) j offset 0 [] d d [] where
  next := Nat.le_refl _
  ages := .refl _
  reads := by simp
  bytes _ := by rw [List.take_zero]

/-- A chunk and what lies behind it. -/
theorem take_chunk (l : Bytes) {offset limit n : Nat} {chunk : Bytes}
    (h : chunk = (l.drop offset).take (min n limit)) :
    chunk ++ (l.drop (offset + chunk.length)).take (limit - chunk.length) =
      (l.drop offset).take limit := by
  have hlength : chunk.length ≤ limit := by
    rw [h, List.length_take]
    omega
  have hchunk : chunk = (l.drop offset).take chunk.length := by
    rw [h, List.length_take, ← List.take_eq_take_min]
  calc chunk ++ (l.drop (offset + chunk.length)).take (limit - chunk.length)
      = (l.drop offset).take chunk.length ++
          ((l.drop offset).drop chunk.length).take (limit - chunk.length) := by
        rw [← hchunk, List.drop_drop]
    _ = (l.drop offset).take (chunk.length + (limit - chunk.length)) := by rw [List.take_add]
    _ = (l.drop offset).take limit := by rw [Nat.add_sub_cancel' hlength]

/-- A chunk is empty at the end only. -/
theorem take_eq_nil_of_chunk {l : Bytes} {limit n : Nat} (hn : 0 < n)
    (h : l.take (min n limit) = []) : l.take limit = [] := by
  rw [List.take_eq_nil_iff] at h ⊢
  rcases h with hzero | hnil
  · omega
  · exact .inr hnil

theorem observes_readToEnd {fuel offset limit : Nat}
    (henv : ∀ past d d', env past d d' → Meddles root d d') (hnext : j < d.next)
    (hfuel : limit ≤ fuel)
    (h : Observes env (Performs proc faulty)
      (readToEnd site j wrap fuel offset limit) d past bytes d' past') :
    ∃ reads, past' = past ++ reads ∧ ReadThrough j offset limit bytes d d' reads := by
  induction fuel generalizing d past bytes offset limit with
  | zero =>
      obtain rfl : limit = 0 := Nat.le_zero.mp hfuel
      obtain ⟨rfl, rfl, rfl⟩ := h.pure
      exact ⟨[], (List.append_nil _).symm, readThrough_nothing⟩
  | succ fuel ih =>
      rw [readToEnd] at h
      by_cases hlimit : limit = 0
      · rw [if_pos hlimit] at h
        subst hlimit
        obtain ⟨rfl, rfl, rfl⟩ := h.pure
        exact ⟨[], (List.append_nil _).symm, readThrough_nothing⟩
      · rw [if_neg hlimit] at h
        obtain ⟨(chunk : Bytes), d₁, hmeddles, ⟨_, n, hn, hchunk⟩, hrest⟩ := observes_call rfl h
        obtain ⟨hnext₁, hages⟩ := (henv _ _ _ hmeddles).ages hnext
        have hfirst : ∀ m ∈ [momentOf site d₁ (.read j offset limit) chunk],
            (∃ offset count, m.event.call.op = .read j offset count) ∧
              Ages (d.inode j) (m.state.inode j) ∧ m.state = d₁ := by
          intro m hm
          obtain rfl := List.mem_singleton.mp hm
          exact ⟨⟨offset, limit, rfl⟩, hages, rfl⟩
        have hsame : (d₁.inode j).ctime = (d.inode j).ctime →
            chunk = ((d.inode j).content.bytes.drop offset).take (min n limit) := by
          intro htime
          rw [← hages.content htime]
          exact Except.ok.inj hchunk
        by_cases hempty : chunk = []
        · rw [if_pos hempty] at hrest
          obtain ⟨rfl, rfl, rfl⟩ := hrest.pure
          refine ⟨_, rfl, hnext₁, hages, ?_, ?_⟩
          · intro m hm
            obtain ⟨hread, hbefore, hstate⟩ := hfirst m hm
            exact ⟨hread, hbefore, hstate ▸ .refl _⟩
          · intro htime
            exact (take_eq_nil_of_chunk hn ((hsame htime).symm.trans hempty)).symm
        · rw [if_neg hempty] at hrest
          obtain ⟨rest, d₂, past₂, hloop, hlast⟩ := hrest.bind
          obtain ⟨rfl, rfl, rfl⟩ := hlast.pure
          have hpositive : 0 < chunk.length := List.length_pos_of_ne_nil hempty
          obtain ⟨reads, rfl, hthrough⟩ := ih (Nat.lt_of_lt_of_le hnext hnext₁) (by omega) hloop
          refine ⟨_ :: reads, List.append_assoc _ _ _, Nat.le_trans hnext₁ hthrough.next,
            hages.trans hthrough.ages, ?_, ?_⟩
          · intro m hm
            rcases List.mem_cons.mp hm with rfl | hm
            · obtain ⟨hread, hbefore, _⟩ := hfirst _ (List.mem_singleton.mpr rfl)
              exact ⟨hread, hbefore, hthrough.ages⟩
            · obtain ⟨hread, hbefore, hafter⟩ := hthrough.reads m hm
              exact ⟨hread, hages.trans hbefore, hafter⟩
          · intro htime
            have htime₁ := hages.between hthrough.ages htime
            rw [hthrough.bytes (htime.trans htime₁.symm), hages.content htime₁]
            exact take_chunk _ (hsame htime₁)

end

end Invokrum.Inodes
