import Mathlib.Tactic

/-!
# Option loops

A command line is read from the left. An argument is complete, takes the next
argument as its value, or ends the loop. Where every step sets one thing, the
accepted command lines are the spellings of lists of settings; where nothing is
set twice, their order does not matter.
-/

namespace Invokrum.Options

variable {α σ ε κ Setting : Type}

/-- What an argument asks for, after what has been read. -/
inductive Reading (α σ ε : Type) where
  | alone (next : Except ε σ)
  | valued (missing : ε) (next : α → Except ε σ)
  | leave (result : List α → ε)

def scan (read : σ → α → Reading α σ ε) : σ → List α → Except ε σ
  | s, [] => .ok s
  | s, a :: rest =>
      match read s a with
      | .alone (.ok next) => scan read next rest
      | .alone (.error e) => .error e
      | .valued missing next =>
          match rest with
          | [] => .error missing
          | v :: rest =>
              match next v with
              | .ok s => scan read s rest
              | .error e => .error e
      | .leave result => .error (result rest)

/-- One round of the loop that goes on, with the arguments it uses. -/
inductive Takes (read : σ → α → Reading α σ ε) (s : σ) : List α → σ → Prop where
  | alone {a : α} {s' : σ} (h : read s a = .alone (.ok s')) : Takes read s [a] s'
  | valued {a v : α} {missing : ε} {next : α → Except ε σ} {s' : σ}
      (h : read s a = .valued missing next) (hvalue : next v = .ok s') : Takes read s [a, v] s'

variable {read : σ → α → Reading α σ ε} {s s' : σ} {used args rest : List α}

theorem Takes.scan (h : Takes read s used s') :
    scan read s (used ++ rest) = scan read s' rest := by
  cases h with
  | alone h =>
      rw [List.singleton_append, Options.scan, h]
  | valued h hvalue =>
      rw [List.cons_append, List.singleton_append, Options.scan, h]
      simp only [hvalue]

/-- A loop that has come to its end began with a round, or had nothing to read. -/
theorem exists_takes {a : α} (h : scan read s (a :: rest) = .ok s') :
    ∃ used rest' s₁, Takes read s used s₁ ∧ a :: rest = used ++ rest' ∧
      rest'.length < (a :: rest).length ∧ scan read s₁ rest' = .ok s' := by
  rw [scan.eq_def] at h
  simp only at h
  split at h
  · next next hread =>
      exact ⟨[a], rest, next, .alone hread, rfl, by simp, h⟩
  · cases h
  · next missing next hread =>
      cases rest with
      | nil => cases h
      | cons v rest =>
          simp only at h
          split at h
          · next s₁ hvalue => exact ⟨[a, v], rest, s₁, .valued hread hvalue, rfl, by simp, h⟩
          · cases h
  · cases h

/-! ## Settings -/

/-- Rounds are settings that the loop knows: how a setting is spelled, and what it does. -/
structure Spells (read : σ → α → Reading α σ ε) (spell : Setting → List α)
    (apply : σ → Setting → Option σ) (Known : Setting → Prop) : Prop where
  takes : ∀ s x s', Known x → apply s x = some s' → Takes read s (spell x) s'
  settled : ∀ s used s', Takes read s used s' →
    ∃ x, Known x ∧ used = spell x ∧ apply s x = some s'

variable {spell : Setting → List α} {apply : σ → Setting → Option σ} {Known : Setting → Prop}
  {xs ys : List Setting}

theorem Spells.scan_append (h : Spells read spell apply Known) (hknown : ∀ x ∈ xs, Known x)
    (hxs : xs.foldlM apply s = some s') :
    scan read s (xs.flatMap spell ++ rest) = scan read s' rest := by
  induction xs generalizing s with
  | nil =>
      cases hxs
      rfl
  | cons x xs ih =>
      rw [List.foldlM_cons, Option.bind_eq_bind, Option.bind_eq_some_iff] at hxs
      obtain ⟨s₁, hx, hxs⟩ := hxs
      rw [List.forall_mem_cons] at hknown
      rw [List.flatMap_cons, List.append_assoc, (h.takes s x s₁ hknown.1 hx).scan,
        ih hknown.2 hxs]

/-- The loop accepts the spellings of lists of settings that can be made one after another. -/
theorem Spells.scan_eq_ok (h : Spells read spell apply Known) :
    scan read s args = .ok s' ↔ ∃ xs : List Setting, (∀ x ∈ xs, Known x) ∧
      args = xs.flatMap spell ∧ xs.foldlM apply s = some s' := by
  constructor
  · intro hscan
    induction hlength : args.length using Nat.strongRecOn generalizing s args with
    | ind n ih =>
        cases args with
        | nil =>
            cases hscan
            exact ⟨[], by simp, rfl, rfl⟩
        | cons a args =>
            obtain ⟨used, rest, s₁, htakes, heq, hshort, hrest⟩ := exists_takes hscan
            obtain ⟨x, hx, rfl, happly⟩ := h.settled s used s₁ htakes
            obtain ⟨xs, hknown, rfl, hxs⟩ := ih _ (hlength ▸ hshort) hrest rfl
            refine ⟨x :: xs, List.forall_mem_cons.mpr ⟨hx, hknown⟩, heq, ?_⟩
            rw [List.foldlM_cons, happly]
            exact hxs
  · intro hsettings
    obtain ⟨xs, hknown, rfl, hxs⟩ := hsettings
    have hend := @Spells.scan_append _ _ _ _ _ _ s' [] _ _ _ xs h hknown hxs
    rwa [List.append_nil] at hend

/-- A loop that is left was left behind a list of settings. -/
theorem Spells.scan_of_leave (h : Spells read spell apply Known) {a : α} {result : List α → ε}
    (hknown : ∀ x ∈ xs, Known x) (hxs : xs.foldlM apply s = some s')
    (hleave : read s' a = .leave result) :
    scan read s (xs.flatMap spell ++ a :: rest) = .error (result rest) := by
  rw [h.scan_append hknown hxs, scan, hleave]

/-- Every error but those of leaving the loop is a fault. -/
structure Faults (read : σ → α → Reading α σ ε) (Fault : ε → Prop) : Prop where
  alone : ∀ s a e, read s a = .alone (.error e) → Fault e
  missing : ∀ s a e next, read s a = .valued e next → Fault e
  value : ∀ s a missing next v e, read s a = .valued missing next → next v = .error e → Fault e

/-- A loop that ends without a fault and not at the end was left behind a list of settings. -/
theorem Spells.left_of_scan (h : Spells read spell apply Known) {Fault : ε → Prop} {e : ε}
    (hfaults : Faults read Fault) (hscan : scan read s args = .error e) (he : ¬ Fault e) :
    ∃ (xs : List Setting) (s' : σ) (a : α) (rest : List α) (result : List α → ε),
      (∀ x ∈ xs, Known x) ∧ args = xs.flatMap spell ++ a :: rest ∧ xs.foldlM apply s = some s' ∧
        read s' a = .leave result ∧ e = result rest := by
  induction hlength : args.length using Nat.strongRecOn generalizing s args with
  | ind n ih =>
      have hround : ∀ {used rest : List α} {s₁ : σ}, Takes read s used s₁ → args = used ++ rest →
          used ≠ [] → scan read s₁ rest = .error e →
          ∃ (xs : List Setting) (s' : σ) (a : α) (rest : List α) (result : List α → ε),
            (∀ x ∈ xs, Known x) ∧ args = xs.flatMap spell ++ a :: rest ∧
              xs.foldlM apply s = some s' ∧ read s' a = .leave result ∧ e = result rest := by
        intro used rest s₁ htakes heq hne hrest
        have hshort : rest.length < n := by
          have hpos := List.length_pos_iff.mpr hne
          rw [← hlength, heq, List.length_append]
          omega
        obtain ⟨x, hx, rfl, happly⟩ := h.settled s used s₁ htakes
        obtain ⟨xs, s', a, rest', result, hknown, rfl, hxs, hleave, he⟩ :=
          ih rest.length hshort hrest rfl
        refine ⟨x :: xs, s', a, rest', result, List.forall_mem_cons.mpr ⟨hx, hknown⟩, ?_, ?_,
          hleave, he⟩
        · rw [heq, List.flatMap_cons, List.append_assoc]
        · rw [List.foldlM_cons, happly]
          exact hxs
      cases args with
      | nil => cases hscan
      | cons a args =>
          have hstep := hscan
          rw [scan.eq_def] at hstep
          simp only at hstep
          split at hstep
          · next s₁ hread => exact hround (.alone hread) rfl (by simp) hstep
          · next e' hread =>
              cases hstep
              exact absurd (hfaults.alone s a e hread) he
          · next missing next hread =>
              cases args with
              | nil =>
                  cases hstep
                  exact absurd (hfaults.missing s a e next hread) he
              | cons v args =>
                  simp only at hstep
                  split at hstep
                  · next s₁ hvalue => exact hround (.valued hread hvalue) rfl (by simp) hstep
                  · next e' hvalue =>
                      cases hstep
                      exact absurd (hfaults.value s a missing next v e hread hvalue) he
          · next result hread =>
              cases hstep
              exact ⟨[], s, a, args, result, by simp, rfl, rfl, hread, rfl⟩

/-! ## Order -/

/-- A state is what has been set: the settings made so far, no two with one key. A setting whose
key is free can be made; a silent one changes nothing. -/
structure Collects (apply : σ → Setting → Option σ) (settings : σ → List Setting)
    (silent : Setting → Bool) (key : Setting → κ) : Prop where
  unchanged : ∀ s x, silent x = true → apply s x = some s
  added : ∀ s x s', silent x = false → apply s x = some s' → (settings s').Perm (x :: settings s)
  free : ∀ s x, silent x = false → key x ∉ (settings s).map key → ∃ s', apply s x = some s'
  nodup : ∀ s, ((settings s).map key).Nodup
  determined : ∀ s s', (settings s).Perm (settings s') → s = s'

section

variable {settings : σ → List Setting} {silent : Setting → Bool} {key : Setting → κ}

theorem Collects.foldlM_eq_some (h : Collects apply settings silent key) :
    xs.foldlM apply s = some s' ↔
      (settings s').Perm (xs.filter (fun x => !silent x) ++ settings s) := by
  induction xs generalizing s with
  | nil =>
      rw [List.foldlM_nil, List.filter_nil, List.nil_append]
      constructor
      · intro heq
        cases heq
        exact .refl _
      · intro hperm
        rw [h.determined _ _ hperm]
        rfl
  | cons x xs ih =>
      rw [List.foldlM_cons, Option.bind_eq_bind, Option.bind_eq_some_iff]
      cases hsilent : silent x with
      | true =>
          rw [List.filter_cons_of_neg (by simp [hsilent]), h.unchanged s x hsilent]
          simp only [Option.some.injEq, exists_eq_left', ih]
      | false =>
          rw [List.filter_cons_of_pos (by simp [hsilent])]
          constructor
          · intro hsome
            obtain ⟨s₁, hx, hxs⟩ := hsome
            refine (ih.mp hxs).trans ?_
            exact ((h.added s x s₁ hsilent hx).append_left _).trans List.perm_middle
          · intro hperm
            -- The keys of the final state are distinct, so the key of `x` is still free in `s`.
            have hkeys := h.nodup s'
            rw [(hperm.map key).nodup_iff, List.cons_append, List.map_cons, List.nodup_cons,
              List.map_append, List.mem_append, not_or] at hkeys
            obtain ⟨s₁, hx⟩ := h.free s x hsilent hkeys.1.2
            refine ⟨s₁, hx, ih.mpr (hperm.trans ?_)⟩
            exact (List.perm_middle.symm).trans
              ((h.added s x s₁ hsilent hx).symm.append_left _)

/-- The loop from a state in which nothing is set accepts what sets exactly the final settings,
in any order, with silent ones anywhere. -/
theorem Spells.scan_eq_ok_iff_perm (h : Spells read spell apply Known)
    (hcollects : Collects apply settings silent key) (hstart : settings s = []) :
    scan read s args = .ok s' ↔ ∃ xs : List Setting, (∀ x ∈ xs, Known x) ∧
      args = xs.flatMap spell ∧ (xs.filter fun x => !silent x).Perm (settings s') := by
  rw [h.scan_eq_ok]
  apply exists_congr
  intro xs
  rw [hcollects.foldlM_eq_some, hstart, List.append_nil, List.perm_comm]

end

/-! ## Records of optional fields -/

/-- A record by its fields, each of which has a value or not yet. -/
structure Fields (σ κ : Type) (V : κ → Type) where
  keys : List κ
  get : σ → (k : κ) → Option (V k)
  put : σ → (k : κ) → V k → σ
  nodup : keys.Nodup
  complete : ∀ k, k ∈ keys
  get_put : ∀ s k v, get (put s k v) k = some v
  get_put_of_ne : ∀ s k v k', k' ≠ k → get (put s k v) k' = get s k'
  ext : ∀ s s', get s = get s' → s = s'

section

variable {V : κ → Type}

/-- The settings that a record amounts to, in the order of its fields. -/
def Fields.settings (fields : Fields σ κ V) (make : (k : κ) → V k → Setting) (s : σ) :
    List Setting :=
  fields.keys.filterMap fun k => (fields.get s k).map (make k)

/-- A setting fills the field it names, if that has no value yet; other settings do nothing. -/
structure Fields.Makes (fields : Fields σ κ V) (make : (k : κ) → V k → Setting)
    (apply : σ → Setting → Option σ) (name : Setting → Option κ) : Prop where
  silent : ∀ s x, name x = none → apply s x = some s
  made : ∀ x k, name x = some k → ∃ v, x = make k v
  name_make : ∀ k v, name (make k v) = some k
  make_injective : ∀ k v v', make k v = make k v' → v = v'
  fills : ∀ s k v, fields.get s k = none → apply s (make k v) = some (fields.put s k v)
  once : ∀ s k v s', apply s (make k v) = some s' → fields.get s k = none

variable {fields : Fields σ κ V} {make : (k : κ) → V k → Setting} {name : Setting → Option κ}

theorem Fields.Makes.mem_settings (h : fields.Makes make apply name) {k : κ} {v : V k} :
    make k v ∈ fields.settings make s ↔ fields.get s k = some v := by
  rw [Fields.settings, List.mem_filterMap]
  constructor
  · intro hmem
    obtain ⟨k', _, hk'⟩ := hmem
    obtain ⟨v', hv', heq⟩ := Option.map_eq_some_iff.mp hk'
    have hname : some k' = some k := by rw [← h.name_make k' v', heq, h.name_make]
    cases hname
    rw [hv', h.make_injective k v' v heq]
  · intro hget
    exact ⟨k, fields.complete k, by rw [hget]; rfl⟩

theorem Fields.exists_of_mem {x : Setting}
    (hx : x ∈ fields.settings make s) : ∃ k v, x = make k v ∧ fields.get s k = some v := by
  obtain ⟨k, _, hk⟩ := List.mem_filterMap.mp hx
  obtain ⟨v, hv, rfl⟩ := Option.map_eq_some_iff.mp hk
  exact ⟨k, v, rfl, hv⟩

theorem Fields.settings_put {k : κ} {v : V k}
    (hnone : fields.get s k = none) :
    (fields.settings make (fields.put s k v)).Perm (make k v :: fields.settings make s) := by
  obtain ⟨front, back, hkeys⟩ := List.append_of_mem (fields.complete k)
  have hnodup := fields.nodup
  rw [hkeys, List.nodup_middle, List.nodup_cons, List.mem_append, not_or] at hnodup
  have hsame : ∀ keys : List κ, k ∉ keys →
      (keys.filterMap fun k' => (fields.get (fields.put s k v) k').map (make k')) =
        keys.filterMap fun k' => (fields.get s k').map (make k') := by
    intro keys hk
    apply List.filterMap_congr
    intro k' hk'
    rw [fields.get_put_of_ne s k v k' fun heq => hk (heq ▸ hk')]
  rw [Fields.settings, Fields.settings, hkeys, List.filterMap_append, List.filterMap_append,
    List.filterMap_cons, List.filterMap_cons, fields.get_put, hnone, hsame front hnodup.1.1,
    hsame back hnodup.1.2]
  exact List.perm_middle

theorem Fields.Makes.names_sublist (h : fields.Makes make apply name) (s : σ) :
    ((fields.settings make s).map name).Sublist (fields.keys.map some) := by
  rw [Fields.settings]
  induction fields.keys with
  | nil => exact List.Sublist.refl _
  | cons k keys ih =>
      rw [List.filterMap_cons, List.map_cons]
      cases hget : fields.get s k with
      | none => exact ih.cons _
      | some v =>
          simp only [Option.map_some, List.map_cons, h.name_make]
          exact ih.cons_cons _

/-- Such a record is what has been set. -/
theorem Fields.Makes.collects (h : fields.Makes make apply name) :
    Collects apply (fields.settings make) (fun x => (name x).isNone) name where
  unchanged := fun s x hsilent => h.silent s x (Option.isNone_iff_eq_none.mp hsilent)
  added := by
    intro s x s' hnamed happly
    obtain ⟨k, hk⟩ := Option.isSome_iff_exists.mp (Option.isNone_eq_false_iff.mp hnamed)
    obtain ⟨v, rfl⟩ := h.made x k hk
    have hnone := h.once s k v s' happly
    rw [h.fills s k v hnone] at happly
    cases happly
    exact Fields.settings_put hnone
  free := by
    intro s x hnamed hfree
    obtain ⟨k, hk⟩ := Option.isSome_iff_exists.mp (Option.isNone_eq_false_iff.mp hnamed)
    obtain ⟨v, rfl⟩ := h.made x k hk
    refine ⟨_, h.fills s k v ?_⟩
    by_contra hsome
    obtain ⟨v', hv'⟩ := Option.ne_none_iff_exists'.mp hsome
    apply hfree
    rw [h.name_make, ← h.name_make k v']
    exact List.mem_map_of_mem (h.mem_settings.mpr hv')
  nodup := fun s => (h.names_sublist s).nodup
    (fields.nodup.map (Option.some_injective κ))
  determined := by
    intro s s' hperm
    apply fields.ext
    funext k
    apply Option.ext
    intro v
    rw [← h.mem_settings, ← h.mem_settings, hperm.mem_iff]

/-- Values under their names are such a record. -/
def Fields.named [DecidableEq κ] (keys : List κ) (hnodup : keys.Nodup)
    (hcomplete : ∀ k, k ∈ keys) : Fields ((k : κ) → Option (V k)) κ V where
  keys := keys
  get := fun s k => s k
  put := fun s k v => Function.update s k (some v)
  nodup := hnodup
  complete := hcomplete
  get_put := fun s k v => Function.update_self k (some v) s
  get_put_of_ne := fun s _ v _ hne => Function.update_of_ne hne (some v) s
  ext := fun _ _ h => h

end

end Invokrum.Options
