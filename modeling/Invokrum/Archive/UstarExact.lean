import Invokrum.Archive.UstarGrammar

/-!
# The ustar parser accepts exactly its language

A step after some entries either takes one more admitted entry or breaks at the
trailer. The run theorem follows by induction on the entries, and a parse never
panics, overflows or runs out of fuel.
-/

namespace Invokrum.Archive

open Outcome Slice Machine Loop Invokrum.Distribution
open Acquisition (CandidateFile)
open Text (Bytes)

variable {archive rest : Bytes} {expected : ExpectedTree} {limits : ParserLimits}
  {manifest : BundleManifest} {done : List Entry} {state next : ParserState}

/-! ## One step -/

/-- What happens after the header of an entry. -/
def EntryBody (archive : Bytes) (limits : ParserLimits) (header : ParsedHeader)
    (state : ParserState) (blockEnd : Nat) (next : ParserState) : Prop :=
  (header.kind = .directory ∧ header.size = 0 ∧ next = { state with cursor := blockEnd }) ∨
    (header.kind = .file ∧ takeFile archive limits header state blockEnd = .ok next)

theorem parseStep_eq_none : parseStep archive expected limits state = .ok none ↔
    ∃ block, state.cursor + 512 < wordSize ∧
      getRange archive state.cursor (state.cursor + 512) = some block ∧
        archiveTerminated archive block (state.cursor + 512) state.metadataBytes
          limits.metadataBytes = .ok true := by
  simp only [parseStep, bind_eq_ok, okOr_eq_ok, checkedAdd_eq_some, ustarBlockBytes]
  constructor
  · intro h
    obtain ⟨_, ⟨hword, rfl⟩, block, hblock, ended, hended, h⟩ := h
    cases ended with
    | true => exact ⟨block, hword, hblock, hended⟩
    | false =>
        simp only [Bool.false_eq_true, if_false, bind_eq_ok] at h
        obtain ⟨⟨header, state'⟩, _, h⟩ := h
        by_cases hkind : header.kind = .directory
        · simp [hkind, pure, Except.pure] at h
        · simp [hkind, pure, Except.pure] at h
  · intro h
    obtain ⟨block, hword, hblock, hended⟩ := h
    exact ⟨_, ⟨hword, rfl⟩, block, hblock, true, hended, rfl⟩

theorem parseStep_eq_some : parseStep archive expected limits state = .ok (some next) ↔
    ∃ block, state.cursor + 512 < wordSize ∧
      getRange archive state.cursor (state.cursor + 512) = some block ∧
        isZeroBlock block = false ∧ ∃ header state',
          acceptHeader expected limits state block = .ok (header, state') ∧
            EntryBody archive limits header state' (state.cursor + 512) next := by
  simp only [parseStep, bind_eq_ok, okOr_eq_ok, checkedAdd_eq_some, ustarBlockBytes]
  constructor
  · intro h
    obtain ⟨_, ⟨hword, rfl⟩, block, hblock, ended, hended, h⟩ := h
    cases ended with
    | true => cases h
    | false =>
        simp only [Bool.false_eq_true, if_false, bind_eq_ok] at h
        obtain ⟨⟨header, state'⟩, haccept, h⟩ := h
        refine ⟨block, hword, hblock, archiveTerminated_eq_false.mp hended, header, state',
          haccept, ?_⟩
        cases hkind : header.kind with
        | directory =>
            simp only [hkind, if_true, bind_eq_ok, rejectIf_eq_ok, exists_const, pure,
              Except.pure, Except.ok.injEq, Option.some.injEq, ne_eq, not_not] at h
            exact Or.inl ⟨hkind, h.1, h.2.symm⟩
        | file =>
            simp only [hkind, reduceCtorEq, if_false, bind_eq_ok, pure, Except.pure,
              Except.ok.injEq, Option.some.injEq, exists_eq_right] at h
            exact Or.inr ⟨hkind, h⟩
  · intro h
    obtain ⟨block, hword, hblock, hzero, header, state', haccept, hbody⟩ := h
    refine ⟨_, ⟨hword, rfl⟩, block, hblock, false, archiveTerminated_eq_false.mpr hzero, ?_⟩
    simp only [Bool.false_eq_true, if_false, bind_eq_ok]
    refine ⟨(header, state'), haccept, ?_⟩
    rcases hbody with ⟨hkind, hsize, rfl⟩ | ⟨hkind, htake⟩
    · simp [hkind, hsize, pure, Except.pure]
    · simp [hkind, htake, pure, Except.pure]

/-! ## The state after one more entry -/

theorem stateAfter_directory {e : Entry} (h : e.header.kind = .directory) :
    stateAfter (done ++ [e]) = { (stateAfter done).withHeader e.header with
      cursor := (layout done).length + 512 } := by
  have hdata : e.data = [] := List.length_eq_zero_iff.mp (e.size.trans (e.directory h))
  have hcandidate : e.candidate = none := by simp [Entry.candidate, h]
  simp [stateAfter, ParserState.withHeader, layout_concat, e.bytes_length, hdata, hcandidate,
    paddedLength, Entry.path, ustarBlockBytes, Nat.add_mul]

theorem stateAfter_file {e : Entry} (h : e.header.kind = .file) :
    stateAfter (done ++ [e]) = ((stateAfter done).withHeader e.header).withFile
      ((layout done).length + 512 + paddedLength e.header.size) ⟨e.path, e.data, e.bounded⟩ := by
  have hcandidate : e.candidate = some ⟨e.path, e.data, e.bounded⟩ := by simp [Entry.candidate, h]
  simp [stateAfter, ParserState.withHeader, ParserState.withFile, layout_concat, e.bytes_length,
    e.size, hcandidate, Entry.path, ustarBlockBytes, Nat.add_mul, Nat.add_assoc]

theorem admitted_nil (manifest : BundleManifest) : Admitted manifest [] where
  count := Nat.zero_le _
  nested := by simp
  expanded := Nat.zero_le _
  distinct := List.nodup_nil
  declared := by simp

/-- An admitted sequence stays within a machine word. -/
theorem Admitted.layout_lt (h : Admitted manifest done) :
    (layout done).length + 1024 < wordSize := by
  have hlength := layout_length done
  have hcount := h.count
  have hexpanded := h.expanded
  simp only [maxUstarEntries, maxBundleExpandedBytes] at hcount hexpanded
  simp only [wordSize]
  omega

/-- What admitting one more entry adds. -/
theorem admitted_concat {e : Entry} : Admitted manifest (done ++ [e]) ↔
    Admitted manifest done ∧ done.length + 1 ≤ maxUstarEntries ∧
      nesting e.path ≤ maxUstarNesting ∧
        (done.map (·.data.length)).sum + e.data.length ≤ maxBundleExpandedBytes ∧
          logicalKey e.path ∉ (stateAfter done).collisionKeys ∧
            Declared manifest e.path e.header.kind := by
  constructor
  · intro h
    have hcount := h.count
    have hexpanded := h.expanded
    have hdistinct := h.distinct
    simp only [List.length_append, List.length_singleton] at hcount
    simp only [List.map_append, List.sum_append, List.map_singleton, List.sum_singleton] at hexpanded
    rw [List.map_append, List.nodup_append] at hdistinct
    have hdone : Admitted manifest done := {
      count := by omega
      nested := fun e' he' => h.nested e' (List.mem_append_left _ he')
      expanded := by omega
      distinct := hdistinct.1
      declared := fun e' he' => h.declared e' (List.mem_append_left _ he') }
    refine ⟨hdone, hcount, h.nested e (by simp), hexpanded, ?_, h.declared e (by simp)⟩
    intro hmem
    exact hdistinct.2.2 _ (List.mem_reverse.mp hmem) _ (by simp) rfl
  · intro h
    obtain ⟨hdone, hcount, hnested, hexpanded, hkey, hdeclared⟩ := h
    exact {
      count := by simpa using hcount
      nested := by
        intro e' he'
        rcases List.mem_append.mp he' with he' | he'
        · exact hdone.nested e' he'
        · exact List.mem_singleton.mp he' ▸ hnested
      expanded := by simpa using hexpanded
      distinct := by
        rw [List.map_append, List.nodup_append]
        refine ⟨hdone.distinct, List.nodup_singleton _, ?_⟩
        intro key hmem key' hmem' heq
        rw [List.map_singleton, List.mem_singleton] at hmem'
        exact hkey (List.mem_reverse.mpr (hmem' ▸ heq ▸ hmem))
      declared := by
        intro e' he'
        rcases List.mem_append.mp he' with he' | he'
        · exact hdone.declared e' he'
        · exact List.mem_singleton.mp he' ▸ hdeclared }

/-! ## A step after admitted entries -/

/-- The block a step reads after some entries. -/
theorem getRange_block {block : Bytes} :
    getRange (layout done ++ rest) (stateAfter done).cursor ((stateAfter done).cursor + 512) =
      some block ↔ block.length = 512 ∧ ∃ tail, rest = block ++ tail :=
  getRange_eq_some

theorem layout_block (done : List Entry) {block : Bytes} (tail : Bytes) (h : block.length = 512) :
    layout done ++ (block ++ tail) = (layout done ++ block) ++ tail ∧
      (stateAfter done).cursor + 512 = (layout done ++ block).length := by
  refine ⟨(List.append_assoc _ _ _).symm, ?_⟩
  rw [List.length_append, h]
  rfl

/-- The loop breaks exactly at the trailer. -/
theorem parseStep_break (hdone : Admitted manifest done) :
    parseStep (layout done ++ rest) expected .default (stateAfter done) = .ok none ↔
      Trailer rest := by
  rw [parseStep_eq_none]
  constructor
  · intro h
    obtain ⟨block, _, hblock, hended⟩ := h
    obtain ⟨hlength, tail, rfl⟩ := getRange_block.mp hblock
    obtain ⟨happend, hcursor⟩ := layout_block done tail hlength
    rw [happend, hcursor, archiveTerminated_eq_true] at hended
    obtain ⟨hzero, _, _, _, htail, hrest⟩ := hended
    refine ⟨?_, ?_⟩
    · rw [List.length_append, hlength]
      simp only [ustarBlockBytes]
      omega
    · intro b hb
      rcases List.mem_append.mp hb with hb | hb
      · exact isZeroBlock_iff.mp hzero b hb
      · exact hrest b hb
  · intro h
    have hblocks := h.blocks
    have hcount := hdone.count
    have hword := hdone.layout_lt
    simp only [ustarBlockBytes, maxUstarEntries] at hblocks hcount
    have hlength : (rest.take 512).length = 512 := by
      rw [List.length_take]
      omega
    have hsplit : rest = rest.take 512 ++ rest.drop 512 := (List.take_append_drop 512 rest).symm
    have hblock : getRange (layout done ++ rest) (stateAfter done).cursor
        ((stateAfter done).cursor + 512) = some (rest.take 512) :=
      getRange_block.mpr ⟨hlength, _, hsplit⟩
    obtain ⟨happend, hcursor⟩ := layout_block done (rest.drop 512) hlength
    refine ⟨rest.take 512, ?_, hblock, ?_⟩
    · show (layout done).length + 512 < wordSize
      omega
    · rw [hcursor]
      rw [← hsplit] at happend
      rw [happend, archiveTerminated_eq_true]
      have hmetadata : (stateAfter done).metadataBytes = done.length * 512 := rfl
      have hlimit : ParserLimits.default.metadataBytes = 525312 := rfl
      have hsize : wordSize = 18446744073709551616 := rfl
      refine ⟨isZeroBlock_iff.mpr fun b hb => h.zero b (List.mem_of_mem_take hb), ?_, ?_, ?_, ?_,
        fun b hb => h.zero b (List.mem_of_mem_drop hb)⟩
      · rw [List.length_append, hlength]
        omega
      · omega
      · omega
      · rw [List.length_drop]
        omega

/-- A step takes exactly one more admitted entry. -/
theorem parseStep_continue
    (htree : ∀ path kind, expected.contains path kind = true ↔ Declared manifest path kind)
    (hdone : Admitted manifest done) :
    parseStep (layout done ++ rest) expected .default (stateAfter done) = .ok (some next) ↔
      ∃ e rest', rest = e.bytes ++ rest' ∧ Admitted manifest (done ++ [e]) ∧
        next = stateAfter (done ++ [e]) := by
  have hmetadata : (stateAfter done).metadataBytes = done.length * 512 := rfl
  have hentries : (stateAfter done).entryCount = done.length := rfl
  have hlimit : ParserLimits.default.metadataBytes = 525312 := rfl
  have hsize : wordSize = 18446744073709551616 := rfl
  rw [parseStep_eq_some]
  constructor
  · intro h
    obtain ⟨block, _, hblock, _, header, state, haccept, hbody⟩ := h
    obtain ⟨hlength, tail, rfl⟩ := getRange_block.mp hblock
    obtain ⟨happend, hcursor⟩ := layout_block done tail hlength
    obtain ⟨_, hcount, _, _, hheader, hnested, hkey, hcontains, rfl⟩ := acceptHeader_eq_ok.mp haccept
    have hdeclared := (htree _ _).mp hcontains
    rcases hbody with ⟨hkind, hzero, rfl⟩ | ⟨hkind, htake⟩
    · have hexpanded := hdone.expanded
      refine ⟨⟨block, header, [], hheader, hzero.symm, fun _ => hzero, Nat.zero_le _⟩, tail, ?_,
        admitted_concat.mpr ⟨hdone, hcount, hnested, hexpanded, hkey, hdeclared⟩, ?_⟩
      · simp [Entry.bytes, paddedLength, ustarBlockBytes]
      · rw [stateAfter_directory hkind]
        rfl
    · rw [happend, hcursor, takeFile_eq_ok] at htake
      obtain ⟨_, hexpanded, _, candidate, tail', hpath, hdata, rfl, rfl⟩ := htake
      have hdirectory : header.kind = .directory → header.size = 0 := by simp [hkind]
      refine ⟨⟨block, header, candidate.bytes, hheader, hdata, hdirectory, candidate.bounded⟩,
        tail', ?_, admitted_concat.mpr ⟨hdone, hcount, hnested, hdata ▸ hexpanded, hkey,
          hdeclared⟩, ?_⟩
      · simp [Entry.bytes, hdata]
      · rw [stateAfter_file hkind, List.length_append, hlength]
        cases candidate
        cases hpath
        rfl
  · intro h
    obtain ⟨e, rest', rfl, hadmitted, rfl⟩ := h
    have hnext := hadmitted.layout_lt
    obtain ⟨_, hcount, hnested, hexpanded, hkey, hdeclared⟩ := admitted_concat.mp hadmitted
    have hlength : e.block.length = 512 := e.isHeader.length
    rw [layout_concat, List.length_append, e.bytes_length, e.size] at hnext
    have hmax : maxUstarEntries = 1024 := rfl
    obtain ⟨happend, hcursor⟩ := layout_block done (e.data ++
      (List.replicate (paddedLength e.data.length - e.data.length) 0 ++ rest')) hlength
    have hbytes : e.bytes ++ rest' = e.block ++ (e.data ++
        (List.replicate (paddedLength e.data.length - e.data.length) 0 ++ rest')) := by
      simp [Entry.bytes]
    have hstart : (stateAfter done).cursor = (layout done).length := rfl
    refine ⟨e.block, by omega, getRange_block.mpr ⟨hlength, _, hbytes⟩, e.isHeader.not_zero,
      e.header, (stateAfter done).withHeader e.header, acceptHeader_eq_ok.mpr ⟨by omega,
        by rw [hentries]; exact hcount, by omega, by omega, e.isHeader, hnested, hkey,
          (htree _ _).mpr hdeclared, rfl⟩, ?_⟩
    cases hkind : e.header.kind with
    | directory =>
        exact Or.inl ⟨hkind, e.directory hkind, stateAfter_directory hkind⟩
    | file =>
        refine Or.inr ⟨hkind, ?_⟩
        rw [hbytes, happend, hcursor, takeFile_eq_ok]
        have hspent : ((stateAfter done).withHeader e.header).expandedBytes =
          (done.map (·.data.length)).sum := rfl
        have hlimit' : ParserLimits.default.expandedBytes = 33554432 := rfl
        have hmax' : maxBundleExpandedBytes = 33554432 := rfl
        have hsame := e.size
        refine ⟨by omega, by omega, ?_, ⟨e.path, e.data, e.bounded⟩, rest', rfl, e.size, ?_, ?_⟩
        · rw [List.length_append, hlength]
          omega
        · rw [e.size]
        · rw [stateAfter_file hkind, List.length_append, hlength]

/-! ## Runs -/

/-- The loop state after some admitted entries of the archive. -/
def Reached (archive : Bytes) (manifest : BundleManifest) (state : ParserState) : Prop :=
  ∃ entries rest, archive = layout entries ++ rest ∧ Admitted manifest entries ∧
    state = stateAfter entries

theorem reached_initial (archive : Bytes) (manifest : BundleManifest) :
    Reached archive manifest .initial :=
  ⟨[], archive, rfl, admitted_nil manifest, rfl⟩

/-- A step keeps the invariant and moves the cursor by at least a block, within the archive. -/
theorem reached_step
    (htree : ∀ path kind, expected.contains path kind = true ↔ Declared manifest path kind)
    (h : Reached archive manifest state)
    (hstep : Continues (parseStep archive expected .default) state next) :
    Reached archive manifest next ∧
      state.cursor + 512 ≤ next.cursor ∧ next.cursor ≤ archive.length := by
  obtain ⟨done, rest, rfl, hdone, rfl⟩ := h
  obtain ⟨e, rest', rfl, hadmitted, rfl⟩ := (parseStep_continue htree hdone).mp hstep
  have happend : layout done ++ (e.bytes ++ rest') = layout (done ++ [e]) ++ rest' := by
    rw [layout_concat, List.append_assoc]
  refine ⟨⟨done ++ [e], rest', happend, hadmitted, rfl⟩, ?_, ?_⟩
  · show (layout done).length + 512 ≤ (layout (done ++ [e])).length
    rw [layout_concat, List.length_append, e.bytes_length]
    omega
  · show (layout (done ++ [e])).length ≤ _
    rw [happend, List.length_append]
    omega

/-- Every run stays within the invariant. -/
theorem reached_path
    (htree : ∀ path kind, expected.contains path kind = true ↔ Declared manifest path kind)
    (h : Relation.ReflTransGen (Continues (parseStep archive expected .default)) .initial state) :
    Reached archive manifest state := by
  induction h with
  | refl => exact reached_initial archive manifest
  | tail _ hstep ih => exact (reached_step htree ih hstep).1

/-- The loop runs through the entries at the front of the archive, one at a time. -/
theorem path_of_entries
    (htree : ∀ path kind, expected.contains path kind = true ↔ Declared manifest path kind)
    {entries : List Entry} (harchive : archive = layout entries ++ rest)
    (hadmitted : Admitted manifest entries) :
    Relation.ReflTransGen (Continues (parseStep archive expected .default)) .initial
      (stateAfter entries) := by
  induction entries using List.reverseRecOn generalizing rest with
  | nil => exact .refl
  | append_singleton done e ih =>
      rw [layout_concat, List.append_assoc] at harchive
      have hdone := (admitted_concat.mp hadmitted).1
      refine .tail (ih harchive hdone) ?_
      rw [harchive]
      exact (parseStep_continue htree hdone).mpr ⟨e, rest, rfl, hadmitted, rfl⟩

/-! ## No panic, overflow or divergence -/

theorem addMetadataBytes_returns (total additional limit : Nat) :
    Returns (addMetadataBytes total additional limit) :=
  (Returns.okOr _ _).bind fun _ _ => (Returns.rejectIf _ _).bind fun _ _ => .ok _

theorem archiveTerminated_returns (archive block : Bytes) (blockEnd total limit : Nat) :
    Returns (archiveTerminated archive block blockEnd total limit) := by
  unfold archiveTerminated
  split
  · exact .ok false
  · refine (Returns.okOr _ _).bind fun secondEnd hend => ?_
    refine (Returns.okOr _ _).bind fun second hsecond => ?_
    refine (Returns.rejectIf _ _).bind fun _ _ => ?_
    refine (addMetadataBytes_returns _ _ _).bind fun _ _ => ?_
    have hrange : secondEnd ≤ archive.length := (getRange_bounds (okOr_eq_ok.mp hsecond)).2
    refine (Returns.indexRange ⟨hrange, Nat.le_refl _⟩).bind fun _ _ => ?_
    exact (Returns.rejectIf _ _).bind fun _ _ => .ok true

theorem acceptHeader_returns (expected : ExpectedTree) (limits : ParserLimits)
    (state : ParserState) (block : Bytes) :
    Returns (acceptHeader expected limits state block) := by
  refine (Returns.okOr _ _).bind fun _ _ => ?_
  refine (Returns.rejectIf _ _).bind fun _ _ => ?_
  refine (addMetadataBytes_returns _ _ _).bind fun _ _ => ?_
  refine (parseHeader_returns block).bind fun _ _ => ?_
  refine (Returns.rejectIf _ _).bind fun _ _ => ?_
  refine (Returns.rejectIf _ _).bind fun _ _ => ?_
  exact (Returns.rejectIf _ _).bind fun _ _ => .ok _

/-- The unchecked multiplication cannot overflow: the size has been bounded before it. -/
theorem takeFile_returns (archive : Bytes) (limits : ParserLimits) (header : ParsedHeader)
    (state : ParserState) (blockEnd : Nat) :
    Returns (takeFile archive limits header state blockEnd) := by
  refine (Returns.rejectIf _ _).bind fun _ hsize => ?_
  refine (Returns.okOr _ _).bind fun _ _ => ?_
  refine (Returns.rejectIf _ _).bind fun _ _ => ?_
  refine (Returns.okOr _ _).bind fun _ _ => ?_
  refine (Returns.okOr _ _).bind fun _ _ => ?_
  have hbound : header.size ≤ 1048576 := Nat.not_lt.mp (rejectIf_eq_ok.mp hsize)
  have hlt : (header.size + (ustarBlockBytes - 1)) / ustarBlockBytes * ustarBlockBytes <
      wordSize := by
    simp only [ustarBlockBytes, wordSize]
    omega
  rw [checkedMul_eq_some.mpr ⟨hlt, rfl⟩, okOr, ok_bind]
  refine (Returns.okOr _ _).bind fun _ _ => ?_
  refine (Returns.okOr _ _).bind fun _ _ => ?_
  refine (Returns.rejectIf _ _).bind fun _ _ => ?_
  exact (Returns.mapError _ _).bind fun _ _ => .ok _

theorem parseStep_returns (archive : Bytes) (expected : ExpectedTree) (limits : ParserLimits)
    (state : ParserState) : Returns (parseStep archive expected limits state) := by
  refine (Returns.okOr _ _).bind fun blockEnd _ => ?_
  refine (Returns.okOr _ _).bind fun block _ => ?_
  refine (archiveTerminated_returns _ _ _ _ _).bind fun ended _ => ?_
  cases ended with
  | true => exact .ok none
  | false =>
      refine (acceptHeader_returns _ _ _ _).bind fun accepted _ => ?_
      by_cases hkind : accepted.1.kind = .directory
      · simp only [hkind, if_true]
        exact (Returns.rejectIf _ _).bind fun _ _ => .ok _
      · simp only [hkind, if_false]
        exact (takeFile_returns _ _ _ _ _).bind fun _ _ => .ok _

theorem parseLoop_returns
    (htree : ∀ path kind, expected.contains path kind = true ↔ Declared manifest path kind) :
    Returns (runLoop (parseStep archive expected .default)
      (archive.length / ustarBlockBytes + 1) .initial) := by
  refine runLoop_returns (Reached archive manifest)
    (fun s => (archive.length - s.cursor) / 512)
    (fun s _ => parseStep_returns archive expected .default s) (fun s s' hs hstep => ?_)
    (reached_initial archive manifest) (Nat.lt_succ_self _)
  obtain ⟨hs', hmoved, hwithin⟩ := reached_step htree hs hstep
  exact ⟨hs', by omega⟩

theorem parseUstar_returns (archive : Bytes) (manifest : BundleManifest) :
    Returns (parseUstar archive manifest .default) := by
  refine (Returns.rejectIf _ _).bind fun _ _ => ?_
  refine (fromManifest_returns manifest).bind fun expected hexpected => ?_
  refine (parseLoop_returns (fromManifest_eq_ok hexpected).2).bind fun final _ => ?_
  exact (Returns.forEach (fun _ => Returns.rejectIf _ _) _).bind fun _ _ => .ok _

/-! ## The language -/

/-- Under distinct keys, an entry for a file that is there is there once. -/
theorem Admitted.once_iff {entries : List Entry} (h : Admitted manifest entries)
    {path : BundlePath} :
    entries.countP (fun e => e.header.kind = .file ∧ e.path = path) = 1 ↔
      ∃ e ∈ entries, e.header.kind = .file ∧ e.path = path := by
  have hpaths : (entries.map Entry.path).Nodup := by
    have hkeys : ((entries.map Entry.path).map logicalKey).Nodup := by
      rw [List.map_map]
      exact h.distinct
    exact hkeys.of_map
  have hle : entries.countP (fun e => e.header.kind = .file ∧ e.path = path) ≤ 1 := by
    calc entries.countP (fun e => e.header.kind = .file ∧ e.path = path)
        ≤ entries.countP (fun e => e.path == path) :=
          List.countP_mono_left fun e _ he => by simp_all
      _ = (entries.map Entry.path).count path := by
          rw [List.count, List.countP_map]
          rfl
      _ ≤ 1 := List.nodup_iff_count_le_one.mp hpaths path
  have hpos : 0 < entries.countP (fun e => e.header.kind = .file ∧ e.path = path) ↔
      ∃ e ∈ entries, e.header.kind = .file ∧ e.path = path := by
    simp [List.countP_pos_iff]
  rw [← hpos]
  omega

theorem ensureAllDeclaredFilesObserved_eq_ok {entries : List Entry} {u : Unit}
    (h : Admitted manifest entries) :
    ensureAllDeclaredFilesObserved manifest (stateAfter entries).observedFiles = .ok u ↔
      ∀ file ∈ manifest.files,
        entries.countP (fun e => e.header.kind = .file ∧ e.path = file.path) = 1 := by
  simp only [ensureAllDeclaredFilesObserved, forEach_eq_ok, rejectIf_eq_ok, not_not, h.once_iff]
  have hmem : ∀ path, path ∈ (stateAfter entries).observedFiles ↔
      ∃ e ∈ entries, e.header.kind = .file ∧ e.path = path := by
    intro path
    simp only [stateAfter, List.mem_reverse, List.mem_map, List.mem_filterMap, Entry.candidate,
      Option.ite_none_right_eq_some, Option.some.injEq]
    constructor
    · intro hobserved
      obtain ⟨_, ⟨e, he, hkind, rfl⟩, hpath⟩ := hobserved
      exact ⟨e, he, hkind, hpath⟩
    · intro hentry
      obtain ⟨e, he, hkind, hpath⟩ := hentry
      exact ⟨_, ⟨e, he, hkind, rfl⟩, hpath⟩
  simp only [hmem]

/-- The loop ends after the entries of an archive whose trailer follows them. -/
theorem parseLoop_eq_ok
    (htree : ∀ path kind, expected.contains path kind = true ↔ Declared manifest path kind) :
    runLoop (parseStep archive expected .default) (archive.length / ustarBlockBytes + 1)
      .initial = .ok state ↔ ∃ entries trailer, archive = layout entries ++ trailer ∧
        Trailer trailer ∧ Admitted manifest entries ∧ state = stateAfter entries := by
  constructor
  · intro h
    obtain ⟨hpath, hbreak⟩ := path_of_runLoop h
    obtain ⟨entries, rest, rfl, hadmitted, rfl⟩ := reached_path htree hpath
    exact ⟨entries, rest, rfl, (parseStep_break hadmitted).mp hbreak, hadmitted, rfl⟩
  · intro h
    obtain ⟨entries, trailer, harchive, htrailer, hadmitted, rfl⟩ := h
    apply runLoop_of_path (parseLoop_returns htree) (path_of_entries htree harchive hadmitted)
    rw [harchive]
    exact (parseStep_break hadmitted).mpr htrailer

theorem parseUstar_eq_ok {archive : Bytes} {manifest : BundleManifest}
    {files : List CandidateFile} : parseUstar archive manifest .default = .ok files ↔
      ∃ entries, IsArchive archive manifest entries ∧
        files = entries.filterMap Entry.candidate := by
  simp only [parseUstar, bind_eq_ok, rejectIf_eq_ok, exists_const, pure, Except.pure,
    Except.ok.injEq]
  constructor
  · intro h
    obtain ⟨hsize, expected, hexpected, final, hfinal, _, hobserved, rfl⟩ := h
    obtain ⟨hportable, htree⟩ := fromManifest_eq_ok hexpected
    obtain ⟨entries, trailer, harchive, htrailer, hadmitted, rfl⟩ := (parseLoop_eq_ok htree).mp hfinal
    rw [not_or, not_not] at hsize
    exact ⟨entries, ⟨⟨trailer, harchive, htrailer⟩, hsize.2, hportable, hadmitted,
      (ensureAllDeclaredFilesObserved_eq_ok hadmitted).mp hobserved⟩, rfl⟩
  · intro h
    obtain ⟨entries, harchive, rfl⟩ := h
    obtain ⟨trailer, hlaidOut, htrailer⟩ := harchive.laidOut
    obtain ⟨expected, hexpected⟩ := fromManifest_ok harchive.portable
    have htree := (fromManifest_eq_ok hexpected).2
    have hadmitted := harchive.admitted
    have hsize : ¬ (archive.length < ustarBlockBytes * 2 ∨ archive.length % ustarBlockBytes ≠ 0) := by
      have hblocks := htrailer.blocks
      rw [not_or, not_not]
      refine ⟨?_, harchive.aligned⟩
      rw [hlaidOut, List.length_append]
      omega
    exact ⟨hsize, expected, hexpected, _, (parseLoop_eq_ok htree).mpr
      ⟨entries, trailer, hlaidOut, htrailer, hadmitted, rfl⟩, (),
        (ensureAllDeclaredFilesObserved_eq_ok hadmitted).mpr harchive.once, rfl⟩

/-- Under the default limits the parser always returns; it accepts exactly the archives of
the manifest's tree and yields the data of their file entries, in archive order. -/
theorem parseUstar_exact (archive : Bytes) (manifest : BundleManifest) :
    Returns (parseUstar archive manifest .default) ∧
      ∀ files, parseUstar archive manifest .default = .ok files ↔
        ∃ entries, IsArchive archive manifest entries ∧
          files = entries.filterMap Entry.candidate :=
  ⟨parseUstar_returns archive manifest, fun _ => parseUstar_eq_ok⟩

end Invokrum.Archive
