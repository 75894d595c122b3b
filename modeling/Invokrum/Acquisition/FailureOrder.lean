import Invokrum.Acquisition.Candidate

/-!
# Which defect of a candidate is reported

One walk compares paths, lengths and digests, so it reports the defect with the
smallest path. The documented order, in which every path difference precedes
every wrong length and every wrong length every wrong digest, is met exactly
when the smallest defective path has a defect of the foremost kind.
-/

namespace Invokrum.Acquisition

open Outcome Ordered Invokrum.Distribution
open Text (Bytes)

/-! ## Defects -/

section Defects

variable (files : List BundleFile) (candidates : List CandidateFile)

/-- Missing from one of the two path sets. -/
def PathDefect (path : BundlePath) : Prop :=
  ¬ (path ∈ files.map (·.path) ↔ path ∈ candidates.map (·.path))

def LengthDefect (path : BundlePath) : Prop :=
  ∃ declared ∈ files, ∃ candidate ∈ candidates, declared.path = path ∧ candidate.path = path ∧
    candidate.bytes.length ≠ declared.byteLength.toNat

def DigestDefect (path : BundlePath) : Prop :=
  ∃ declared ∈ files, ∃ candidate ∈ candidates, declared.path = path ∧ candidate.path = path ∧
    candidate.bytes.length = declared.byteLength.toNat ∧
      Digest.sha256LowerHex candidate.bytes ≠ declared.digest.text

def Defect (path : BundlePath) : Prop :=
  PathDefect files candidates path ∨ LengthDefect files candidates path ∨
    DigestDefect files candidates path

/-- An error reports a defect at its path. -/
inductive Reports : CandidateVerificationError → BundlePath → Prop where
  | missing {path : BundlePath} : PathDefect files candidates path →
      Reports (.missingFile path) path
  | undeclared {path : BundlePath} : PathDefect files candidates path →
      Reports (.undeclaredFile path) path
  | length {path : BundlePath} (expected actual : Nat) : LengthDefect files candidates path →
      Reports (.lengthMismatch path expected actual) path
  | digest {path : BundlePath} : DigestDefect files candidates path →
      Reports (.digestMismatch path) path

end Defects

variable {files : List BundleFile} {candidates : List CandidateFile} {path : BundlePath}

/-- A defect lies at a path of the candidates or of the manifest. -/
theorem Defect.mem (h : Defect files candidates path) :
    path ∈ files.map (·.path) ∨ path ∈ candidates.map (·.path) := by
  by_contra hneither
  rw [not_or] at hneither
  rcases h with h | h | h
  · exact h ⟨fun hfile => absurd hfile hneither.1, fun hcandidate => absurd hcandidate hneither.2⟩
  · obtain ⟨declared, hdeclared, _, _, hpath, _⟩ := h
    exact hneither.1 (hpath ▸ List.mem_map_of_mem hdeclared)
  · obtain ⟨declared, hdeclared, _, _, hpath, _⟩ := h
    exact hneither.1 (hpath ▸ List.mem_map_of_mem hdeclared)

theorem PathDefect.not_length (h : PathDefect files candidates path) :
    ¬ LengthDefect files candidates path := by
  intro hlength
  obtain ⟨declared, hdeclared, candidate, hcandidate, hpath, hpath', _⟩ := hlength
  exact h ⟨fun _ => hpath' ▸ List.mem_map_of_mem hcandidate,
    fun _ => hpath ▸ List.mem_map_of_mem hdeclared⟩

theorem PathDefect.not_digest (h : PathDefect files candidates path) :
    ¬ DigestDefect files candidates path := by
  intro hdigest
  obtain ⟨declared, hdeclared, candidate, hcandidate, hpath, hpath', _⟩ := hdigest
  exact h ⟨fun _ => hpath' ▸ List.mem_map_of_mem hcandidate,
    fun _ => hpath ▸ List.mem_map_of_mem hdeclared⟩

theorem LengthDefect.not_digest (hfiles : (files.map (·.path)).Nodup)
    (hcandidates : (candidates.map (·.path)).Nodup) (h : LengthDefect files candidates path) :
    ¬ DigestDefect files candidates path := by
  intro hdigest
  obtain ⟨d, hd, c, hc, hdpath, hcpath, hne⟩ := h
  obtain ⟨d', hd', c', hc', hdpath', hcpath', heq, _⟩ := hdigest
  have hsame := eq_of_key_eq (·.path) hfiles hd hd' (hdpath.trans hdpath'.symm)
  have hsame' := eq_of_key_eq (·.path) hcandidates hc hc' (hcpath.trans hcpath'.symm)
  rw [hsame, hsame'] at hne
  exact hne heq

/-! ## The walk -/

/-- No key of a strictly sorted list is below that of its head. -/
theorem not_mem_of_lt_head {α : Type} {key : α → BundlePath} {x : α} {xs : List α}
    (hsorted : (x :: xs).Pairwise fun a b => key a < key b) {k : BundlePath} (h : k < key x) :
    k ∉ (x :: xs).map key := by
  intro hmem
  obtain ⟨y, hy, hkey⟩ := List.mem_map.mp hmem
  rcases List.mem_cons.mp hy with hhead | htail
  · rw [hhead] at hkey
    exact absurd hkey.symm (ne_of_lt h)
  · have hlt := (List.pairwise_cons.mp hsorted).1 y htail
    exact absurd hkey.symm (ne_of_lt (lt_trans h hlt))

section Step

variable {d : BundleFile} {c : CandidateFile}
  (hfiles : (d :: files).Pairwise fun a b => a.path < b.path)
  (hcandidates : (c :: candidates).Pairwise fun a b => a.path < b.path)
  (hdeclared : IsDeclared d c)

include hfiles hcandidates hdeclared

/-- A file that is as declared adds no defect. -/
theorem pathDefect_cons :
    PathDefect (d :: files) (c :: candidates) path ↔ PathDefect files candidates path := by
  have hd := (List.pairwise_cons.mp hfiles).1
  have hc := (List.pairwise_cons.mp hcandidates).1
  unfold PathDefect
  rw [List.map_cons, List.map_cons, List.mem_cons, List.mem_cons, hdeclared.path]
  by_cases hpath : path = d.path
  · have hfile : path ∉ files.map (·.path) := by
      intro hmem
      obtain ⟨file, hfile, hkey⟩ := List.mem_map.mp hmem
      exact absurd (hpath.symm.trans hkey.symm) (ne_of_lt (hd file hfile))
    have hcandidate : path ∉ candidates.map (·.path) := by
      intro hmem
      obtain ⟨candidate, hcandidate, hkey⟩ := List.mem_map.mp hmem
      have hlt := hc candidate hcandidate
      rw [hdeclared.path] at hlt
      exact absurd (hpath.symm.trans hkey.symm) (ne_of_lt hlt)
    simp [hpath] at hfile hcandidate ⊢
    tauto
  · simp [hpath]

/-- Two files of one path are both heads or both in the tails. -/
theorem pair_cons {P : BundleFile → CandidateFile → Prop} (hP : ¬ P d c) :
    (∃ f ∈ d :: files, ∃ c' ∈ c :: candidates, f.path = path ∧ c'.path = path ∧ P f c') ↔
      ∃ f ∈ files, ∃ c' ∈ candidates, f.path = path ∧ c'.path = path ∧ P f c' := by
  have hd := (List.pairwise_cons.mp hfiles).1
  have hc := (List.pairwise_cons.mp hcandidates).1
  constructor
  · intro h
    obtain ⟨f, hf, c', hc', hfpath, hcpath, hboth⟩ := h
    rcases List.mem_cons.mp hf with hf | hf
    · rcases List.mem_cons.mp hc' with hc' | hc'
      · rw [hf, hc'] at hboth
        exact absurd hboth hP
      · have hlt := hc c' hc'
        rw [hdeclared.path, ← hf, hfpath, hcpath] at hlt
        exact absurd hlt (lt_irrefl _)
    · rcases List.mem_cons.mp hc' with hc' | hc'
      · have hlt := hd f hf
        rw [← hdeclared.path, ← hc', hfpath, hcpath] at hlt
        exact absurd hlt (lt_irrefl _)
      · exact ⟨f, hf, c', hc', hfpath, hcpath, hboth⟩
  · intro h
    obtain ⟨f, hf, c', hc', hrest⟩ := h
    exact ⟨f, List.mem_cons_of_mem d hf, c', List.mem_cons_of_mem c hc', hrest⟩

theorem lengthDefect_cons :
    LengthDefect (d :: files) (c :: candidates) path ↔ LengthDefect files candidates path :=
  pair_cons hfiles hcandidates hdeclared fun h => h hdeclared.length

theorem digestDefect_cons :
    DigestDefect (d :: files) (c :: candidates) path ↔ DigestDefect files candidates path :=
  pair_cons hfiles hcandidates hdeclared fun h => h.2 hdeclared.digest

theorem defect_cons :
    Defect (d :: files) (c :: candidates) path ↔ Defect files candidates path := by
  unfold Defect
  rw [pathDefect_cons hfiles hcandidates hdeclared, lengthDefect_cons hfiles hcandidates hdeclared,
    digestDefect_cons hfiles hcandidates hdeclared]

theorem reports_cons {e : CandidateVerificationError} (h : Reports files candidates e path) :
    Reports (d :: files) (c :: candidates) e path := by
  cases h with
  | missing h => exact .missing ((pathDefect_cons hfiles hcandidates hdeclared).mpr h)
  | undeclared h => exact .undeclared ((pathDefect_cons hfiles hcandidates hdeclared).mpr h)
  | length expected actual h =>
      exact .length expected actual ((lengthDefect_cons hfiles hcandidates hdeclared).mpr h)
  | digest h => exact .digest ((digestDefect_cons hfiles hcandidates hdeclared).mpr h)

end Step

/-- The walk reports the smallest defective path. -/
theorem matchFiles_eq_error {e : CandidateVerificationError}
    (hfiles : files.Pairwise fun a b => a.path < b.path)
    (hcandidates : candidates.Pairwise fun a b => a.path < b.path)
    (h : matchFiles files candidates = .error e) :
    ∃ path, Reports files candidates e path ∧ ∀ path' < path, ¬ Defect files candidates path' := by
  induction files generalizing candidates with
  | nil =>
      cases candidates with
      | nil => simp [matchFiles] at h
      | cons c candidates =>
          cases h
          refine ⟨c.path, .undeclared (by simp [PathDefect]), fun path' hlt hdefect => ?_⟩
          exact not_mem_of_lt_head hcandidates hlt (hdefect.mem.resolve_left List.not_mem_nil)
  | cons d files ih =>
      cases candidates with
      | nil =>
          cases h
          refine ⟨d.path, .missing (by simp [PathDefect]), fun path' hlt hdefect => ?_⟩
          exact not_mem_of_lt_head hfiles hlt (hdefect.mem.resolve_right List.not_mem_nil)
      | cons c candidates =>
          have habsent : ∀ path' < d.path, path' < c.path →
              ¬ Defect (d :: files) (c :: candidates) path' := fun path' hd hc hdefect =>
            hdefect.mem.elim (not_mem_of_lt_head hfiles hd) (not_mem_of_lt_head hcandidates hc)
          unfold matchFiles at h
          rcases lt_trichotomy c.path d.path with hlow | heq | hhigh
          · rw [rejectIf_of _ hlow, error_bind] at h
            cases h
            refine ⟨c.path, .undeclared fun hboth => ?_, fun path' hlt =>
              habsent path' (lt_trans hlt hlow) hlt⟩
            exact not_mem_of_lt_head hfiles hlow (hboth.mpr List.mem_cons_self)
          · rw [rejectIf_of_not _ (heq ▸ lt_irrefl _), ok_bind, rejectIf_of_not _ (heq ▸ lt_irrefl _),
              ok_bind] at h
            have hhead : ∀ path' < d.path, ¬ Defect (d :: files) (c :: candidates) path' :=
              fun path' hlt => habsent path' hlt (heq ▸ hlt)
            by_cases hlength : c.bytes.length = d.byteLength.toNat
            · by_cases hdigest : Digest.sha256LowerHex c.bytes = d.digest.text
              · have hdeclared : IsDeclared d c := ⟨heq, hlength, hdigest⟩
                rw [rejectIf_of_not _ (not_not.mpr hlength), ok_bind,
                  rejectIf_of_not _ (not_not.mpr hdigest), ok_bind] at h
                obtain ⟨path, hreports, hleast⟩ := ih (List.pairwise_cons.mp hfiles).2
                  (List.pairwise_cons.mp hcandidates).2 h
                exact ⟨path, reports_cons hfiles hcandidates hdeclared hreports,
                  fun path' hlt hdefect => hleast path' hlt
                    ((defect_cons hfiles hcandidates hdeclared).mp hdefect)⟩
              · rw [rejectIf_of_not _ (not_not.mpr hlength), ok_bind, rejectIf_of _ hdigest,
                  error_bind] at h
                cases h
                exact ⟨d.path, .digest ⟨d, List.mem_cons_self, c, List.mem_cons_self, rfl, heq,
                  hlength, hdigest⟩, hhead⟩
            · rw [rejectIf_of _ hlength, error_bind] at h
              cases h
              exact ⟨d.path, .length _ _ ⟨d, List.mem_cons_self, c, List.mem_cons_self, rfl, heq,
                hlength⟩, hhead⟩
          · rw [rejectIf_of_not _ (not_lt.mpr hhigh.le), ok_bind, rejectIf_of _ hhigh,
              error_bind] at h
            cases h
            refine ⟨d.path, .missing fun hboth => ?_, fun path' hlt =>
              habsent path' hlt (lt_trans hlt hhigh)⟩
            exact not_mem_of_lt_head hcandidates hhigh (hboth.mp List.mem_cons_self)

/-! ## The documented order -/

/-- The outcome of a candidate whose defects are reported in the documented order. -/
structure DocumentedOrder (files : List BundleFile) (candidates : List CandidateFile)
    (outcome : Except CandidateVerificationError VerifiedBundle) : Prop where
  paths : (∃ path, PathDefect files candidates path) →
    ∃ path, outcome = .error (.missingFile path) ∨ outcome = .error (.undeclaredFile path)
  lengths : ∀ path expected actual, outcome = .error (.lengthMismatch path expected actual) →
    ∀ path', ¬ PathDefect files candidates path'
  digests : ∀ path, outcome = .error (.digestMismatch path) →
    ∀ path', ¬ PathDefect files candidates path' ∧ ¬ LengthDefect files candidates path'

/-- A wrong length or digest comes after some path difference, if there is any,
and a wrong digest after some path difference or wrong length, if any length is
wrong. -/
structure ForemostFirst (files : List BundleFile) (candidates : List CandidateFile) : Prop where
  paths : ∀ path, LengthDefect files candidates path ∨ DigestDefect files candidates path →
    (∃ path', PathDefect files candidates path') → ∃ path' < path, PathDefect files candidates path'
  lengths : ∀ path, DigestDefect files candidates path →
    (∃ path', LengthDefect files candidates path') →
      ∃ path' < path, PathDefect files candidates path' ∨ LengthDefect files candidates path'

section Sorted

variable (files : List BundleFile) (candidates : List CandidateFile) (path : BundlePath)

theorem pathDefect_sortByKey :
    PathDefect files (sortByKey (·.path) candidates) path ↔ PathDefect files candidates path := by
  unfold PathDefect
  simp only [List.mem_map, mem_sortByKey]

theorem lengthDefect_sortByKey :
    LengthDefect files (sortByKey (·.path) candidates) path ↔
      LengthDefect files candidates path := by
  unfold LengthDefect
  simp only [mem_sortByKey]

theorem digestDefect_sortByKey :
    DigestDefect files (sortByKey (·.path) candidates) path ↔
      DigestDefect files candidates path := by
  unfold DigestDefect
  simp only [mem_sortByKey]

end Sorted

/-- A candidate that matches its manifest has no defect. -/
theorem Matches.no_defect {manifest : BundleManifest} (h : Matches manifest candidates)
    (path : BundlePath) : ¬ Defect manifest.files candidates path := by
  intro hdefect
  rcases hdefect with hpath | hlength | hdigest
  · exact hpath (h.paths path).symm
  · obtain ⟨declared, hdeclared, candidate, hcandidate, hpath, hpath', hne⟩ := hlength
    exact hne (h.content declared hdeclared candidate hcandidate (hpath'.trans hpath.symm)).length
  · obtain ⟨declared, hdeclared, candidate, hcandidate, hpath, hpath', _, hne⟩ := hdigest
    exact hne (h.content declared hdeclared candidate hcandidate (hpath'.trans hpath.symm)).digest

/-- The error of a candidate and its smallest defective path. -/
structure Smallest (files : List BundleFile) (candidates : List CandidateFile)
    (e : CandidateVerificationError) (path : BundlePath) : Prop where
  reports : Reports files candidates e path
  least : ∀ path' < path, ¬ Defect files candidates path'

section Order

variable {e : CandidateVerificationError} (hsmallest : Smallest files candidates e path)

include hsmallest

theorem Smallest.below {path' : BundlePath} (hdefect : Defect files candidates path')
    (hne : path' ≠ path) : path < path' :=
  lt_of_le_of_ne (not_lt.mp fun hlt => hsmallest.least path' hlt hdefect) hne.symm

theorem Smallest.foremost (hfiles : (files.map (·.path)).Nodup)
    (hcandidates : (candidates.map (·.path)).Nodup)
    (h : DocumentedOrder files candidates (.error e)) : ForemostFirst files candidates := by
  have hreports := hsmallest.reports
  constructor
  · intro path' hcontent hpaths
    have hpath : PathDefect files candidates path := by
      obtain ⟨reported, hreported⟩ := h.paths hpaths
      cases hreports with
      | missing hpath => exact hpath
      | undeclared hpath => exact hpath
      | length expected actual _ => simp at hreported
      | digest _ => simp at hreported
    refine ⟨path, hsmallest.below (.inr hcontent) ?_, hpath⟩
    intro hsame
    rw [hsame] at hcontent
    exact hcontent.elim hpath.not_length hpath.not_digest
  · intro path' hdigest hlengths
    obtain ⟨other, hother⟩ := hlengths
    have hforemost : PathDefect files candidates path ∨ LengthDefect files candidates path := by
      cases hreports with
      | missing hpath => exact .inl hpath
      | undeclared hpath => exact .inl hpath
      | length expected actual hlength => exact .inr hlength
      | digest _ => exact absurd hother (h.digests path rfl other).2
    refine ⟨path, hsmallest.below (.inr (.inr hdigest)) ?_, hforemost⟩
    intro hsame
    rw [hsame] at hdigest
    exact hforemost.elim (fun hpath => hpath.not_digest hdigest)
      fun hlength => hlength.not_digest hfiles hcandidates hdigest

/-- The smallest defect is of the foremost kind. -/
theorem Smallest.documented (h : ForemostFirst files candidates) :
    DocumentedOrder files candidates (.error e) := by
  have hreports := hsmallest.reports
  have hfirst : LengthDefect files candidates path ∨ DigestDefect files candidates path →
      ∀ path', ¬ PathDefect files candidates path' := by
    intro hcontent path' hpath
    obtain ⟨other, hlt, hother⟩ := h.paths path hcontent ⟨path', hpath⟩
    exact hsmallest.least other hlt (.inl hother)
  constructor
  · intro hpaths
    obtain ⟨other, hother⟩ := hpaths
    cases hreports with
    | missing _ => exact ⟨path, .inl rfl⟩
    | undeclared _ => exact ⟨path, .inr rfl⟩
    | length expected actual hlength => exact absurd hother (hfirst (.inl hlength) other)
    | digest hdigest => exact absurd hother (hfirst (.inr hdigest) other)
  · intro reported expected actual hreported
    cases hreports with
    | length _ _ hlength => exact hfirst (.inl hlength)
    | missing _ => simp at hreported
    | undeclared _ => simp at hreported
    | digest _ => simp at hreported
  · intro reported hreported path'
    cases hreports with
    | digest hdigest =>
        refine ⟨hfirst (.inr hdigest) path', ?_⟩
        intro hlength
        obtain ⟨other, hlt, hother⟩ := h.lengths path hdigest ⟨path', hlength⟩
        exact hother.elim (fun hpath => hsmallest.least other hlt (.inl hpath))
          fun hlength => hsmallest.least other hlt (.inr (.inl hlength))
    | missing _ => simp at hreported
    | undeclared _ => simp at hreported
    | length _ _ _ => simp at hreported

end Order

/-- A candidate within the limits verifies, or its smallest defective path is
reported. -/
theorem verifyCandidate_smallest {manifest : BundleManifest} (subject : Sha256Digest)
    (hcount : candidates.length ≤ maxBundleFiles)
    (hexpanded : (candidates.map (·.bytes.length)).sum ≤ maxBundleExpandedBytes)
    (hdistinct : (candidates.map (·.path)).Nodup) :
    (∃ bundle, verifyCandidate manifest subject subject candidates = .ok bundle ∧
      ∀ path, ¬ Defect manifest.files candidates path) ∨
    ∃ e path, verifyCandidate manifest subject subject candidates = .error e ∧
      Smallest manifest.files candidates e path := by
  have hbytes := candidateBytes_eq_ok.mpr ⟨hexpanded, rfl⟩
  have hnone := firstDuplicate_eq_none.mpr hdistinct
  have hrun : verifyCandidate manifest subject subject candidates =
      (matchFiles manifest.files (sortByKey (·.path) candidates) >>= fun _ =>
        .ok (.of manifest subject candidates)) := by
    rw [verifyCandidate, rejectIf_of_not _ (not_not.mpr rfl), ok_bind,
      rejectIf_of_not _ (not_lt.mpr hcount), ok_bind, hbytes, ok_bind, verifySorted, hnone]
    rfl
  cases hwalk : matchFiles manifest.files (sortByKey (·.path) candidates) with
  | ok u =>
      have hmatches := matches_iff.mpr ⟨hdistinct, matchFiles_eq_ok.mp hwalk⟩
      exact .inl ⟨_, by rw [hrun, hwalk, ok_bind], hmatches.no_defect⟩
  | error e =>
      obtain ⟨path, hreports, hleast⟩ := matchFiles_eq_error manifest.sorted
        (sortByKey_strict _ hdistinct) hwalk
      refine .inr ⟨e, path, by rw [hrun, hwalk, error_bind], ?_, ?_⟩
      · cases hreports with
        | missing h => exact .missing ((pathDefect_sortByKey _ _ _).mp h)
        | undeclared h => exact .undeclared ((pathDefect_sortByKey _ _ _).mp h)
        | length expected actual h => exact .length _ _ ((lengthDefect_sortByKey _ _ _).mp h)
        | digest h => exact .digest ((digestDefect_sortByKey _ _ _).mp h)
      · intro path' hlt hdefect
        apply hleast path' hlt
        unfold Defect
        rw [pathDefect_sortByKey, lengthDefect_sortByKey, digestDefect_sortByKey]
        exact hdefect

/-- The documented order is met exactly when the foremost kind of defect comes
first in path order. -/
theorem verifyCandidate_documented_iff (manifest : BundleManifest) (subject : Sha256Digest)
    (candidates : List CandidateFile) (hcount : candidates.length ≤ maxBundleFiles)
    (hexpanded : (candidates.map (·.bytes.length)).sum ≤ maxBundleExpandedBytes)
    (hdistinct : (candidates.map (·.path)).Nodup) :
    DocumentedOrder manifest.files candidates
        (verifyCandidate manifest subject subject candidates) ↔
      ForemostFirst manifest.files candidates := by
  rcases @verifyCandidate_smallest candidates manifest subject hcount hexpanded hdistinct with
    ⟨bundle, hok, hnone⟩ | ⟨e, path, herror, hsmallest⟩
  · rw [hok]
    constructor
    · intro _
      exact ⟨fun path h => absurd (.inr h) (hnone path),
        fun path h => absurd (.inr (.inr h)) (hnone path)⟩
    · intro _
      refine ⟨?_, by simp, by simp⟩
      intro h
      obtain ⟨path, hpath⟩ := h
      exact absurd (.inl hpath) (hnone path)
  · rw [herror]
    exact ⟨hsmallest.foremost manifest.accepted.distinct hdistinct, hsmallest.documented⟩

/-! ## A resized file before a missing one -/

def contentDigest (bytes : Bytes) : Sha256Digest :=
  ⟨Digest.sha256LowerHex bytes, Digest.sha256LowerHex_valid bytes⟩

def resizedFile : BundleFile := ⟨⟨"alpha", by decide +kernel⟩, 1, contentDigest [97]⟩

def missedFile : BundleFile := ⟨⟨"beta", by decide +kernel⟩, 0, contentDigest []⟩

def twoFileManifest : BundleManifest where
  entryPoint := resizedFile.path
  files := [resizedFile, missedFile]
  accepted := ⟨by simp, by decide +kernel, by decide +kernel, by decide +kernel, by decide +kernel,
    by simp⟩
  sorted := by
    have h : resizedFile.path < missedFile.path := by decide +kernel
    simpa using h

def resizedCandidate : CandidateFile := ⟨resizedFile.path, [], by decide⟩

/-- The wrong length of the first file hides that the second is missing. -/
theorem verifyCandidate_undocumented :
    [resizedCandidate].length ≤ maxBundleFiles ∧
      ([resizedCandidate].map (·.bytes.length)).sum ≤ maxBundleExpandedBytes ∧
      ([resizedCandidate].map (·.path)).Nodup ∧
      verifyCandidate twoFileManifest missedFile.digest missedFile.digest [resizedCandidate] =
        .error (.lengthMismatch resizedFile.path 1 0) ∧
      ¬ DocumentedOrder twoFileManifest.files [resizedCandidate]
        (verifyCandidate twoFileManifest missedFile.digest missedFile.digest
          [resizedCandidate]) := by
  have hrun : verifyCandidate twoFileManifest missedFile.digest missedFile.digest
      [resizedCandidate] = .error (.lengthMismatch resizedFile.path 1 0) := by
    decide +kernel
  refine ⟨by decide, by decide, by simp, hrun, ?_⟩
  rw [hrun]
  intro h
  have hmissing : PathDefect twoFileManifest.files [resizedCandidate] missedFile.path := by
    unfold PathDefect
    decide
  exact h.lengths _ _ _ rfl _ hmissing

/-! ## Defects of every kind behind an undeclared file -/

def alteredFile : BundleFile := ⟨⟨"beta", by decide +kernel⟩, 1, contentDigest [98]⟩

def absentFile : BundleFile := ⟨⟨"gamma", by decide +kernel⟩, 0, contentDigest []⟩

def threeFileManifest : BundleManifest where
  entryPoint := resizedFile.path
  files := [resizedFile, alteredFile, absentFile]
  accepted := ⟨by simp, by decide +kernel, by decide +kernel, by decide +kernel, by decide +kernel,
    by simp⟩
  sorted := by
    have h : (resizedFile.path < alteredFile.path ∧ resizedFile.path < absentFile.path) ∧
        alteredFile.path < absentFile.path := by decide +kernel
    simpa using h

def alteredCandidate : CandidateFile := ⟨alteredFile.path, [99], by decide⟩

def undeclaredCandidate : CandidateFile := ⟨⟨"aardvark", by decide +kernel⟩, [], by decide⟩

def defectiveCandidates : List CandidateFile :=
  [alteredCandidate, undeclaredCandidate, resizedCandidate]

theorem undeclared_pathDefect :
    PathDefect threeFileManifest.files defectiveCandidates undeclaredCandidate.path := by
  unfold PathDefect
  decide +kernel

/-- Every declared path is above that of the undeclared file. -/
theorem undeclared_lt {path : BundlePath} {P : BundleFile → CandidateFile → Prop}
    (h : ∃ declared ∈ threeFileManifest.files, ∃ candidate ∈ defectiveCandidates,
      declared.path = path ∧ candidate.path = path ∧ P declared candidate) :
    undeclaredCandidate.path < path := by
  have hfiles : ∀ declared ∈ threeFileManifest.files, undeclaredCandidate.path < declared.path := by
    decide +kernel
  obtain ⟨declared, hdeclared, _, _, hpath, _⟩ := h
  rw [← hpath]
  exact hfiles declared hdeclared

theorem defective_foremostFirst :
    ForemostFirst threeFileManifest.files defectiveCandidates := by
  constructor
  · intro path hcontent _
    exact ⟨_, hcontent.elim undeclared_lt undeclared_lt, undeclared_pathDefect⟩
  · intro path hdigest _
    exact ⟨_, undeclared_lt hdigest, .inl undeclared_pathDefect⟩

theorem verifyCandidate_documented_sample :
    PathDefect threeFileManifest.files defectiveCandidates absentFile.path ∧
      LengthDefect threeFileManifest.files defectiveCandidates resizedFile.path ∧
      DigestDefect threeFileManifest.files defectiveCandidates alteredFile.path ∧
      DocumentedOrder threeFileManifest.files defectiveCandidates
        (verifyCandidate threeFileManifest absentFile.digest absentFile.digest
          defectiveCandidates) := by
  have hmissing : PathDefect threeFileManifest.files defectiveCandidates absentFile.path := by
    unfold PathDefect
    decide +kernel
  have hlength : LengthDefect threeFileManifest.files defectiveCandidates resizedFile.path :=
    ⟨resizedFile, by decide +kernel, resizedCandidate, by decide +kernel, rfl, rfl, by decide⟩
  have hdigest : DigestDefect threeFileManifest.files defectiveCandidates alteredFile.path :=
    ⟨alteredFile, by decide +kernel, alteredCandidate, by decide +kernel, rfl, rfl, rfl,
      by decide +kernel⟩
  exact ⟨hmissing, hlength, hdigest,
    (verifyCandidate_documented_iff threeFileManifest absentFile.digest defectiveCandidates
      (by decide) (by decide) (by decide +kernel)).mpr defective_foremostFirst⟩

end Invokrum.Acquisition
