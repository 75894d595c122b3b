import Invokrum.Base.Delimited
import Invokrum.Install.Record

/-!
# What the installed-tree digest hashes

The digest of an installed tree hashes a line for each file: its path, its
length and its digest. Neither a path nor a length contains the separator, so
the hashed bytes determine the list of files.
-/

namespace Invokrum.Install

open Outcome Coding Invokrum.Distribution Invokrum.Acquisition
open Text (Bytes)

/-- The bytes that `installed_tree_digest` hashes. -/
def treeDigestPreimage (bundle : VerifiedBundle) : Except LinuxInstallStoreError Bytes := do
  let entries ← collect treeDigestEntry bundle.files
  pure (Text.bytes installedTreeDigestFormat ++ [0] ++ entries.flatten)

theorem installedTreeDigest_eq (bundle : VerifiedBundle) :
    installedTreeDigest bundle = (treeDigestPreimage bundle).map Digest.sha256LowerHex := by
  rw [installedTreeDigest, treeDigestPreimage]
  cases collect treeDigestEntry bundle.files with
  | ok entries => rfl
  | error e => rfl

/-- What the digest tells about a file. -/
def listing (file : VerifiedFile) : (BundlePath × Nat) × Sha256Digest :=
  ((file.path, file.bytes.length), file.digest)

def digits (n : Nat) : Bytes := Text.utf8 (Nat.toDigits 10 n)

/-- The line of a listed file. -/
def treeDigestLine (listed : (BundlePath × Nat) × Sha256Digest) : Bytes :=
  ((Text.bytes listed.1.1.text ++ [0]) ++ (digits listed.1.2 ++ [0])) ++
    Text.bytes listed.2.text ++ Text.utf8 ['\n']

theorem treeDigestEntry_eq {file : VerifiedFile} (h : file.bytes.length < Machine.wordSize) :
    treeDigestEntry file = .ok (treeDigestLine (listing file)) := by
  have hlength : (UInt64.ofNat file.bytes.length).toNat = file.bytes.length := by
    exact UInt64.toNat_ofNat_of_lt' h
  simp only [treeDigestEntry, byteLength, if_pos h, ok_bind, hlength, treeDigestLine, listing,
    digits, pure, Except.pure, List.append_assoc]

/-! ## Lines are delimited -/

theorem separator_not_mem_path (path : BundlePath) : 0 ∉ Text.bytes path.text := by
  intro hmem
  have hvalid := path.valid
  simp only [bundlePathValid, Bool.not_eq_true', Bool.or_eq_false_iff] at hvalid
  have hcontrol := List.any_eq_false.mp hvalid.1.2 0 hmem
  exact hcontrol (by decide)

theorem separator_not_mem_digits (n : Nat) : 0 ∉ digits n := by
  intro hmem
  obtain ⟨c, hc, hbyte⟩ := List.mem_flatMap.mp hmem
  have hdigit := Nat.isDigit_of_mem_toDigits (by decide) (by decide) hc
  simp only [Char.isDigit, Bool.and_eq_true, decide_eq_true_eq, ge_iff_le, UInt32.le_iff_toNat_le]
    at hdigit
  have hlow : 48 ≤ c.toNat := hdigit.1
  have hhigh : c.toNat ≤ 57 := hdigit.2
  rcases Text.utf8EncodeChar_cases c with ⟨_, hbytes⟩ | ⟨hge, _⟩
  · rw [hbytes, List.mem_singleton] at hbyte
    have hzero := congrArg UInt8.toNat hbyte
    rw [UInt8.toNat_ofNat', Nat.mod_eq_of_lt (by omega)] at hzero
    have hnone : (0 : UInt8).toNat = 0 := rfl
    omega
  · omega

theorem digits_injective : Function.Injective digits := by
  intro m n h
  have hdigits := Text.utf8_injective h
  have hm : Nat.ofDigitChars 10 (Nat.toDigits 10 m) 0 = m := Nat.ofDigitChars_ten_toDigits
  rw [← hm, hdigits, Nat.ofDigitChars_ten_toDigits]

theorem digest_bytes_injective :
    Function.Injective fun digest : Sha256Digest => Text.bytes digest.text :=
  fun _ _ h => Sha256Digest.text_injective (Text.bytes_injective h)

theorem treeDigestLine_delimited : Delimited treeDigestLine := by
  have hpath : Delimited fun path : BundlePath => Text.bytes path.text ++ [0] :=
    Delimited.separated 0 (fun _ _ h => BundlePath.text_injective (Text.bytes_injective h))
      separator_not_mem_path
  have hlength : Delimited fun n => digits n ++ [0] :=
    Delimited.separated 0 digits_injective separator_not_mem_digits
  have hdigest : Delimited fun digest : Sha256Digest => Text.bytes digest.text :=
    Delimited.fixed digest_bytes_injective fun digest => by
      have hvalid := digest.valid
      simp only [Digest.validSha256, Bool.and_eq_true, beq_iff_eq] at hvalid
      exact hvalid.1
  exact ((hpath.pair hlength).pair hdigest).ended (Text.utf8 ['\n'])

theorem treeDigestLine_ne_nil (listed : (BundlePath × Nat) × Sha256Digest) :
    treeDigestLine listed ≠ [] := by
  simp [treeDigestLine]

/-! ## The preimage -/

theorem VerifiedBundle.bounded {bundle : VerifiedBundle} (h : bundle.IsVerified)
    {file : VerifiedFile} (hfile : file ∈ bundle.files) :
    file.bytes.length ≤ maxBundleFileBytes := by
  obtain ⟨manifest, _, _, candidates, hb⟩ := h
  obtain ⟨_, rfl⟩ := verifyCandidate_eq_ok.mp hb
  rw [VerifiedBundle.of, ← List.map_uncurry_zip_eq_zipWith] at hfile
  obtain ⟨⟨declared, candidate⟩, _, rfl⟩ := List.mem_map.mp hfile
  exact candidate.bounded

theorem treeDigestPreimage_eq {bundle : VerifiedBundle} (h : bundle.IsVerified) :
    treeDigestPreimage bundle = .ok (Text.bytes installedTreeDigestFormat ++ [0] ++
      (bundle.files.map listing).flatMap treeDigestLine) := by
  have hentries : collect treeDigestEntry bundle.files =
      .ok (bundle.files.map fun file => treeDigestLine (listing file)) := by
    apply collect_eq_map
    intro file hfile
    apply treeDigestEntry_eq
    exact Nat.lt_of_le_of_lt (VerifiedBundle.bounded h hfile) (by decide)
  rw [treeDigestPreimage, hentries, ok_bind, List.flatMap_map, ← List.flatMap_def]
  rfl

/-- Verified bundles are hashed as the same bytes exactly when they list the same files, and then
have the same digest; without a collision only then. -/
theorem treeDigestPreimage_eq_iff (bundle bundle' : VerifiedBundle) (h : bundle.IsVerified)
    (h' : bundle'.IsVerified) :
    ∃ bytes bytes', treeDigestPreimage bundle = .ok bytes ∧
      treeDigestPreimage bundle' = .ok bytes' ∧
      (bytes = bytes' ↔ bundle.files.map listing = bundle'.files.map listing) ∧
      ((Digest.sha256LowerHex bytes = Digest.sha256LowerHex bytes' → bytes = bytes') →
        (installedTreeDigest bundle = installedTreeDigest bundle' ↔
          bundle.files.map listing = bundle'.files.map listing)) := by
  have hsame : ∀ {listed listed' : List ((BundlePath × Nat) × Sha256Digest)},
      Text.bytes installedTreeDigestFormat ++ [0] ++ listed.flatMap treeDigestLine =
        Text.bytes installedTreeDigestFormat ++ [0] ++ listed'.flatMap treeDigestLine ↔
          listed = listed' := by
    intro listed listed'
    rw [List.append_cancel_left_eq]
    exact (treeDigestLine_delimited.flatMap_injective treeDigestLine_ne_nil).eq_iff
  refine ⟨_, _, treeDigestPreimage_eq h, treeDigestPreimage_eq h', hsame, ?_⟩
  intro hfree
  rw [installedTreeDigest_eq, installedTreeDigest_eq, treeDigestPreimage_eq h,
    treeDigestPreimage_eq h', ← hsame]
  constructor
  · intro hdigests
    exact hfree (Except.ok.inj hdigests)
  · intro hbytes
    rw [hbytes]

/-! ## The sample bundle and one with a copy of its file -/

def copyPath : BundlePath := ⟨"b", by decide +kernel⟩

def copyBundle : VerifiedBundle :=
  ⟨sampleSubject, samplePath, [⟨samplePath, [97], sampleDigest⟩, ⟨copyPath, [97], sampleDigest⟩]⟩

def copyManifest : BundleManifest where
  entryPoint := samplePath
  files := [⟨samplePath, 1, sampleDigest⟩, ⟨copyPath, 1, sampleDigest⟩]
  accepted := ⟨by decide +kernel, by decide +kernel, by decide +kernel, by decide +kernel,
    by decide +kernel, by simp⟩
  sorted := by
    have h : samplePath < copyPath := by decide +kernel
    simpa using h

theorem verifyCandidate_copyBundle :
    verifyCandidate copyManifest sampleSubject sampleSubject
      [⟨copyPath, [97], by decide⟩, ⟨samplePath, [97], by decide⟩] = .ok copyBundle := by
  decide +kernel

theorem treeDigestPreimage_eq_iff_sample : ∃ bytes bytes',
    treeDigestPreimage sampleBundle = .ok bytes ∧ treeDigestPreimage copyBundle = .ok bytes' ∧
      bytes ≠ bytes' := by
  have hverified : sampleBundle.IsVerified := ⟨_, _, _, _, verifyCandidate_sample⟩
  have hverified' : copyBundle.IsVerified := ⟨_, _, _, _, verifyCandidate_copyBundle⟩
  obtain ⟨bytes, bytes', hbytes, hbytes', hsame, _⟩ :=
    treeDigestPreimage_eq_iff sampleBundle copyBundle hverified hverified'
  refine ⟨bytes, bytes', hbytes, hbytes', ?_⟩
  intro hequal
  have hlength := congrArg List.length (hsame.mp hequal)
  cases hlength

end Invokrum.Install
