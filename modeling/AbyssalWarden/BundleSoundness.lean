import AbyssalWarden.Bundle
import AbyssalWarden.KeyVerification

/-! What a loaded bundle has behind it: enough distinct signatures over the bytes of its
manifest, a manifest that keeps every rule, and the files the manifest pins. -/
namespace AbyssalWarden

variable {ms : Minisign} {dir : String} {content : BundleDir} {data : Bytes}
  {keys : TrustedKeys ms} {now : OffsetDateTime}

theorem readBounded_eq_ok {name : String} {limit : ℕ}
    (h : readBounded dir content name limit = .ok data) :
    content.read name = .ok data ∧ data.length ≤ limit := by
  unfold readBounded at h
  split at h
  · cases h
  · rename_i full hread
    simp only at h
    split at h
    · cases h
    · rename_i hlen
      cases h
      have hshort : full.length ≤ limit := by
        rw [List.length_take] at hlen
        omega
      rw [List.take_of_length_le (by omega)]
      exact ⟨hread, hshort⟩

/-- The signature file is present and the key signed `data` with it, holding the content role,
not revoked and inside its window. -/
def SignedBy (dir : String) (content : BundleDir) (data : Bytes) (keys : TrustedKeys ms)
    (now : OffsetDateTime) (name : String) (id : KeyId) : Prop :=
  ∃ sigBytes text sig, readBounded dir content name maxSignatureBytes = .ok sigBytes ∧
    fromUtf8 sigBytes = some text ∧ ms.decode text = .ok sig ∧
    ∃ k ∈ keys.keys, k.id = id ∧ k.Accepts data sig now .content

/-- After the signature files `names`, the signers are the keys that signed in one of them. -/
structure Signatures.Sound (dir : String) (content : BundleDir) (data : Bytes)
    (keys : TrustedKeys ms) (now : OffsetDateTime) (names : List String) (s : Signatures) : Prop where
  nodup : s.signers.Nodup
  mem_iff : ∀ id, id ∈ s.signers ↔ ∃ name ∈ names, SignedBy dir content data keys now name id

theorem signedBy_iff_verify (path : String) {name : String} {id : KeyId} :
    SignedBy dir content data keys now name id ↔
      ∃ sigBytes text, readBounded dir content name maxSignatureBytes = .ok sigBytes ∧
        fromUtf8 sigBytes = some text ∧
        ∃ comment, keys.verify data text path now = .ok (id, comment) := by
  simp only [TrustedKeys.verify, TrustedKeys.verifyRole_eq_ok]
  constructor
  · rintro ⟨sigBytes, text, sig, hread, htext, hdec, hk⟩
    exact ⟨sigBytes, text, hread, htext, _, sig, hdec, rfl, hk⟩
  · rintro ⟨sigBytes, text, hread, htext, _, sig, hdec, _, hk⟩
    exact ⟨sigBytes, text, sig, hread, htext, hdec, hk⟩

/-- One more signature file keeps the account. -/
theorem verifySignature_sound {names : List String} {acc acc' : Signatures} {name : String}
    (hacc : acc.Sound dir content data keys now names)
    (h : verifySignature dir content data keys now acc name = .ok acc') :
    acc'.Sound dir content data keys now (names ++ [name]) := by
  -- a file that is no signature of a trusted key leaves the signers as they were
  have hkeep (hnone : ∀ id, ¬ SignedBy dir content data keys now name id) (acc₁ : Signatures)
      (hs : acc₁.signers = acc.signers) : acc₁.Sound dir content data keys now (names ++ [name]) := by
    refine ⟨hs ▸ hacc.nodup, fun id => ?_⟩
    rw [hs, hacc.mem_iff]
    simp [or_and_right, exists_or, hnone]
  unfold verifySignature at h
  split at h
  · rename_i p hread
    cases h
    exact hkeep (fun id ⟨_, _, _, hr, _⟩ => by simp [hread] at hr) acc rfl
  · cases h
  · rename_i sigBytes hread
    split at h
    · rename_i htext
      cases h
      refine hkeep (fun id ⟨_, _, _, hr, ht, _⟩ => ?_) _ rfl
      rw [hread] at hr
      cases hr
      simp [htext] at ht
    · rename_i text htext
      -- the file can be read and is text, so all depends on the verification
      have hsigned (id : KeyId) : SignedBy dir content data keys now name id ↔
          ∃ comment, keys.verify data text (joinPath dir manifestFile) now = .ok (id, comment) := by
        rw [signedBy_iff_verify (joinPath dir manifestFile)]
        simp [hread, htext]
      split at h
      · rename_i id comment hver
        have honly (id' : KeyId) : SignedBy dir content data keys now name id' ↔ id' = id := by
          rw [hsigned, hver]
          simp [eq_comm]
        -- a key that signed before is not counted again
        split at h
        · rename_i hmem
          cases h
          refine ⟨hacc.nodup, fun id' => ?_⟩
          have hin := (hacc.mem_iff id).mp hmem
          simp only [hacc.mem_iff, List.mem_append, List.mem_singleton, or_and_right, exists_or,
            exists_eq_left, honly]
          constructor
          · exact .inl
          · rintro (h' | rfl)
            · exact h'
            · exact hin
        · rename_i hmem
          cases h
          refine ⟨?_, fun id' => ?_⟩
          · rw [List.nodup_append]
            refine ⟨hacc.nodup, List.nodup_singleton _, ?_⟩
            intro a ha b hb hab
            exact hmem (by rwa [hab, List.mem_singleton.mp hb] at ha)
          · simp [hacc.mem_iff, or_and_right, exists_or, honly]
      · rename_i e hver
        cases h
        refine hkeep (fun id hs => ?_) _ rfl
        obtain ⟨comment, hok⟩ := (hsigned id).mp hs
        rw [hver] at hok
        cases hok

theorem verifySignatures_loop {names rest : List String} {acc acc' : Signatures}
    (hacc : acc.Sound dir content data keys now names)
    (h : checkEach (verifySignature dir content data keys now) acc rest = .ok acc') :
    acc'.Sound dir content data keys now (names ++ rest) := by
  induction rest generalizing names acc with
  | nil =>
    cases h
    simpa using hacc
  | cons name rest ih =>
    obtain ⟨acc₁, hname, hrest⟩ := checkEach_cons_eq_ok.mp h
    have hstep := ih (verifySignature_sound hacc hname) hrest
    rwa [List.append_assoc] at hstep

/-- Accepted signatures: no signer twice, enough of them, and exactly the keys that signed. -/
theorem verifySignatures_eq_ok {signers : List KeyId}
    (h : verifySignatures dir content data keys now = .ok signers) :
    signers.Nodup ∧ keys.requiredSignatures ≤ signers.length ∧
      ∀ id, id ∈ signers ↔ ∃ name ∈ signatureNames, SignedBy dir content data keys now name id := by
  simp only [verifySignatures, except_bind_eq_ok, refuseIf_eq_ok, exists_const, Except.ok.injEq]
    at h
  obtain ⟨found, hloop, _, hlen, rfl⟩ := h
  have hstart : Signatures.Sound dir content data keys now [] ⟨[], [], false⟩ :=
    ⟨List.nodup_nil, fun id => by simp⟩
  have hsound := verifySignatures_loop hstart hloop
  exact ⟨hsound.nodup, by omega, hsound.mem_iff⟩

/-! ### The listed files -/

variable {sha256 : Bytes → Sha256Digest}

/-- The file has the listed path, kind, size and hash, and its bytes are those of a file below the
bundle directory. -/
structure BundleFile.Matches (sha256 : Bytes → Sha256Digest) (content : BundleDir)
    (entry : ManifestFile) (f : BundleFile) : Prop where
  path_eq : f.path = entry.path
  kind_eq : f.kind = entry.kind
  size_eq : f.data.length = entry.size
  sha256_eq : sha256 f.data = entry.sha256
  inside : content.openWith entry.path = .ok f.data ∧ ∃ place, content.files place = some f.data

theorem readListed_eq_ok {entry : ManifestFile} (hsize : entry.size ≤ maxContentFileBytes)
    (h : readListed sha256 content entry = .ok data) :
    content.openWith entry.path = .ok data ∧ data.length = entry.size ∧
      sha256 data = entry.sha256 := by
  simp only [readListed, except_bind_eq_ok, mapError_eq_ok, refuseIf_eq_ok, exists_const,
    Except.ok.injEq, Decidable.not_not] at h
  obtain ⟨full, hopen, hlen, hsha, rfl⟩ := h
  have hlimit : maxContentFileBytes + 1 ≤ 2 ^ 64 - 1 := by decide
  have hmin : min (entry.size + 1) (2 ^ 64 - 1) = entry.size + 1 := by omega
  rw [hmin] at hlen hsha ⊢
  have hfull : full.take (entry.size + 1) = full := by
    rw [List.length_take] at hlen
    exact List.take_of_length_le (by omega)
  rw [hfull] at hlen hsha ⊢
  exact ⟨hopen, hlen, hsha⟩

theorem readFiles_matches {entries : List ManifestFile} {done : List ManifestFile}
    {files files' : List BundleFile} (hsizes : ∀ e ∈ entries, e.size ≤ maxContentFileBytes)
    (hdone : List.Forall₂ (BundleFile.Matches sha256 content) done files)
    (h : checkEach (readFile sha256 content) files entries = .ok files') :
    List.Forall₂ (BundleFile.Matches sha256 content) (done ++ entries) files' := by
  induction entries generalizing done files with
  | nil =>
    cases h
    simpa using hdone
  | cons entry entries ih =>
    obtain ⟨files₁, hentry, hrest⟩ := checkEach_cons_eq_ok.mp h
    simp only [readFile, except_bind_eq_ok, Except.ok.injEq] at hentry
    obtain ⟨data, hdata, rfl⟩ := hentry
    obtain ⟨hopen, hlen, hsha⟩ := readListed_eq_ok (hsizes entry List.mem_cons_self) hdata
    have hmatch : BundleFile.Matches sha256 content entry ⟨entry.path, entry.kind, data⟩ :=
      ⟨rfl, rfl, hlen, hsha, hopen, content.openWith_inside _ _ hopen⟩
    have hsnoc := List.rel_append hdone (List.Forall₂.cons hmatch List.Forall₂.nil)
    have hall := ih (fun e he => hsizes e (List.mem_cons_of_mem _ he)) hsnoc hrest
    rwa [List.append_assoc] at hall

/-! ### The bundle -/

/-- What is behind a bundle loaded from the manifest bytes `data`. -/
structure VerifiedBundle.Sound (sha256 : Bytes → Sha256Digest)
    (parseManifest : Bytes → Except String Manifest) (dir : String) (content : BundleDir)
    (keys : TrustedKeys ms) (opts : LoadOptions) (data : Bytes) (b : VerifiedBundle) : Prop where
  manifest_read : content.read manifestFile = .ok data
  manifest_parsed : parseManifest data = .ok b.manifest
  manifestSha256_eq : b.manifestSha256 = sha256 data
  signers_nodup : b.signers.Nodup
  threshold_le : max keys.threshold 1 ≤ b.signers.length
  mem_signers_iff : ∀ id, id ∈ b.signers ↔
    ∃ name ∈ signatureNames, SignedBy dir content data keys opts.now name id
  manifest_valid : b.manifest.Valid
  expired_iff : b.expired = true ↔ opts.now > b.manifest.expires
  expired_allowed : b.expired = true → opts.allowExpired = true
  files_match : List.Forall₂ (BundleFile.Matches sha256 content) b.manifest.files b.files

theorem loadBundle_eq_ok {parseManifest : Bytes → Except String Manifest} {opts : LoadOptions}
    {b : VerifiedBundle} : loadBundle sha256 parseManifest dir content keys opts = .ok b ↔
      keys.isEmpty = false ∧ ∃ data, readBounded dir content manifestFile maxManifestBytes = .ok data ∧
        verifySignatures dir content data keys opts.now = .ok b.signers ∧
        parseManifest data = .ok b.manifest ∧ b.manifest.validate = .ok () ∧
        (b.expired = true → opts.allowExpired = true) ∧ content.openDir = .ok () ∧
        checkEach (readFile sha256 content) [] b.manifest.files = .ok b.files ∧
        b.dir = dir ∧ b.manifestSha256 = sha256 data ∧
        b.expired = decide (opts.now > b.manifest.expires) := by
  simp only [loadBundle, except_bind_eq_ok, refuseIf_eq_ok, mapError_eq_ok, exists_const,
    Except.ok.injEq, not_and, Bool.not_eq_true, Bool.not_eq_false]
  constructor
  · rintro ⟨hkeys, data, hread, signers, hsig, manifest, hparse, _, hvalid, hexp, _, hopen, files,
      hfiles, rfl⟩
    exact ⟨hkeys, data, hread, hsig, hparse, hvalid, hexp, hopen, hfiles, rfl, rfl, rfl⟩
  · rintro ⟨hkeys, data, hread, hsig, hparse, hvalid, hexp, hopen, hfiles, hdir, hsha, hexpired⟩
    refine ⟨hkeys, data, hread, b.signers, hsig, b.manifest, hparse, (), hvalid, ?_, (), hopen,
      b.files, hfiles, ?_⟩
    · rwa [← hexpired]
    · rw [← hdir, ← hsha, ← hexpired]

/-- Every signer of a loaded bundle verified something with the keys it was loaded with. -/
theorem loadBundle_signers {parseManifest : Bytes → Except String Manifest} {opts : LoadOptions}
    {b : VerifiedBundle} (h : loadBundle sha256 parseManifest dir content keys opts = .ok b) :
    ∀ id ∈ b.signers, ∃ data text path comment,
      keys.verifyRole data text path opts.now .content = .ok (id, comment) := by
  obtain ⟨_, data, _, hsig, _⟩ := loadBundle_eq_ok.mp h
  intro id hid
  obtain ⟨name, _, sigBytes, text, sig, hread, htext, hdec, hk⟩ :=
    ((verifySignatures_eq_ok hsig).2.2 id).mp hid
  exact ⟨data, text, "", _, TrustedKeys.verifyRole_eq_ok.mpr ⟨sig, hdec, rfl, hk⟩⟩

/-- A bundle is loaded only with all of it. -/
theorem load_bundle_sound {parseManifest : Bytes → Except String Manifest} {opts : LoadOptions}
    {b : VerifiedBundle} (h : loadBundle sha256 parseManifest dir content keys opts = .ok b) :
    ∃ data, b.Sound sha256 parseManifest dir content keys opts data := by
  obtain ⟨_, data, hread, hsig, hparse, hvalid, hallowed, _, hfiles, _, hsha, hexpired⟩ :=
    loadBundle_eq_ok.mp h
  have hval := b.manifest.validate_eq_ok_iff.mp hvalid
  obtain ⟨hnodup, hthreshold, hmem⟩ := verifySignatures_eq_ok hsig
  exact ⟨data, (readBounded_eq_ok hread).1, hparse, hsha, hnodup, hthreshold, hmem, hval,
    by simp [hexpired], hallowed, readFiles_matches hval.sizes_le List.Forall₂.nil hfiles⟩

/-! ### A bundle with one empty file -/

def emptySha256 : Sha256Digest :=
  ⟨[227, 176, 196, 66, 152, 252, 28, 20, 154, 251, 244, 200, 153, 111, 185, 36,
    39, 174, 65, 228, 100, 155, 147, 76, 164, 149, 153, 27, 120, 82, 184, 85], rfl⟩

def officialSha256 : Sha256Digest :=
  ⟨[250, 139, 167, 32, 37, 196, 123, 42, 23, 191, 255, 193, 166, 88, 208, 76,
    11, 228, 44, 151, 126, 168, 88, 185, 95, 110, 72, 244, 67, 200, 51, 178], rfl⟩

def officialJson : Bytes :=
  ("\x7b\"format\":\"abyssal-warden.content-manifest\",\"format_version\":1,\"name\":\"official\"," ++
  "\"sequence\":1,\"issued\":\"1970-01-01T00:00:00Z\",\"expires\":\"1970-01-02T00:00:00Z\"," ++
  "\"files\":[\x7b\"path\":\"NOTICE\",\"kind\":\"notice\",\"size\":0,\"sha256\":" ++
  "\"e3b0c44298fc1c149afbf4c8996fb92427ae41e4649b934ca495991b7852b855\"\x7d]\x7d").toUTF8.data.toList

/-- The digests of the two files of the bundle. -/
def officialDigests (data : Bytes) : Sha256Digest :=
  if data = officialJson then officialSha256 else emptySha256

def officialManifest : Manifest where
  format := manifestFormat
  formatVersion := 1
  name := "official"
  sequence := 1
  issued := epoch
  expires := ⟨nanosPerDay, by decide⟩
  files := [⟨"NOTICE", .notice, 0, emptySha256⟩]
  revokeKeys := []

def parseOfficial (data : Bytes) : Except String Manifest :=
  if data = officialJson then .ok officialManifest else .error "not a manifest"

def officialDir : BundleDir :=
  dirOf [("manifest.json", officialJson),
    ("manifest.json.minisig", "AAAAAAAAAABF".toUTF8.data.toList), ("NOTICE", [])]

def officialBundle : VerifiedBundle where
  dir := "content/official"
  manifest := officialManifest
  manifestSha256 := officialSha256
  signers := [zeroId]
  expired := false
  files := [⟨"NOTICE", .notice, []⟩]

theorem load_bundle_sound_official :
    ∃ data, officialBundle.Sound officialDigests parseOfficial "content/official" officialDir
      (zeroKeys [.content]) ⟨false, epoch⟩ data := by
  have hload : loadBundle officialDigests parseOfficial "content/official" officialDir
      (zeroKeys [.content]) ⟨false, epoch⟩ = .ok officialBundle := by
    decide +kernel
  exact load_bundle_sound hload

end AbyssalWarden
