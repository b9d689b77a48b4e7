import AbyssalWarden.PublisherAgreement

/-! The publisher checks each rule file alone, the loader limits the manifest and all rules together: where they part. -/
namespace AbyssalWarden

open Signatures (DatabaseSerde)
open Yara (Compiler)

variable {ms : Minisign} {dirName : String} {keys : TrustedKeys ms} {opts : LoadOptions} {serde : DatabaseSerde}
  {c : Compiler} {sha256 : Bytes → Sha256Digest} {codec : ManifestCodec} {args : ManifestArgs} {pubTime : OffsetDateTime}
  {disk : Except String Unit} {entries after : Entries} {published : Published} {n : ℕ}

/-- Signatures of enough keys were placed beside the manifest, and all that is placed there can be read. -/
structure SignedBeside (dirName : String) (keys : TrustedKeys ms) (now : OffsetDateTime) (stored after : Entries) :
    Prop where
  placed : SignaturesPlaced stored after
  readable : ∀ name ∈ signatureNames, ReadableSignature after.bundleDir name
  enough : ∀ data, after.bundleDir.read manifestFile = .ok data →
    EnoughSigned dirName after.bundleDir data keys now

/-- What was published and signed is accepted before it expires, exactly when the manifest is not too long, and neither
the rules nor their sources are too many together. -/
theorem published_agrees_iff (hc : c.Separates) (hvalid : entries.Valid)
    (hpublished : writeManifest serde c sha256 codec args pubTime disk entries = .ok published)
    (hsigned : SignedBeside dirName keys opts.now published.entries after)
    (hnow : opts.now ≤ published.manifest.expires) :
    Accepted serde c sha256 codec dirName keys opts entries after published.manifest ↔
      WithinLimits c sha256 codec args pubTime entries := by
  rw [accepted_iff hc hvalid (writeManifest_ok hpublished) hsigned.placed hsigned.enough hnow]
  exact ⟨fun h => h.toWithinLimits, fun h => ⟨h, hsigned.readable⟩⟩

/-- One signature beside a manifest, where nothing stood at the names of signatures. -/
theorem signedBeside_put {stored : Entries} {data : Bytes} {sig : String} {now : OffsetDateTime} {id : KeyId}
    {comment path : String} (hfree : ∀ name ∈ signatureNames, stored.find (utf8Bytes name) = none)
    (hread : stored.bundleDir.read manifestFile = .ok data) (hlength : (utf8Bytes sig).length ≤ maxSignatureBytes)
    (hverify : keys.verify data sig path now = .ok (id, comment)) (hrequired : keys.requiredSignatures ≤ 1) :
    SignedBeside dirName keys now stored (stored.put (utf8Bytes "manifest.json.minisig") (utf8Bytes sig)) where
  placed := signaturesPlaced_put (hfree _ List.mem_cons_self)
  readable name hname := by
    have hafter : (stored.put (utf8Bytes "manifest.json.minisig") (utf8Bytes sig)).bundleDir.read name =
        readFound (if name = "manifest.json.minisig" then some (.file (.ok (utf8Bytes sig))) else none) := by
      change readFound (Entries.find _ _) = _
      rw [find_put_signature, hfree name hname]
    rw [ReadableSignature, hafter]
    split
    · exact Or.inr ⟨utf8Bytes sig, rfl, hlength⟩
    · exact Or.inl rfl
  enough data' hdata := by
    have hmanifest : (stored.put (utf8Bytes "manifest.json.minisig") (utf8Bytes sig)).bundleDir.read manifestFile =
        .ok data := by
      rw [← hread]
      change readFound (Entries.find _ _) = readFound _
      rw [find_put_signature, if_neg (by decide)]
    obtain rfl := Except.ok.inj (hmanifest.symm.trans hdata)
    exact enoughSigned_put hlength hverify hrequired

theorem smallSigned_beside :
    SignedBeside "content/official" (zeroKeys [.content]) epoch smallStored smallSigned :=
  signedBeside_put (by decide) (rfl : smallStored.bundleDir.read manifestFile = .ok (smallJson ++ [0x0A]))
    (by decide) (by decide +kernel : (zeroKeys [.content]).verify (smallJson ++ [0x0A]) "AAAAAAAAAABx"
      "content/official/manifest.json" epoch = .ok (zeroId, "")) le_rfl

theorem published_agrees_small :
    Accepted noDatabases blankCompiler smallDigests smallCodec "content/official" (zeroKeys [.content]) ⟨false, epoch⟩
        smallTree smallSigned smallManifest ↔
      WithinLimits blankCompiler smallDigests smallCodec smallArgs epoch smallTree :=
  published_agrees_iff blankCompiler_separates smallTree_valid smallTree_written smallSigned_beside (by decide)

/-! ### Two rule files of blanks -/

def blankText (n : ℕ) : String := String.ofList (List.replicate n ' ')

theorem blankText_size (n : ℕ) : (blankText n).utf8ByteSize = n := by
  rw [blankText, utf8ByteSize_ascii, List.length_replicate]
  intro c hc
  obtain ⟨-, rfl⟩ := List.mem_replicate.mp hc
  decide

theorem blankText_alone (ns : String) (n : ℕ) : blankCompiler.alone ns (blankText n) = .ok [] := by
  have hblank : (blankText n).toList.all isWhitespace = true := by
    rw [blankText, String.toList_ofList, List.all_eq_true]
    intro c hc
    obtain ⟨-, rfl⟩ := List.mem_replicate.mp hc
    decide
  have hadd : blankCompiler.addSource () (blankText n) = .ok () := if_pos hblank
  exact except_map_eq_ok.mpr ⟨(), hadd, rfl⟩

/-- Blanks within the limit pass the check of a rule file. -/
theorem contentKind_blanks {rel : String} (hn : n ≤ Yara.maxSourceBytes) (hnotice : isNotice rel = false)
    (hextension : extension rel = some "yar".toList) :
    contentKind serde blankCompiler sha256 rel (utf8Bytes (blankText n)) = .ok .yaraRules := by
  have halone : ∃ det, Yara.compile blankCompiler sha256 [⟨"check", rel, blankText n⟩] none = .ok det := by
    refine (Yara.compile_alone_iff (by decide)).mpr ⟨?_, [], blankText_alone "check" n, Nat.zero_le _, ?_⟩
    · rwa [blankText_size]
    · exact fun _ h => absurd h List.not_mem_nil
  obtain ⟨det, hdet⟩ := halone
  have hjson : ¬ extension rel = some "json".toList := by
    rw [hextension]
    decide
  have hrules : checkRules blankCompiler sha256 rel (utf8Bytes (blankText n)) = .ok () := by
    rw [checkRules, Json.fromUtf8_utf8Bytes]
    exact except_map_eq_ok.mpr ⟨det, mapError_eq_ok.mpr hdet, rfl⟩
  rw [contentKind, if_neg (by rw [hnotice]; decide), if_neg hjson, if_pos (Or.inl hextension), hrules]
  rfl

def blankTree (n : ℕ) : Entries :=
  .file (utf8Bytes "a.yar") (.ok (utf8Bytes (blankText n)))
    (.file (utf8Bytes "b.yar") (.ok (utf8Bytes (blankText n))) .nil)

theorem blankTree_valid (n : ℕ) : (blankTree n).Valid := by
  have hnames : utf8Bytes "a.yar" ∉ [utf8Bytes "b.yar"] := by decide
  exact ⟨unseparated (by decide), hnames, unseparated (by decide), List.not_mem_nil, trivial⟩

theorem blankTree_collect (n : ℕ) : collect [] (blankTree n) [] = .ok ["a.yar", "b.yar"] := by
  have ha : visit [] (utf8Bytes "a.yar") [] (fun name => addFile (joinComponents ([] ++ [name])) []) = .ok ["a.yar"] := by
    decide
  have hb : visit [] (utf8Bytes "b.yar") ["a.yar"] (fun name => addFile (joinComponents ([] ++ [name])) ["a.yar"]) =
      .ok ["a.yar", "b.yar"] := by
    decide
  exact except_bind_eq_ok.mpr ⟨_, ha, except_bind_eq_ok.mpr ⟨_, hb, rfl⟩⟩

theorem blankTree_walk {p : String} (hp : p ∈ ["a.yar", "b.yar"]) :
    (blankTree n).walk (pathComponents p) = some (.file (.ok (utf8Bytes (blankText n)))) := by
  have hsingle : ∀ p ∈ ["a.yar", "b.yar"], pathComponents p = [p.toList] := by decide
  rw [hsingle p hp, Entries.walk, String.ofList_toList]
  have hfind : (blankTree n).find (utf8Bytes p) = some (.file (.ok (utf8Bytes (blankText n)))) := by
    by_cases ha : utf8Bytes "a.yar" = utf8Bytes p
    · rw [blankTree, Entries.find, if_pos ha]
    · obtain rfl : p = "b.yar" := by
        rcases List.mem_cons.mp hp with rfl | hb
        · exact absurd rfl ha
        · exact List.mem_singleton.mp hb
      rw [blankTree, Entries.find, if_neg ha, Entries.find, if_pos rfl]
  rw [hfind]
  rfl

/-- A rule file of blanks is listed with its size and digest. -/
theorem listFile_blanks {files : List ManifestFile} {p : String} (hn : n ≤ Yara.maxSourceBytes)
    (hp : p ∈ ["a.yar", "b.yar"]) : listFile serde blankCompiler sha256 (blankTree n) files p =
      .ok (files ++ [⟨p, .yaraRules, n, sha256 (utf8Bytes (blankText n))⟩]) := by
  have hnamed : ∀ p ∈ ["a.yar", "b.yar"], isNotice p = false ∧ extension p = some "yar".toList := by decide
  have hlength : (utf8Bytes (blankText n)).length = n := by rw [← utf8ByteSize_eq_length, blankText_size]
  have hlimit : Yara.maxSourceBytes ≤ maxContentFileBytes := by decide
  simp only [listFile, except_bind_eq_ok, mapError_eq_ok, refuseIf_eq_ok, exists_const, Except.ok.injEq]
  refine ⟨_, congrArg readFound (blankTree_walk hp), ?_, _, contentKind_blanks hn (hnamed p hp).1 (hnamed p hp).2, ?_⟩
  · rw [hlength]
    omega
  · rw [hlength]

/-- The sources of both files together. -/
theorem blankTree_sources (n : ℕ) : ((ruleTexts (listedFiles (blankTree n))).map fun t => t.2.utf8ByteSize).sum = n + n := by
  have hpaths : listedPaths (blankTree n) = ["a.yar", "b.yar"] := by
    have hcollected : contentPaths [] (blankTree n) = ["a.yar", "b.yar"] := by
      have h := collect_ok (blankTree_collect n)
      rwa [List.nil_append, eq_comm] at h
    have hsorted : stableSort id ["a.yar", "b.yar"] = ["a.yar", "b.yar"] := by decide
    rw [listedPaths, hcollected, hsorted]
  have hfile {p : String} (hp : p ∈ ["a.yar", "b.yar"]) :
      fileOf (blankTree n) p = ⟨p, .yaraRules, utf8Bytes (blankText n)⟩ := by
    have hkind : ∀ p ∈ ["a.yar", "b.yar"], kindByName p = .yaraRules := by decide
    rw [fileOf, hkind p hp, contentAt, blankTree_walk hp]
    rfl
  rw [listedFiles, hpaths, List.map_cons, List.map_singleton, hfile List.mem_cons_self,
    hfile (List.mem_cons_of_mem _ List.mem_cons_self)]
  simp [ruleTexts, Json.fromUtf8_utf8Bytes, blankText_size]

/-- 33 MiB: half of what is too much, and a little more. -/
def largeSize : ℕ := 34603008

def largeSha256 : Sha256Digest :=
  ⟨[64, 27, 139, 134, 180, 199, 163, 1, 56, 217, 116, 83, 105, 68, 30, 187,
    77, 149, 125, 163, 129, 198, 97, 38, 101, 233, 168, 98, 13, 104, 116, 176], rfl⟩

def largeManifest : Manifest where
  format := manifestFormat
  formatVersion := 1
  name := "official"
  sequence := 1
  issued := epoch
  expires := ⟨nanosPerDay, nanosPerDay_in_range⟩
  files := [⟨"a.yar", .yaraRules, largeSize, largeSha256⟩, ⟨"b.yar", .yaraRules, largeSize, largeSha256⟩]
  revokeKeys := []

def largeJson : Bytes :=
  ("\x7b\n  \"format\": \"abyssal-warden.content-manifest\",\n  \"format_version\": 1,\n  \"name\": \"official\",\n" ++
  "  \"sequence\": 1,\n  \"issued\": \"1970-01-01T00:00:00Z\",\n  \"expires\": \"1970-01-02T00:00:00Z\",\n" ++
  "  \"files\": [\n    \x7b\n      \"path\": \"a.yar\",\n      \"kind\": \"yara_rules\",\n      \"size\": 34603008,\n" ++
  "      \"sha256\": \"401b8b86b4c7a30138d9745369441ebb4d957da381c6612665e9a8620d6874b0\"\n    \x7d,\n    \x7b\n" ++
  "      \"path\": \"b.yar\",\n      \"kind\": \"yara_rules\",\n      \"size\": 34603008,\n" ++
  "      \"sha256\": \"401b8b86b4c7a30138d9745369441ebb4d957da381c6612665e9a8620d6874b0\"\n    \x7d\n  ]\n\x7d"
  ).toUTF8.data.toList

/-- The digests of a file, of a file as the compiler is given it, and of the manifest. -/
def largeDigests (data : Bytes) : Sha256Digest :=
  if data.length = largeSize then largeSha256
  else if data.length = largeSize + 7 then
    ⟨[216, 43, 110, 214, 215, 8, 101, 13, 12, 37, 21, 88, 58, 149, 200, 120,
      137, 142, 51, 211, 248, 121, 69, 58, 182, 78, 181, 194, 54, 22, 206, 53], rfl⟩
  else
    ⟨[216, 87, 60, 112, 242, 135, 58, 59, 200, 46, 155, 78, 143, 251, 228, 155,
      219, 197, 171, 142, 52, 32, 33, 208, 45, 252, 117, 97, 236, 180, 89, 228], rfl⟩

def largeCodec : ManifestCodec := soleCodec largeManifest largeJson

def largeStored : Entries := (blankTree largeSize).put (utf8Bytes manifestFile) (largeJson ++ [0x0A])

def largeSigned : Entries := largeStored.put (utf8Bytes "manifest.json.minisig") (utf8Bytes "AAAAAAAAAACc")

theorem blankTree_written : writeManifest noDatabases blankCompiler largeDigests largeCodec smallArgs epoch (.ok ())
    (blankTree largeSize) = .ok ⟨largeManifest, largeStored⟩ := by
  have hn : largeSize ≤ Yara.maxSourceBytes := by decide
  have hdigest : largeDigests (utf8Bytes (blankText largeSize)) = largeSha256 := by
    rw [largeDigests, ← utf8ByteSize_eq_length, blankText_size, if_pos rfl]
  have hnone : (blankTree largeSize).find (utf8Bytes manifestFile) = none := by
    have hnames : utf8Bytes "a.yar" ≠ utf8Bytes manifestFile ∧ utf8Bytes "b.yar" ≠ utf8Bytes manifestFile := by
      decide
    rw [blankTree, Entries.find, if_neg hnames.1, Entries.find, if_neg hnames.2, Entries.find]
  -- each file is compiled alone, and alone it is small enough
  have hfiles : checkEach (listFile noDatabases blankCompiler largeDigests (blankTree largeSize)) []
      (stableSort id ["a.yar", "b.yar"]) = .ok largeManifest.files := by
    have hsorted : stableSort id ["a.yar", "b.yar"] = ["a.yar", "b.yar"] := by decide
    rw [hsorted, checkEach_cons_eq_ok]
    refine ⟨_, listFile_blanks hn List.mem_cons_self, checkEach_cons_eq_ok.mpr
      ⟨_, listFile_blanks hn (List.mem_cons_of_mem _ List.mem_cons_self), ?_⟩⟩
    rw [hdigest]
    rfl
  have hexpires : expiryAt epoch.wholeSecond smallArgs.expiresIn = .ok largeManifest.expires := by decide
  have hvalid : largeManifest.validate = .ok () := by decide
  have hflat : (if smallArgs.flat then (stableSort id ["a.yar", "b.yar"]).find? fun p => !isFlatName p else none) = none :=
    rfl
  have hissued : epoch.wholeSecond = epoch := by decide
  have hjson : largeCodec.toVecPretty largeManifest = .ok largeJson := soleCodec_writes
  have hpersist : persist (blankTree largeSize) (largeJson ++ [0x0A]) = .ok largeStored := by
    rw [persist, hnone]
    rfl
  simp only [writeManifest, except_bind_eq_ok, refuseIf_eq_ok, refuseSome_eq_ok, mapError_eq_ok, exists_const,
    Except.ok.injEq]
  refine ⟨?_, _, hexpires, _, blankTree_collect largeSize, hflat, _, hfiles, ?_⟩
  · rw [hnone]
    decide
  · rw [hissued]
    exact ⟨(), hvalid, largeJson, hjson, trivial, largeStored, hpersist, rfl⟩

theorem largeSigned_beside :
    SignedBeside "content/official" (zeroKeys [.content]) epoch largeStored largeSigned := by
  have hread : largeStored.bundleDir.read manifestFile = .ok (largeJson ++ [0x0A]) := by
    change readFound (largeStored.find (utf8Bytes manifestFile)) = _
    rw [largeStored, Entries.find_put, if_pos rfl]
    rfl
  exact signedBeside_put (by decide) hread (by decide +kernel) (by decide +kernel :
    (zeroKeys [.content]).verify (largeJson ++ [0x0A]) "AAAAAAAAAACc" "content/official/manifest.json" epoch =
      .ok (zeroId, "")) le_rfl

/-- The manifest of the two files is written and signed, and not accepted. -/
theorem published_not_accepted :
    writeManifest noDatabases blankCompiler largeDigests largeCodec smallArgs epoch (.ok ()) (blankTree largeSize) =
        .ok ⟨largeManifest, largeStored⟩ ∧
      SignedBeside "content/official" (zeroKeys [.content]) epoch largeStored largeSigned ∧
      epoch ≤ largeManifest.expires ∧
      ¬ Accepted noDatabases blankCompiler largeDigests largeCodec "content/official" (zeroKeys [.content])
        ⟨false, epoch⟩ (blankTree largeSize) largeSigned largeManifest := by
  have hnow : epoch ≤ largeManifest.expires := by decide
  refine ⟨blankTree_written, largeSigned_beside, hnow, fun haccepted => ?_⟩
  have hlimits : Loadable blankCompiler largeDigests largeCodec smallArgs epoch (blankTree largeSize) largeSigned :=
    (accepted_iff blankCompiler_separates (blankTree_valid largeSize) (writeManifest_ok blankTree_written)
      largeSigned_beside.placed largeSigned_beside.enough hnow).mp haccepted
  have hsource := hlimits.source
  rw [blankTree_sources] at hsource
  exact absurd hsource (by decide)

end AbyssalWarden
