import AbyssalWarden.PublishedFiles

/-! A written manifest is loaded with the files it lists, once it is signed; what the loader limits and the publisher does
not look at is all that may stand in the way. -/
namespace AbyssalWarden

open Signatures (DatabaseSerde)
open Yara (Compiler)

variable {ms : Minisign} {dirName : String} {content : BundleDir} {data : Bytes} {keys : TrustedKeys ms}
  {now : OffsetDateTime} {name : String} {acc : Signatures}

/-! ### Signatures beside the manifest -/

/-- At the name stands nothing, or what can be read and is short enough. -/
def ReadableSignature (content : BundleDir) (name : String) : Prop :=
  content.read name = .error .notFound ∨ ∃ data, content.read name = .ok data ∧ data.length ≤ maxSignatureBytes

/-- Enough keys signed the data, no two of them the same. -/
def EnoughSigned (dirName : String) (content : BundleDir) (data : Bytes) (keys : TrustedKeys ms) (now : OffsetDateTime) :
    Prop :=
  ∃ ids : List KeyId, ids.Nodup ∧ keys.requiredSignatures ≤ ids.length ∧
    ∀ id ∈ ids, ∃ name ∈ signatureNames, SignedBy dirName content data keys now name id

theorem readBounded_of_le {limit : ℕ} (hread : content.read name = .ok data) (hle : data.length ≤ limit) :
    readBounded dirName content name limit = .ok data := by
  unfold readBounded
  simp only [hread, List.take_of_length_le (Nat.le_succ_of_le hle), gt_iff_lt, not_lt.mpr hle, if_false]

theorem verifySignature_iff : (∃ acc', verifySignature dirName content data keys now acc name = .ok acc') ↔
    ReadableSignature content name := by
  unfold ReadableSignature
  constructor
  · rintro ⟨acc', h⟩
    unfold verifySignature at h
    split at h
    · rename_i hread
      left
      unfold readBounded at hread
      split at hread
      · rename_i e he
        cases hread
        exact he
      · dsimp only at hread
        split at hread <;> cases hread
    · cases h
    · rename_i sig hsig
      exact Or.inr ⟨sig, readBounded_eq_ok hsig⟩
  -- a missing file is none, and what is short enough is taken whether it verifies or not
  · rintro (hread | ⟨sig, hread, hle⟩)
    · have hbounded : readBounded dirName content name maxSignatureBytes = .error (.io (joinPath dirName name) .notFound) := by
        unfold readBounded
        simp only [hread]
      exact ⟨acc, by simp only [verifySignature, hbounded]⟩
    · unfold verifySignature
      rw [readBounded_of_le hread hle]
      dsimp only
      split
      · exact ⟨_, rfl⟩
      · split
        · split
          · exact ⟨_, rfl⟩
          · exact ⟨_, rfl⟩
        · exact ⟨_, rfl⟩

theorem verifySignatures_loop_iff {names : List String} :
    (∃ acc', checkEach (verifySignature dirName content data keys now) acc names = .ok acc') ↔
      ∀ name ∈ names, ReadableSignature content name := by
  induction names generalizing acc with
  | nil => exact ⟨fun _ _ h => absurd h List.not_mem_nil, fun _ => ⟨acc, rfl⟩⟩
  | cons name names ih =>
    simp only [checkEach_cons_eq_ok, List.forall_mem_cons]
    constructor
    · rintro ⟨acc', mid, hmid, hrest⟩
      exact ⟨verifySignature_iff.mp ⟨mid, hmid⟩, ih.mp ⟨acc', hrest⟩⟩
    · rintro ⟨hname, hall⟩
      obtain ⟨mid, hmid⟩ := verifySignature_iff.mpr hname
      obtain ⟨acc', hrest⟩ := ih.mpr hall
      exact ⟨acc', mid, hmid, hrest⟩

/-- A signer was found in a file. -/
theorem verifySignature_found {acc' : Signatures} (h : verifySignature dirName content data keys now acc name = .ok acc')
    (hacc : acc.signers ≠ [] → acc.foundAny = true) : acc'.signers ≠ [] → acc'.foundAny = true := by
  unfold verifySignature at h
  split at h
  · cases h
    exact hacc
  · cases h
  · split at h
    · cases h
      exact fun _ => rfl
    · split at h
      · split at h <;> (cases h; exact fun _ => rfl)
      · cases h
        exact fun _ => rfl

/-- With enough signatures, only what cannot be read is refused. -/
theorem verifySignatures_iff (h : EnoughSigned dirName content data keys now) :
    (∃ signers, verifySignatures dirName content data keys now = .ok signers) ↔
      ∀ name ∈ signatureNames, ReadableSignature content name := by
  have hreadable : (∃ found, checkEach (verifySignature dirName content data keys now) ⟨[], [], false⟩ signatureNames =
      .ok found) ↔ ∀ name ∈ signatureNames, ReadableSignature content name := verifySignatures_loop_iff
  rw [← hreadable]
  simp only [verifySignatures, except_bind_eq_ok, refuseIf_eq_ok, exists_const, Except.ok.injEq]
  constructor
  · rintro ⟨_, found, hloop, -⟩
    exact ⟨found, hloop⟩
  · rintro ⟨found, hloop⟩
    have hstart : Signatures.Sound dirName content data keys now [] ⟨[], [], false⟩ :=
      ⟨List.nodup_nil, fun id => by simp⟩
    have hsound := verifySignatures_loop hstart hloop
    rw [List.nil_append] at hsound
    obtain ⟨ids, hnodup, hcount, hsigned⟩ := h
    -- every signer of those required is among the signers found
    have hsubset : ids ⊆ found.signers := fun id hid => (hsound.mem_iff id).mpr (hsigned id hid)
    have hlength : ids.length ≤ found.signers.length := (hnodup.subperm hsubset).length_le
    have hpos : 0 < found.signers.length := by
      have hrequired : 1 ≤ keys.requiredSignatures := le_max_right _ _
      omega
    have hany : found.foundAny = true :=
      checkEach_invariant (I := fun s : Signatures => s.signers ≠ [] → s.foundAny = true)
        (fun _ _ _ hacc hnext => verifySignature_found hnext hacc) (fun hne => absurd rfl hne) hloop
        (List.ne_nil_of_length_pos hpos)
    refine ⟨_, found, hloop, ?_, ?_, rfl⟩
    · simp [hany]
    · omega

/-! ### The directory after signing -/

variable {entries stored after : Entries} {p : String} {serde : DatabaseSerde} {c : Compiler}
  {sha256 : Bytes → Sha256Digest}

/-- Files were put under names of signatures, in the place of no directory. -/
structure SignaturesPlaced (before after : Entries) : Prop where
  elsewhere : ∀ name, name ∉ signatureNames.map utf8Bytes → after.find name = before.find name
  placed : ∀ name ∈ signatureNames, after.find (utf8Bytes name) = before.find (utf8Bytes name) ∨
    (∀ below, before.find (utf8Bytes name) ≠ some (.directory below)) ∧
      ∃ data, after.find (utf8Bytes name) = some (.file (.ok data))

theorem persist_ok (h : persist entries data = .ok stored) :
    (∀ below, entries.find (utf8Bytes manifestFile) ≠ some (.directory below)) ∧
      stored = entries.put (utf8Bytes manifestFile) data := by
  unfold persist at h
  split at h
  · cases h
  · rename_i hnot
    exact ⟨hnot, (Except.ok.inj h).symm⟩

theorem manifestFile_not_signature : utf8Bytes manifestFile ∉ signatureNames.map utf8Bytes := by decide

/-- No file under a signature's name is listed: it is skipped, or of no known kind. -/
theorem signatureNames_unlisted : ∀ name ∈ signatureNames, skipped name = true ∨
    (isNotice name = false ∧ extension name ∉ [some "json".toList, some "yar".toList, some "yara".toList]) := by
  decide

theorem utf8Bytes_inj {s t : String} (h : utf8Bytes s = utf8Bytes t) : s = t := by
  have hs := Json.fromUtf8_utf8Bytes s
  rw [h, Json.fromUtf8_utf8Bytes] at hs
  exact (Option.some.inj hs).symm

theorem find_put_signature {sig : Bytes} :
    (stored.put (utf8Bytes "manifest.json.minisig") sig).find (utf8Bytes name) =
      if name = "manifest.json.minisig" then some (.file (.ok sig)) else stored.find (utf8Bytes name) := by
  rw [Entries.find_put]
  exact if_congr ⟨utf8Bytes_inj, congrArg utf8Bytes⟩ rfl rfl

/-- A single signature, under a name that was free. -/
theorem signaturesPlaced_put {sig : Bytes} (hfree : stored.find (utf8Bytes "manifest.json.minisig") = none) :
    SignaturesPlaced stored (stored.put (utf8Bytes "manifest.json.minisig") sig) where
  elsewhere name hname := by
    have hfirst : utf8Bytes "manifest.json.minisig" ∈ signatureNames.map utf8Bytes := by decide
    have hne : name ≠ utf8Bytes "manifest.json.minisig" := by
      rintro rfl
      exact hname hfirst
    rw [Entries.find_put, if_neg hne]
  placed name hname := by
    rw [find_put_signature]
    split
    · rename_i heq
      rw [heq, hfree]
      exact Or.inr ⟨(fun _ h => by cases h), sig, rfl⟩
    · exact Or.inl rfl

theorem enoughSigned_put {sig : String} {id : KeyId} {comment path : String}
    (hlength : (utf8Bytes sig).length ≤ maxSignatureBytes) (hverify : keys.verify data sig path now = .ok (id, comment))
    (hrequired : keys.requiredSignatures ≤ 1) :
    EnoughSigned dirName (stored.put (utf8Bytes "manifest.json.minisig") (utf8Bytes sig)).bundleDir data keys now := by
  have hread : (stored.put (utf8Bytes "manifest.json.minisig") (utf8Bytes sig)).bundleDir.read "manifest.json.minisig" =
      .ok (utf8Bytes sig) := by
    change readFound (Entries.find _ _) = _
    rw [find_put_signature, if_pos rfl]
    rfl
  refine ⟨[id], List.nodup_singleton id, hrequired, List.forall_mem_singleton.mpr
    ⟨"manifest.json.minisig", List.mem_cons_self, ?_⟩⟩
  rw [signedBy_iff_verify path]
  exact ⟨_, _, readBounded_of_le hread hlength, Json.fromUtf8_utf8Bytes sig, comment, hverify⟩

/-- The manifest and its signatures take the place of no listed file. -/
theorem walk_after (hvalid : entries.Valid) (hp : p ∈ listedPaths entries) (hchecked : Checked serde c sha256 entries p)
    (hstored : persist entries data = .ok stored) (hplaced : SignaturesPlaced stored after) :
    after.walk (pathComponents p) = entries.walk (pathComponents p) := by
  obtain ⟨hne, first, names, hleads, hjoin, hcomponents⟩ := contentPath_leads hvalid (mem_listedPaths.mp hp)
  obtain ⟨hnodir, rfl⟩ := persist_ok hstored
  obtain ⟨content, hwalk⟩ := hleads.found
  have hfirst := Entries.find_of_walk_file hwalk
  rw [String.ofList_toList] at hfirst
  -- a name alone is the whole path
  have hsingle (hnil : names.map String.toList = []) : p = first := by
    rw [hjoin, List.map_eq_nil_iff.mp hnil, joinComponents, List.map_singleton, List.intercalate_singleton,
      String.ofList_toList]
  have hmanifest : first ≠ manifestFile := by
    rintro rfl
    rcases hfirst with ⟨hnil, -⟩ | ⟨below, hbelow⟩
    · exact hne (hsingle hnil)
    · exact hnodir below hbelow
  have hput : (entries.put (utf8Bytes manifestFile) data).find (utf8Bytes first) = entries.find (utf8Bytes first) := by
    rw [Entries.find_put, if_neg fun heq => hmanifest (utf8Bytes_inj heq)]
  have hfind : after.find (utf8Bytes first) = entries.find (utf8Bytes first) := by
    by_cases hsig : first ∈ signatureNames
    · rcases hplaced.placed first hsig with hsame | ⟨hnodir', -⟩
      · rw [hsame, hput]
      · rw [hput] at hnodir'
        rcases hfirst with ⟨hnil, -⟩ | ⟨below, hbelow⟩
        · rcases signatureNames_unlisted first hsig with hskip | ⟨hnotice, hextension⟩
          · rw [hleads.shown] at hskip
            cases hskip
          · rcases hchecked.named with hnotice' | hextension'
            · rw [hsingle hnil, hnotice] at hnotice'
              cases hnotice'
            · exact absurd (hsingle hnil ▸ hextension') hextension
        · exact absurd hbelow (hnodir' below)
    · rw [hplaced.elsewhere _ fun hmem => ?_, hput]
      obtain ⟨name, hname, heq⟩ := List.mem_map.mp hmem
      exact hsig (utf8Bytes_inj heq ▸ hname)
  rw [hcomponents]
  refine Entries.walk_congr ?_
  rw [String.ofList_toList]
  exact hfind

/-- The loader opens each listed file with what the publisher read. -/
theorem openWith_after (hvalid : entries.Valid) (hp : p ∈ listedPaths entries)
    (hchecked : Checked serde c sha256 entries p) (hstored : persist entries data = .ok stored)
    (hplaced : SignaturesPlaced stored after) : after.bundleDir.openWith p = .ok (contentAt entries p) := by
  obtain ⟨-, first, names, hleads, -, hcomponents⟩ := contentPath_leads hvalid (mem_listedPaths.mp hp)
  obtain ⟨content, hwalk⟩ := hleads.found
  rw [List.map_cons, ← hcomponents] at hwalk
  have hread := hchecked.read
  rw [hwalk] at hread
  change openFound (after.walk (pathComponents p)) = _
  rw [walk_after hvalid hp hchecked hstored hplaced, hwalk]
  have hcontent : content = .ok (contentAt entries p) := hread
  rw [hcontent]
  rfl

theorem readListed_of {entry : ManifestFile} (hopen : content.openWith entry.path = .ok data)
    (hsize : entry.size = data.length) (hhash : entry.sha256 = sha256 data) (hle : data.length ≤ maxContentFileBytes) :
    readListed sha256 content entry = .ok data := by
  have hlimit : maxContentFileBytes + 1 ≤ 2 ^ 64 - 1 := by decide
  have htake : data.take (min (entry.size + 1) (2 ^ 64 - 1)) = data := List.take_of_length_le (by omega)
  have hread : content.openWith entry.path = .ok data ∧ data.length = entry.size ∧ sha256 data = entry.sha256 :=
    ⟨hopen, hsize.symm, hhash.symm⟩
  simp only [readListed, except_bind_eq_ok, mapError_eq_ok, refuseIf_eq_ok, exists_const, Except.ok.injEq]
  refine ⟨data, hopen, ?_, ?_, htake⟩
  · rw [htake]
    exact not_not.mpr hread.2.1
  · rw [htake]
    exact not_not.mpr hread.2.2

theorem readFiles_ok {paths : List String} {files : List BundleFile}
    (hopen : ∀ p ∈ paths, content.openWith p = .ok (contentAt entries p))
    (hle : ∀ p ∈ paths, (contentAt entries p).length ≤ maxContentFileBytes) :
    checkEach (readFile sha256 content) files (paths.map (entryOf sha256 entries)) =
      .ok (files ++ paths.map (fileOf entries)) := by
  induction paths generalizing files with
  | nil =>
    rw [List.map_nil, List.map_nil, List.append_nil]
    rfl
  | cons p paths ih =>
    obtain ⟨hp, hrest⟩ := List.forall_mem_cons.mp hopen
    obtain ⟨hle, hall⟩ := List.forall_mem_cons.mp hle
    have hlisted : readListed sha256 content (entryOf sha256 entries p) = .ok (contentAt entries p) :=
      readListed_of hp rfl rfl hle
    have hread : readFile sha256 content files (entryOf sha256 entries p) = .ok (files ++ [fileOf entries p]) := by
      rw [readFile, hlisted]
      rfl
    rw [List.map_cons, List.map_cons, checkEach_cons_eq_ok]
    refine ⟨_, hread, ?_⟩
    rw [ih hrest hall, List.append_assoc, List.singleton_append]

/-! ### Loading what was published -/

variable {codec : ManifestCodec} {args : ManifestArgs} {pubTime : OffsetDateTime} {disk : Except String Unit}
  {published : Published} {opts : LoadOptions}

theorem manifest_after (hstored : persist entries data = .ok stored) (hplaced : SignaturesPlaced stored after) :
    after.bundleDir.read manifestFile = .ok data := by
  obtain ⟨-, rfl⟩ := persist_ok hstored
  change readFound (after.find (utf8Bytes manifestFile)) = _
  rw [hplaced.elsewhere _ manifestFile_not_signature, Entries.find_put, if_pos rfl]
  rfl

/-- A manifest that is signed is loaded, with the files that it lists, if it is not too long and nothing else stands at
the name of a signature. -/
theorem load_iff (hvalid : entries.Valid) (hwritten : Written serde c sha256 codec args pubTime entries published)
    (hplaced : SignaturesPlaced published.entries after)
    (hsigned : ∀ data, after.bundleDir.read manifestFile = .ok data →
      EnoughSigned dirName after.bundleDir data keys opts.now)
    (hnow : opts.now ≤ published.manifest.expires) :
    (∃ b, loadBundle sha256 codec.fromSlice dirName after.bundleDir keys opts = .ok b ∧
        b.manifest = published.manifest ∧ b.files = listedFiles entries) ↔
      (∃ json, codec.toVecPretty published.manifest = .ok json ∧ json.length + 1 ≤ maxManifestBytes) ∧
        ∀ name ∈ signatureNames, ReadableSignature after.bundleDir name := by
  obtain ⟨json, hjson, hstored⟩ := hwritten.stored
  have hread := manifest_after hstored hplaced
  have henough := hsigned _ hread
  constructor
  · rintro ⟨b, hload, -, -⟩
    obtain ⟨-, data, hbounded, hverified, -⟩ := loadBundle_eq_ok.mp hload
    obtain ⟨hdata, hle⟩ := readBounded_eq_ok hbounded
    obtain rfl := Except.ok.inj (hread.symm.trans hdata)
    rw [List.length_append, List.length_singleton] at hle
    exact ⟨⟨json, hjson, hle⟩, (verifySignatures_iff henough).mp ⟨_, hverified⟩⟩
  · rintro ⟨⟨json', hjson', hle⟩, hreadable⟩
    obtain rfl := Except.ok.inj (hjson.symm.trans hjson')
    obtain ⟨signers, hverified⟩ := (verifySignatures_iff henough).mpr hreadable
    -- a signer's key is among them, so there are keys
    have hkeys : keys.isEmpty = false := by
      obtain ⟨ids, -, hcount, hids⟩ := henough
      have hrequired : 1 ≤ keys.requiredSignatures := le_max_right _ _
      obtain ⟨id, hid⟩ := List.exists_mem_of_length_pos (by omega : 0 < ids.length)
      obtain ⟨name, -, -, -, -, -, -, -, key, hkey, -⟩ := hids id hid
      rw [TrustedKeys.isEmpty, List.isEmpty_eq_false_iff]
      exact List.ne_nil_of_mem hkey
    -- the files are what was listed when the manifest was written
    have hfiles : checkEach (readFile sha256 after.bundleDir) [] published.manifest.files = .ok (listedFiles entries) := by
      obtain ⟨expires, -, hmanifest⟩ := except_map_eq_ok.mp hwritten.manifest
      have hlist : published.manifest.files = (listedPaths entries).map (entryOf sha256 entries) := by
        rw [← hmanifest]
      rw [hlist]
      exact readFiles_ok
        (fun p hp => openWith_after hvalid hp (hwritten.checked p hp) hstored hplaced)
        fun p hp => (hwritten.checked p hp).size_le
    have hbounded : readBounded dirName after.bundleDir manifestFile maxManifestBytes = .ok (json ++ [0x0A]) :=
      readBounded_of_le hread (by rwa [List.length_append, List.length_singleton])
    let b : VerifiedBundle := ⟨dirName, published.manifest, sha256 (json ++ [0x0A]), signers,
      decide (opts.now > published.manifest.expires), listedFiles entries⟩
    refine ⟨b, loadBundle_eq_ok.mpr ⟨hkeys, _, hbounded, hverified, codec.read_written _ _ hjson,
      (Manifest.validate_eq_ok_iff _).mpr hwritten.valid, fun hexpired => ?_, rfl, hfiles, rfl, rfl, rfl⟩, rfl, rfl⟩
    exact absurd (of_decide_eq_true hexpired) (not_lt.mpr hnow)

/-! ### The detectors of what was published -/

theorem mem_ruleTexts {text : String × String} (h : text ∈ ruleTexts (listedFiles entries)) :
    text.1 ∈ listedPaths entries ∧ kindByName text.1 = .yaraRules ∧
      fromUtf8 (contentAt entries text.1) = some text.2 := by
  obtain ⟨f, hf, htext⟩ := List.mem_filterMap.mp h
  obtain ⟨p, hp, rfl⟩ := List.mem_map.mp hf
  split at htext
  · rename_i hkind
    obtain ⟨t, ht, rfl⟩ := Option.map_eq_some_iff.mp htext
    exact ⟨hp, hkind, ht⟩
  · cases htext

/-- Rules that were published compile together, unless there is too much of them. -/
theorem published_detectors_iff (hc : c.Separates)
    (hwritten : Written serde c sha256 codec args pubTime entries published) {b : VerifiedBundle}
    (hfiles : b.files = listedFiles entries) :
    (∃ detectors, bundleDetectors serde c sha256 b = .ok detectors) ↔
      ((ruleTexts (listedFiles entries)).map fun t => t.2.utf8ByteSize).sum ≤ Yara.maxSourceBytes ∧
        ((ruleTexts (listedFiles entries)).map fun t => (c.rulesIn "check" t.2).length).sum ≤ Yara.maxRules := by
  have husable : ∀ f ∈ b.files, f.Usable serde := by
    intro f hf
    rw [hfiles] at hf
    obtain ⟨p, hp, rfl⟩ := List.mem_map.mp hf
    exact (hwritten.checked p hp).usable
  -- the manifest lists few files, so their numbers have few digits
  have hcount : (ruleTexts b.files).length ≤ 10 ^ 15 := by
    obtain ⟨expires, -, hmanifest⟩ := except_map_eq_ok.mp hwritten.manifest
    have hlist : published.manifest.files.length = (listedPaths entries).length := by
      rw [← hmanifest, List.length_map]
    calc
      (ruleTexts b.files).length ≤ b.files.length := List.length_filterMap_le _ _
      _ = published.manifest.files.length := by rw [hfiles, listedFiles, List.length_map, hlist]
      _ ≤ maxFiles := hwritten.valid.files_le
      _ ≤ 10 ^ 15 := by decide
  -- each file was compiled when it was published
  have halone : ∀ t ∈ ruleTexts b.files, ∃ det, Yara.compile c sha256 [⟨"check", t.1, t.2⟩] none = .ok det := by
    intro t ht
    rw [hfiles] at ht
    obtain ⟨hp, hkind, htext⟩ := mem_ruleTexts ht
    exact (hwritten.checked _ hp).compiles hkind _ htext
  rw [detectors_iff hc husable hcount halone, hfiles]

/-- What the loader limits and the publisher does not: the length of the manifest, and the size and number of all rules
together. -/
structure WithinLimits (c : Compiler) (sha256 : Bytes → Sha256Digest) (codec : ManifestCodec) (args : ManifestArgs)
    (pubTime : OffsetDateTime) (entries : Entries) : Prop where
  manifest : ∃ m json, manifestFor sha256 args pubTime entries = .ok m ∧ codec.toVecPretty m = .ok json ∧
    json.length + 1 ≤ maxManifestBytes
  source : ((ruleTexts (listedFiles entries)).map fun t => t.2.utf8ByteSize).sum ≤ Yara.maxSourceBytes
  rules : ((ruleTexts (listedFiles entries)).map fun t => (c.rulesIn "check" t.2).length).sum ≤ Yara.maxRules

/-- All that the loader limits: also what else stands at the names of signatures. -/
structure Loadable (c : Compiler) (sha256 : Bytes → Sha256Digest) (codec : ManifestCodec) (args : ManifestArgs)
    (pubTime : OffsetDateTime) (entries after : Entries) : Prop extends
    WithinLimits c sha256 codec args pubTime entries where
  signatures : ∀ name ∈ signatureNames, ReadableSignature after.bundleDir name

/-- The loader takes the manifest, with exactly the listed files, and makes detectors of them. -/
def Accepted (serde : DatabaseSerde) (c : Compiler) (sha256 : Bytes → Sha256Digest) (codec : ManifestCodec)
    (dirName : String) (keys : TrustedKeys ms) (opts : LoadOptions) (entries after : Entries) (m : Manifest) : Prop :=
  ∃ b detectors, loadBundle sha256 codec.fromSlice dirName after.bundleDir keys opts = .ok b ∧ b.manifest = m ∧
    b.files = listedFiles entries ∧ bundleDetectors serde c sha256 b = .ok detectors

theorem accepted_iff (hc : c.Separates) (hvalid : entries.Valid)
    (hwritten : Written serde c sha256 codec args pubTime entries published)
    (hplaced : SignaturesPlaced published.entries after)
    (hsigned : ∀ data, after.bundleDir.read manifestFile = .ok data →
      EnoughSigned dirName after.bundleDir data keys opts.now)
    (hnow : opts.now ≤ published.manifest.expires) :
    Accepted serde c sha256 codec dirName keys opts entries after published.manifest ↔
      Loadable c sha256 codec args pubTime entries after := by
  have hload := load_iff hvalid hwritten hplaced hsigned hnow
  constructor
  · rintro ⟨b, detectors, hb, hmanifest, hfiles, hdetectors⟩
    obtain ⟨⟨json, hjson, hle⟩, hreadable⟩ := hload.mp ⟨b, hb, hmanifest, hfiles⟩
    obtain ⟨hsource, hrules⟩ := (published_detectors_iff hc hwritten hfiles).mp ⟨detectors, hdetectors⟩
    exact ⟨⟨⟨_, json, hwritten.manifest, hjson, hle⟩, hsource, hrules⟩, hreadable⟩
  · rintro ⟨⟨⟨m, json, hm, hjson, hle⟩, hsource, hrules⟩, hreadable⟩
    obtain rfl := Except.ok.inj (hwritten.manifest.symm.trans hm)
    obtain ⟨b, hb, hmanifest, hfiles⟩ := hload.mpr ⟨⟨json, hjson, hle⟩, hreadable⟩
    obtain ⟨detectors, hdetectors⟩ := (published_detectors_iff hc hwritten hfiles).mpr ⟨hsource, hrules⟩
    exact ⟨b, detectors, hb, hmanifest, hfiles, hdetectors⟩

/-- A manifest that was written, with enough signatures put beside it and before it expires, is accepted exactly when
the loader's own limits let it. -/
theorem published_accepted_iff (hc : c.Separates) (hvalid : entries.Valid)
    (hpublished : writeManifest serde c sha256 codec args pubTime disk entries = .ok published)
    (hplaced : SignaturesPlaced published.entries after)
    (hsigned : ∀ data, after.bundleDir.read manifestFile = .ok data →
      EnoughSigned dirName after.bundleDir data keys opts.now)
    (hnow : opts.now ≤ published.manifest.expires) :
    Accepted serde c sha256 codec dirName keys opts entries after published.manifest ↔
      Loadable c sha256 codec args pubTime entries after :=
  accepted_iff hc hvalid (writeManifest_ok hpublished) hplaced hsigned hnow

/-! ### A bundle with a notice and an empty rule file -/

theorem unseparated {s : String} (h : '/' ∉ s.toList) : ∀ t, fromUtf8 (utf8Bytes s) = some t → '/' ∉ t.toList := by
  intro t ht
  rw [Json.fromUtf8_utf8Bytes] at ht
  exact Option.some.inj ht ▸ h

def smallTree : Entries :=
  .file (utf8Bytes "NOTICE") (.ok [])
    (.directory (utf8Bytes "rules") true (.file (utf8Bytes "empty.yar") (.ok [0x0A]) .nil) .nil)

theorem smallTree_valid : smallTree.Valid := by
  have hnames : utf8Bytes "NOTICE" ∉ [utf8Bytes "rules"] := by decide
  exact ⟨unseparated (by decide), hnames, unseparated (by decide), List.not_mem_nil,
    ⟨unseparated (by decide), List.not_mem_nil, trivial⟩, trivial⟩

/-- A compiler of sources without rules. -/
def blankCompiler : Compiler where
  State := Unit
  new := ()
  newNamespace state _ := state
  addSource state text := if text.toList.all isWhitespace then .ok state else .error "syntax error"
  build _ := []

theorem blankCompiler_addAll {sources : List Yara.RuleSource}
    (h : ∀ src ∈ sources, src.text.toList.all isWhitespace = true) : blankCompiler.addAll () sources = .ok () := by
  induction sources with
  | nil => rfl
  | cons src sources ih =>
    obtain ⟨hsrc, hrest⟩ := List.forall_mem_cons.mp h
    have hadd : blankCompiler.addSource () src.text = .ok () := if_pos hsrc
    exact except_bind_eq_ok.mpr ⟨(), hadd, ih hrest⟩

theorem blankCompiler_separates : blankCompiler.Separates := by
  intro ns sources rules _ halone
  have hblank : ∀ src ∈ sources, src.text.toList.all isWhitespace = true ∧ rules src = [] := by
    intro src hsrc
    obtain ⟨state, hstate, hrules⟩ := except_map_eq_ok.mp (halone src hsrc)
    refine ⟨?_, hrules.symm⟩
    change (if src.text.toList.all isWhitespace then Except.ok () else .error "syntax error") = _ at hstate
    split at hstate
    · assumption
    · cases hstate
  refine ⟨(), blankCompiler_addAll fun src hsrc => (hblank src hsrc).1, ?_⟩
  refine (List.flatMap_eq_nil_iff.mpr fun src hsrc => ?_).symm
  rw [(hblank src hsrc).2, List.map_nil]

def newlineSha256 : Sha256Digest :=
  ⟨[1, 186, 71, 25, 200, 11, 111, 233, 17, 176, 145, 167, 192, 81, 36, 182,
    78, 238, 206, 150, 78, 9, 192, 88, 239, 143, 152, 5, 218, 202, 84, 107], rfl⟩

def smallManifest : Manifest where
  format := manifestFormat
  formatVersion := 1
  name := "official"
  sequence := 1
  issued := epoch
  expires := ⟨nanosPerDay, nanosPerDay_in_range⟩
  files := [⟨"NOTICE", .notice, 0, emptySha256⟩, ⟨"rules/empty.yar", .yaraRules, 1, newlineSha256⟩]
  revokeKeys := []

def smallJson : Bytes :=
  ("\x7b\n  \"format\": \"abyssal-warden.content-manifest\",\n  \"format_version\": 1,\n  \"name\": \"official\",\n" ++
  "  \"sequence\": 1,\n  \"issued\": \"1970-01-01T00:00:00Z\",\n  \"expires\": \"1970-01-02T00:00:00Z\",\n" ++
  "  \"files\": [\n    \x7b\n      \"path\": \"NOTICE\",\n      \"kind\": \"notice\",\n      \"size\": 0,\n" ++
  "      \"sha256\": \"e3b0c44298fc1c149afbf4c8996fb92427ae41e4649b934ca495991b7852b855\"\n    \x7d,\n    \x7b\n" ++
  "      \"path\": \"rules/empty.yar\",\n      \"kind\": \"yara_rules\",\n      \"size\": 1,\n" ++
  "      \"sha256\": \"01ba4719c80b6fe911b091a7c05124b64eeece964e09c058ef8f9805daca546b\"\n    \x7d\n  ]\n\x7d"
  ).toUTF8.data.toList

/-- A codec that knows one manifest. -/
def soleCodec (manifest : Manifest) (json : Bytes) : ManifestCodec where
  toVecPretty m := if m = manifest then .ok json else .error "not the manifest"
  fromSlice data := if data = json ++ [0x0A] then .ok manifest else .error "not the manifest"
  read_written := by
    intro m written h
    split at h
    · rename_i hm
      cases h
      rw [if_pos rfl, hm]
    · cases h

theorem soleCodec_writes {m : Manifest} {json : Bytes} : (soleCodec m json).toVecPretty m = .ok json := if_pos rfl

def smallCodec : ManifestCodec := soleCodec smallManifest smallJson

/-- The digests of the manifest, of a line break, and of nothing. -/
def smallDigests (data : Bytes) : Sha256Digest :=
  if data = smallJson ++ [0x0A] then
    ⟨[203, 48, 61, 175, 46, 11, 179, 170, 62, 77, 168, 41, 6, 20, 37, 211,
      238, 30, 231, 108, 17, 49, 180, 194, 119, 238, 104, 152, 101, 36, 140, 60], rfl⟩
  else if data = [0x0A] then newlineSha256
  else emptySha256

def smallArgs : ManifestArgs where
  name := "official"
  sequence := 1
  expiresIn := 1
  force := false
  revokeKeys := []
  flat := false

/-- No hash database is in the bundle. -/
def noDatabases : DatabaseSerde := ⟨fun _ => .error "not a database", fun _ => .error "not a database"⟩

def smallStored : Entries := smallTree.put (utf8Bytes manifestFile) (smallJson ++ [0x0A])

def smallSigned : Entries := smallStored.put (utf8Bytes "manifest.json.minisig") (utf8Bytes "AAAAAAAAAABx")

theorem smallTree_written : writeManifest noDatabases blankCompiler smallDigests smallCodec smallArgs epoch (.ok ()) smallTree =
    .ok ⟨smallManifest, smallStored⟩ := by
  decide +kernel

theorem smallSigned_placed : SignaturesPlaced smallStored smallSigned :=
  signaturesPlaced_put (by decide)

theorem smallTree_persisted : persist smallTree (smallJson ++ [0x0A]) = .ok smallStored := rfl

theorem smallSigned_enough {data : Bytes} (h : smallSigned.bundleDir.read manifestFile = .ok data) :
    EnoughSigned "content/official" smallSigned.bundleDir data (zeroKeys [.content]) epoch := by
  have hread : smallSigned.bundleDir.read manifestFile = .ok (smallJson ++ [0x0A]) :=
    manifest_after smallTree_persisted smallSigned_placed
  obtain rfl := Except.ok.inj (hread.symm.trans h)
  exact enoughSigned_put (by decide +kernel) (by decide +kernel : (zeroKeys [.content]).verify (smallJson ++ [0x0A])
    "AAAAAAAAAABx" "content/official/manifest.json" epoch = .ok (zeroId, "")) le_rfl

theorem published_accepted_iff_small :
    Accepted noDatabases blankCompiler smallDigests smallCodec "content/official" (zeroKeys [.content]) ⟨false, epoch⟩
        smallTree smallSigned smallManifest ↔
      Loadable blankCompiler smallDigests smallCodec smallArgs epoch smallTree smallSigned :=
  published_accepted_iff blankCompiler_separates smallTree_valid smallTree_written smallSigned_placed
    (fun _ => smallSigned_enough) (by decide)

end AbyssalWarden
