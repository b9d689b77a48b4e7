import AbyssalWarden.UpdateSteps

/-! Updates from a directory that a scan could load itself. The update takes the first signature file and the
numbered ones up to a gap; loading the directory takes every one that is there. -/
namespace AbyssalWarden

variable {ms : Minisign} {c : Content ms} {opts : UpdateOptions ms} {call : UpdateCall} {keys : TrustedKeys ms}
  {S : BundleDir} {b : VerifiedBundle} {ts : Timestamp} {data : Bytes} {files files' : List (String × Bytes)}

/-! ### A directory as a source -/

/-- `Fetcher::Dir`: what opening and reading the path gives, nothing if there is no such file. -/
def dirSource (S : BundleDir) (rel : String) : Except String (Option Bytes) :=
  match S.read rel with
  | .ok data => .ok (some data)
  | .error .notFound => .ok none
  | .error (.other e) => .error e

/-- What is opened inside the directory is what its path leads to, and no path leads below a file. -/
structure BundleDir.Coherent (S : BundleDir) : Prop where
  opens : ∀ path data, S.openWith path = .ok data → S.read path = .ok data
  files : ∀ p q d d', S.read p = .ok d → S.read q = .ok d' → pathComponents p <+: pathComponents q → p = q

/-- The file is not there, or short enough. -/
def BundleDir.Short (S : BundleDir) (limit : ℕ) (name : String) : Prop :=
  S.read name = .error .notFound ∨ ∃ d, S.read name = .ok d ∧ d.length ≤ limit

/-- The files of the names up to the first that is not there. -/
def BundleDir.contiguous (S : BundleDir) : List String → List (String × Bytes)
  | [] => []
  | name :: rest =>
    match S.read name with
    | .ok d => (name, d) :: S.contiguous rest
    | .error _ => []

/-- The files are those of the directory. -/
def BundleDir.Holds (S : BundleDir) (files : List (String × Bytes)) : Prop := ∀ f ∈ files, S.read f.1 = .ok f.2

theorem contiguous_names {names : List String} : ∀ f ∈ S.contiguous names, f.1 ∈ names ∧ S.read f.1 = .ok f.2 := by
  induction names with
  | nil =>
    intro f hf
    cases hf
  | cons name rest ih =>
    intro f hf
    rw [BundleDir.contiguous] at hf
    split at hf
    · rename_i d hd
      cases List.mem_cons.mp hf with
      | inl heq =>
        subst heq
        exact ⟨List.mem_cons_self, hd⟩
      | inr hrest =>
        obtain ⟨hname, hread⟩ := ih f hrest
        exact ⟨List.mem_cons_of_mem _ hname, hread⟩
    · cases hf

theorem get_dirSource {name : String} {limit : ℕ} {d : Bytes} (hsource : opts.source = dirSource S)
    (hread : S.read name = .ok d) (hlen : d.length ≤ limit) : opts.get name limit = .ok (some d) := by
  have hnot : ¬ d.length > limit := by omega
  rw [UpdateOptions.get, hsource, dirSource, hread]
  simp only [if_neg hnot]

theorem get_dirSource_none {name : String} {limit : ℕ} (hsource : opts.source = dirSource S)
    (hread : S.read name = .error .notFound) : opts.get name limit = .ok none := by
  rw [UpdateOptions.get, hsource, dirSource, hread]

theorem require_dirSource {name : String} {limit : ℕ} {d : Bytes} (hsource : opts.source = dirSource S)
    (hread : S.read name = .ok d) (hlen : d.length ≤ limit) : opts.require name limit = .ok d := by
  rw [UpdateOptions.require, get_dirSource hsource hread hlen]
  rfl

/-! ### The download -/

/-- A file of the directory is written unless it was written already. -/
theorem writeFile_holds {path : String} (hfault : call.fault = none) (hS : S.Coherent) (hholds : S.Holds files)
    (hread : S.read path = .ok data) :
    writeFile call files path data = .ok files' ↔
      path ∉ files.map Prod.fst ∧ files' = files ++ [(path, data)] := by
  have hclash : (∃ f ∈ files, pathComponents f.1 <+: pathComponents path ∨
      pathComponents path <+: pathComponents f.1) ↔ path ∈ files.map Prod.fst := by
    rw [List.mem_map]
    constructor
    · intro h
      obtain ⟨f, hf, hprefix⟩ := h
      refine ⟨f, hf, ?_⟩
      cases hprefix with
      | inl hbelow => exact hS.files _ _ _ _ (hholds f hf) hread hbelow
      | inr habove => exact (hS.files _ _ _ _ hread (hholds f hf) habove).symm
    · intro h
      obtain ⟨f, hf, rfl⟩ := h
      exact ⟨f, hf, .inl List.prefix_rfl⟩
  have hwrite : writeFile call files path data = .ok files' ↔ ¬ (∃ f ∈ files,
      pathComponents f.1 <+: pathComponents path ∨ pathComponents path <+: pathComponents f.1) ∧
        files ++ [(path, data)] = files' := by
    simp only [writeFile, UpdateCall.attempt, hfault, except_bind_eq_ok, refuseIf_eq_ok, Except.ok.injEq,
      exists_const, true_and]
  rw [hwrite, hclash, @eq_comm _ files']

theorem holds_snoc {path : String} (hholds : S.Holds files) (hread : S.read path = .ok data) :
    S.Holds (files ++ [(path, data)]) := by
  intro f hf
  cases List.mem_append.mp hf with
  | inl hold => exact hholds f hold
  | inr hnew =>
    rw [List.mem_singleton.mp hnew]
    exact hread

/-- The numbered signatures are downloaded up to the first that is not there. -/
theorem downloadSignatures_dir {names : List String} (hsource : opts.source = dirSource S)
    (hfault : call.fault = none) (hS : S.Coherent) (hholds : S.Holds files)
    (hshort : ∀ name ∈ names, S.Short maxSignatureBytes name) (hnodup : names.Nodup)
    (hnew : ∀ name ∈ names, name ∉ files.map Prod.fst) :
    downloadSignatures opts call files names = .ok (files ++ S.contiguous names) := by
  induction names generalizing files with
  | nil => rw [downloadSignatures, BundleDir.contiguous, List.append_nil]
  | cons name names ih =>
    obtain ⟨hname, hnodup⟩ := List.nodup_cons.mp hnodup
    rw [downloadSignatures, BundleDir.contiguous]
    cases hshort name List.mem_cons_self with
    | inl hnone =>
      rw [get_dirSource_none hsource hnone, hnone]
      simp only [List.append_nil]
      rfl
    | inr hsome =>
      obtain ⟨d, hread, hlen⟩ := hsome
      -- the names differ, so nothing is overwritten
      have hwrite : writeFile call files name d = .ok (files ++ [(name, d)]) :=
        (writeFile_holds hfault hS hholds hread).mpr ⟨hnew name List.mem_cons_self, rfl⟩
      have hrest := ih (holds_snoc hholds hread) (fun n hn => hshort n (List.mem_cons_of_mem _ hn)) hnodup ?_
      · rw [get_dirSource hsource hread hlen, hread]
        change (writeFile call files name d >>= fun files => downloadSignatures opts call files names) = _
        rw [hwrite]
        change downloadSignatures opts call (files ++ [(name, d)]) names = _
        rw [hrest, List.append_assoc]
        rfl
      · intro n hn hmem
        rw [List.map_append, List.mem_append] at hmem
        cases hmem with
        | inl hold => exact hnew n (List.mem_cons_of_mem _ hn) hold
        | inr heq =>
          have hsame : n = name := by simpa using heq
          exact hname (hsame ▸ hn)

/-- The listed files are downloaded unless something was written at one of their paths. -/
theorem downloadFiles_dir {entries : List ManifestFile} {bundleFiles : List BundleFile}
    (hsource : opts.source = dirSource S) (hfault : call.fault = none) (hS : S.Coherent) (hholds : S.Holds files)
    (hmatch : List.Forall₂ (BundleFile.Matches c.sha256 S) entries bundleFiles)
    (hnodup : (entries.map ManifestFile.path).Nodup) :
    checkEach (downloadFile c opts call) files entries = .ok files' ↔
      (∀ f ∈ entries, f.path ∉ files.map Prod.fst) ∧
        files' = files ++ bundleFiles.map fun f => (f.path, f.data) := by
  -- along the listed files, with what was downloaded before each of them
  induction hmatch generalizing files with
  | nil => simp [checkEach, eq_comm]
  | @cons entry f entries bundleFiles hentry hrest ih =>
    obtain ⟨hfresh, hnodup⟩ := List.nodup_cons.mp hnodup
    have hread := hS.opens _ _ hentry.inside.1
    -- a file of the source has its length and digest, so only its path can be in the way
    have hdownload (files₁ : List (String × Bytes)) : downloadFile c opts call files entry = .ok files₁ ↔
        entry.path ∉ files.map Prod.fst ∧ files₁ = files ++ [(entry.path, f.data)] := by
      rw [← writeFile_holds hfault hS hholds hread, downloadFile,
        require_dirSource hsource hread (Nat.le_of_eq hentry.size_eq)]
      simp only [except_ok_bind, except_bind_eq_ok, refuseIf_eq_ok, hentry.size_eq, hentry.sha256_eq, ne_eq,
        not_true_eq_false, or_self, not_false_eq_true, exists_const, true_and]
    rw [checkEach_cons_eq_ok]
    simp only [hdownload]
    constructor
    · intro h
      obtain ⟨files₁, ⟨hnew, rfl⟩, hall⟩ := h
      obtain ⟨hothers, rfl⟩ := (ih (holds_snoc hholds hread) hnodup).mp hall
      refine ⟨fun e he hmem => ?_, ?_⟩
      · cases List.mem_cons.mp he with
        | inl heq => exact hnew (heq ▸ hmem)
        | inr htail =>
          refine hothers e htail ?_
          rw [List.map_append]
          exact List.mem_append_left _ hmem
      · rw [List.map_cons, hentry.path_eq, List.append_assoc]
        rfl
    · intro h
      obtain ⟨hall, rfl⟩ := h
      refine ⟨_, ⟨hall entry List.mem_cons_self, rfl⟩, (ih (holds_snoc hholds hread) hnodup).mpr ⟨fun e he hmem => ?_, ?_⟩⟩
      · rw [List.map_append, List.mem_append] at hmem
        cases hmem with
        | inl hold => exact hall e (List.mem_cons_of_mem _ he) hold
        | inr heq =>
          have hsame : e.path = entry.path := by simpa using heq
          exact hfresh (List.mem_map.mpr ⟨e, he, hsame⟩)
      · rw [List.map_cons, hentry.path_eq, List.append_assoc]
        rfl

/-! ### The directory itself -/

section Loaded

variable {dir : String} {acc acc' : Signatures} {now : OffsetDateTime} {lopts : LoadOptions}

/-- A signature file is taken if it is short enough; it is noted that there was one. -/
theorem verifySignature_eq_ok {name : String}
    (h : verifySignature dir S data keys now acc name = .ok acc') :
    S.Short maxSignatureBytes name ∧
      (acc'.foundAny = true ↔ acc.foundAny = true ∨ ∃ d, S.read name = .ok d) := by
  unfold verifySignature readBounded at h
  cases hread : S.read name with
  | error e =>
    rw [hread] at h
    cases e with
    -- a signature that is not there is none
    | notFound =>
      cases h
      exact ⟨.inl hread, by simp⟩
    | other reason => cases h
  | ok d =>
    rw [hread] at h
    by_cases hlen : (d.take (maxSignatureBytes + 1)).length > maxSignatureBytes
    · simp only [if_pos hlen] at h
      cases h
    · simp only [if_neg hlen] at h
      -- whatever becomes of it, it is noted that there was one
      have hfound : acc'.foundAny = true := by
        split at h
        · cases h
          rfl
        · split at h
          · split at h <;> cases h <;> rfl
          · cases h
            rfl
      rw [List.length_take] at hlen
      exact ⟨.inr ⟨d, hread, by omega⟩, by simp [hfound]⟩

theorem verifySignature_total (dir : String) (data : Bytes) (keys : TrustedKeys ms) (now : OffsetDateTime)
    (acc : Signatures) {name : String} (h : S.Short maxSignatureBytes name) :
    ∃ acc', verifySignature dir S data keys now acc name = .ok acc' := by
  unfold verifySignature readBounded
  cases h with
  | inl hnone =>
    rw [hnone]
    exact ⟨acc, rfl⟩
  | inr hsome =>
    obtain ⟨d, hread, hlen⟩ := hsome
    have htake : ¬ (d.take (maxSignatureBytes + 1)).length > maxSignatureBytes := by
      rw [List.length_take]
      omega
    rw [hread]
    simp only [if_neg htake]
    split
    · exact ⟨_, rfl⟩
    · split
      · split <;> exact ⟨_, rfl⟩
      · exact ⟨_, rfl⟩

theorem verifySignatures_total (dir : String) (data : Bytes) (keys : TrustedKeys ms) (now : OffsetDateTime)
    (acc : Signatures) {names : List String} (h : ∀ name ∈ names, S.Short maxSignatureBytes name) :
    ∃ acc', checkEach (verifySignature dir S data keys now) acc names = .ok acc' ∧
      (acc'.foundAny = true ↔ acc.foundAny = true ∨ ∃ name ∈ names, ∃ d, S.read name = .ok d) := by
  induction names generalizing acc with
  | nil => exact ⟨acc, rfl, by simp⟩
  | cons name names ih =>
    obtain ⟨acc₁, hname⟩ := verifySignature_total dir data keys now acc (h name List.mem_cons_self)
    obtain ⟨acc', hrest, hfound⟩ := ih acc₁ fun n hn => h n (List.mem_cons_of_mem _ hn)
    refine ⟨acc', checkEach_cons_eq_ok.mpr ⟨acc₁, hname, hrest⟩, ?_⟩
    rw [hfound, (verifySignature_eq_ok hname).2]
    simp only [List.exists_mem_cons_iff, or_assoc]

theorem verifySignatures_short {signers : List KeyId}
    (h : verifySignatures dir S data keys now = .ok signers) :
    ∀ name ∈ signatureNames, S.Short maxSignatureBytes name := by
  simp only [verifySignatures, except_bind_eq_ok] at h
  obtain ⟨found, hloop, -⟩ := h
  have hstep (acc : Signatures) (name : String) (acc' : Signatures)
      (h : verifySignature dir S data keys now acc name = .ok acc') : S.Short maxSignatureBytes name :=
    (verifySignature_eq_ok h).1
  exact checkEach_forall hstep hloop

/-- Short signature files are verified when enough distinct keys signed with one of them. -/
theorem verifySignatures_of_signers {signers : List KeyId}
    (hshort : ∀ name ∈ signatureNames, S.Short maxSignatureBytes name) (hnodup : signers.Nodup)
    (hrequired : keys.requiredSignatures ≤ signers.length)
    (hsigned : ∀ id, id ∈ signers ↔ ∃ name ∈ signatureNames, SignedBy dir S data keys now name id) :
    ∃ signers', verifySignatures dir S data keys now = .ok signers' ∧ ∀ id, id ∈ signers' ↔ id ∈ signers := by
  obtain ⟨found, hloop, hfound⟩ := verifySignatures_total dir data keys now ⟨[], [], false⟩ hshort
  have hstart : Signatures.Sound dir S data keys now [] ⟨[], [], false⟩ :=
    ⟨List.nodup_nil, fun id => by simp⟩
  have hsound := verifySignatures_loop hstart hloop
  have hsame (id : KeyId) : id ∈ found.signers ↔ id ∈ signers := by
    rw [hsound.mem_iff, hsigned, List.nil_append]
  have hlength : found.signers.length = signers.length :=
    ((List.perm_ext_iff_of_nodup hsound.nodup hnodup).mpr hsame).length_eq
  have hpositive : 1 ≤ keys.requiredSignatures := le_max_right _ _
  have hany : found.foundAny = true := by
    have hmem : signers.get ⟨0, by omega⟩ ∈ signers := List.get_mem _ _
    obtain ⟨name, hname, sigBytes, _, _, hread, _⟩ := (hsigned _).mp hmem
    exact hfound.mpr (.inr ⟨name, hname, sigBytes, (readBounded_eq_ok hread).1⟩)
  refine ⟨found.signers, ?_, hsame⟩
  simp only [verifySignatures, hloop, except_ok_bind, except_bind_eq_ok, refuseIf_eq_ok, hany, exists_const]
  refine ⟨by decide, ?_, trivial⟩
  omega

/-! ### The staged directory -/

theorem dirOf_read (hholds : S.Holds files) (name : String) :
    (dirOf files).read name = if name ∈ files.map Prod.fst then S.read name else .error .notFound := by
  cases hlookup : files.lookup name with
  | none =>
    rw [dirOf_read_none hlookup]
    have hnot : name ∉ files.map Prod.fst := by
      intro hmem
      obtain ⟨f, hf, rfl⟩ := List.mem_map.mp hmem
      have hne := List.lookup_eq_none_iff.mp hlookup f hf
      simp at hne
    rw [if_neg hnot]
  | some d =>
    rw [dirOf_read_some hlookup]
    obtain ⟨l₁, l₂, heq, -⟩ := List.lookup_eq_some_iff.mp hlookup
    have hmem : (name, d) ∈ files := by
      rw [heq]
      exact List.mem_append_right _ List.mem_cons_self
    rw [if_pos (List.mem_map_of_mem hmem), hholds _ hmem]

theorem staged_signedBy (hholds : S.Holds files) {dir' name : String} {id : KeyId} :
    SignedBy dir' (dirOf files) data keys now name id ↔
      name ∈ files.map Prod.fst ∧ SignedBy dir S data keys now name id := by
  -- what was staged is read as in the source
  have hread {sigBytes : Bytes} : readBounded dir' (dirOf files) name maxSignatureBytes = .ok sigBytes ↔
      name ∈ files.map Prod.fst ∧ readBounded dir S name maxSignatureBytes = .ok sigBytes := by
    unfold readBounded
    rw [dirOf_read hholds]
    by_cases hmem : name ∈ files.map Prod.fst
    · rw [if_pos hmem, and_iff_right hmem]
      cases S.read name with
      | error e => simp
      | ok full =>
        dsimp only
        split <;> simp
    · rw [if_neg hmem]
      simp [hmem]
  simp only [SignedBy, hread]
  constructor
  · intro h
    obtain ⟨sigBytes, text, sig, ⟨hmem, hr⟩, hrest⟩ := h
    exact ⟨hmem, sigBytes, text, sig, hr, hrest⟩
  · intro h
    obtain ⟨hmem, sigBytes, text, sig, hr, hrest⟩ := h
    exact ⟨sigBytes, text, sig, ⟨hmem, hr⟩, hrest⟩

/-- The listed files are read again from where they were written. -/
theorem readFiles_staged {sha256 : Bytes → Sha256Digest} {entries : List ManifestFile}
    {bundleFiles : List BundleFile} (done : List BundleFile) (hS : S.Coherent) (hholds : S.Holds files)
    (hmatch : List.Forall₂ (BundleFile.Matches sha256 S) entries bundleFiles)
    (hsizes : ∀ e ∈ entries, e.size ≤ maxContentFileBytes) (hlisted : ∀ e ∈ entries, e.path ∈ files.map Prod.fst) :
    checkEach (readFile sha256 (dirOf files)) done entries = .ok (done ++ bundleFiles) := by
  induction hmatch generalizing done with
  | nil => rw [checkEach, List.append_nil]
  | @cons entry f entries bundleFiles hentry hrest ih =>
    have hread := dirOf_read hholds entry.path
    rw [if_pos (hlisted entry List.mem_cons_self), hS.opens _ _ hentry.inside.1] at hread
    have hopen : (dirOf files).openWith entry.path = .ok f.data := by
      cases hlookup : files.lookup entry.path with
      | none =>
        rw [dirOf_read_none hlookup] at hread
        cases hread
      | some d =>
        rw [dirOf_read_some hlookup] at hread
        cases hread
        exact dirOf_openWith_some hlookup
    have hlimit : maxContentFileBytes + 1 ≤ 2 ^ 64 - 1 := by decide
    have hsize := hsizes entry List.mem_cons_self
    -- one byte more than listed is read, and the file has no more
    have htake : f.data.take (min (entry.size + 1) (2 ^ 64 - 1)) = f.data := by
      refine List.take_of_length_le ?_
      rw [hentry.size_eq]
      omega
    have hlisted' : readListed sha256 (dirOf files) entry = .ok f.data := by
      rw [readListed, hopen]
      simp only [Except.mapError, except_ok_bind, htake, except_bind_eq_ok, refuseIf_eq_ok, hentry.size_eq,
        hentry.sha256_eq, ne_eq, not_true_eq_false, not_false_eq_true, exists_const, true_and]
    have hfile : readFile sha256 (dirOf files) done entry = .ok (done ++ [f]) := by
      have hsame : f = ⟨entry.path, entry.kind, f.data⟩ := by
        rw [← hentry.path_eq, ← hentry.kind_eq]
      rw [readFile, hlisted', except_ok_bind, ← hsame]
    rw [checkEach_cons_eq_ok]
    refine ⟨_, hfile, ?_⟩
    rw [ih _ (fun e he => hsizes e (List.mem_cons_of_mem _ he)) fun e he => hlisted e (List.mem_cons_of_mem _ he),
      List.append_assoc]
    rfl

/-- The signers of what is staged signed in a file that is staged. -/
theorem signed_of_staged {sha256 : Bytes → Sha256Digest} {parseManifest : Bytes → Except String Manifest}
    {dir' : String} {b' : VerifiedBundle} (hholds : S.Holds files) (hdata : S.read manifestFile = .ok data)
    (hmanifest : manifestFile ∈ files.map Prod.fst)
    (hload : loadBundle sha256 parseManifest dir' (dirOf files) keys lopts = .ok b') :
    ∀ id ∈ b'.signers, ∃ name ∈ signatureNames, name ∈ files.map Prod.fst ∧
      SignedBy dir S data keys lopts.now name id := by
  obtain ⟨-, data', hread, hsig, -⟩ := loadBundle_eq_ok.mp hload
  have hstaged := (readBounded_eq_ok hread).1
  rw [dirOf_read hholds, if_pos hmanifest, hdata] at hstaged
  obtain rfl := Except.ok.inj hstaged
  intro id hid
  obtain ⟨name, hname, hsigned⟩ := ((verifySignatures_eq_ok hsig).2.2 id).mp hid
  obtain ⟨hin, hsigned⟩ := (staged_signedBy hholds).mp hsigned
  exact ⟨name, hname, hin, hsigned⟩

/-- The staged directory is accepted with the same signers when what every one of them signed is staged. -/
theorem loadBundle_staged {sha256 : Bytes → Sha256Digest} {parseManifest : Bytes → Except String Manifest}
    (hload : loadBundle sha256 parseManifest dir S keys lopts = .ok b) (hS : S.Coherent) (hholds : S.Holds files)
    (hdata : S.read manifestFile = .ok data) (hmanifest : manifestFile ∈ files.map Prod.fst)
    (hlisted : ∀ f ∈ b.manifest.files, f.path ∈ files.map Prod.fst)
    (hsigned : ∀ id ∈ b.signers, ∃ name ∈ signatureNames, name ∈ files.map Prod.fst ∧
      SignedBy dir S data keys lopts.now name id) (dir' : String) :
    ∃ b', loadBundle sha256 parseManifest dir' (dirOf files) keys lopts = .ok b' ∧
      b'.manifest = b.manifest ∧ b'.manifestSha256 = b.manifestSha256 ∧ b'.files = b.files ∧
      ∀ id, id ∈ b'.signers ↔ id ∈ b.signers := by
  obtain ⟨hempty, data', hread, hsig, hparse, hvalid, hallowed, -, hfiles, -, hsha, hexpired⟩ :=
    loadBundle_eq_ok.mp hload
  obtain ⟨hread', hlen⟩ := readBounded_eq_ok hread
  obtain rfl : data = data' := Except.ok.inj (hdata.symm.trans hread')
  obtain ⟨hnodup, hrequired, hmem⟩ := verifySignatures_eq_ok hsig
  have hval := b.manifest.validate_eq_ok_iff.mp hvalid
  have hmatch := readFiles_matches hval.sizes_le List.Forall₂.nil hfiles
  -- a signature file is staged as it was, or it is missing
  have hshort (name : String) (hname : name ∈ signatureNames) : (dirOf files).Short maxSignatureBytes name := by
    unfold BundleDir.Short
    rw [dirOf_read hholds]
    by_cases hin : name ∈ files.map Prod.fst
    · rw [if_pos hin]
      exact verifySignatures_short hsig name hname
    · rw [if_neg hin]
      exact .inl rfl
  have hall (id : KeyId) : id ∈ b.signers ↔ ∃ name ∈ signatureNames,
      SignedBy dir' (dirOf files) data keys lopts.now name id := by
    constructor
    · intro hid
      obtain ⟨name, hname, hin, hby⟩ := hsigned id hid
      exact ⟨name, hname, (staged_signedBy hholds).mpr ⟨hin, hby⟩⟩
    · intro hid
      obtain ⟨name, hname, hby⟩ := hid
      exact (hmem id).mpr ⟨name, hname, ((staged_signedBy hholds).mp hby).2⟩
  obtain ⟨signers', hverified, hsame⟩ := verifySignatures_of_signers hshort hnodup hrequired hall
  -- the manifest is staged, and it was read within the limit
  have hstaged : readBounded dir' (dirOf files) manifestFile maxManifestBytes = .ok data := by
    have htake : ¬ (data.take (maxManifestBytes + 1)).length > maxManifestBytes := by
      rw [List.length_take]
      omega
    rw [readBounded, dirOf_read hholds, if_pos hmanifest, hdata]
    simp only [if_neg htake]
    rw [List.take_of_length_le (by omega)]
  refine ⟨⟨dir', b.manifest, b.manifestSha256, signers', b.expired, b.files⟩, ?_, rfl, rfl, rfl, hsame⟩
  exact loadBundle_eq_ok.mpr ⟨hempty, data, hstaged, hverified, hparse, hvalid, hallowed, rfl,
    readFiles_staged [] hS hholds hmatch hval.sizes_le hlisted, rfl, hsha, hexpired⟩

/-- The timestamp names the release. -/
structure Timestamp.Names (ts : Timestamp) (b : VerifiedBundle) (data : Bytes) : Prop where
  bundle : b.manifest.name = ts.bundle
  sequence : b.manifest.sequence = ts.sequence
  sha256 : b.manifestSha256 = ts.manifestSha256
  size : data.length = ts.manifestSize

theorem manifestFile_not_mem : manifestFile ∉ signatureNames := by decide

/-- The manifest and the signatures as the update writes them. -/
def BundleDir.signedManifest (S : BundleDir) (data : Bytes) : List (String × Bytes) :=
  (manifestFile, data) :: S.contiguous signatureNames

theorem holds_signedManifest (hdata : S.read manifestFile = .ok data) : S.Holds (S.signedManifest data) := by
  intro f hf
  cases List.mem_cons.mp hf with
  | inl heq =>
    rw [heq]
    exact hdata
  | inr hsig => exact (contiguous_names f hsig).2

/-- The download needs the first signature file, and that no file is listed where it writes the manifest or a
signature. -/
theorem download_dir_iff (hsource : opts.source = dirSource S) (hfault : call.fault = none) (hS : S.Coherent)
    (hload : loadBundle c.sha256 c.parseManifest dir S keys lopts = .ok b)
    (hdata : S.read manifestFile = .ok data) (hnames : ts.Names b data) :
    download c opts call ts = .ok files ↔
      (∃ d, S.read (manifestFile ++ ".minisig") = .ok d) ∧
      (∀ f ∈ b.manifest.files, f.path ∉ (S.signedManifest data).map Prod.fst) ∧
      files = S.signedManifest data ++ b.files.map fun f => (f.path, f.data) := by
  obtain ⟨-, data', hread, hsig, hparse, hvalid, -, -, hfiles, -, hsha, -⟩ := loadBundle_eq_ok.mp hload
  obtain ⟨hread', hlen⟩ := readBounded_eq_ok hread
  obtain rfl : data = data' := Except.ok.inj (hdata.symm.trans hread')
  have hval := b.manifest.validate_eq_ok_iff.mp hvalid
  have hmatch : List.Forall₂ (BundleFile.Matches c.sha256 S) b.manifest.files b.files :=
    readFiles_matches hval.sizes_le List.Forall₂.nil hfiles
  have hshort := verifySignatures_short hsig
  have hnew : manifestFile ++ ".minisig" ∉ [manifestFile] := by decide
  have hothers : ∀ name ∈ signatureNames.tail, name ∉ [manifestFile, manifestFile ++ ".minisig"] := by decide
  have hsplit : signatureNames = (manifestFile ++ ".minisig") :: signatureNames.tail := rfl
  have hmanifest : writeFile call [] manifestFile data = .ok [(manifestFile, data)] :=
    (writeFile_holds hfault hS (fun f hf => absurd hf List.not_mem_nil) hdata).mpr ⟨List.not_mem_nil, rfl⟩
  have hone : S.Holds [(manifestFile, data)] := by
    intro f hf
    rw [List.mem_singleton.mp hf]
    exact hdata
  -- up to the first signature nothing can fail
  have hstart : download c opts call ts = .ok files ↔
      (opts.require (manifestFile ++ ".minisig") maxSignatureBytes >>= fun sig =>
        writeFile call [(manifestFile, data)] (manifestFile ++ ".minisig") sig >>= fun files =>
          downloadSignatures opts call files signatureNames.tail >>= fun files =>
            checkEach (downloadFile c opts call) files b.manifest.files) = .ok files := by
    rw [download, require_dirSource hsource hdata hlen]
    simp only [except_ok_bind, hparse, Except.mapError, hvalid, hmanifest]
    have hsame : ¬ (data.length ≠ ts.manifestSize ∨ c.sha256 data ≠ ts.manifestSha256) := by
      simp [hnames.size, ← hsha, hnames.sha256]
    have hnamed : ¬ (b.manifest.name ≠ ts.bundle ∨ b.manifest.sequence ≠ ts.sequence) := by
      simp [hnames.bundle, hnames.sequence]
    rw [refuseIf, if_neg hsame, except_ok_bind, refuseIf, if_neg hnamed, except_ok_bind]
  rw [hstart]
  cases hshort (manifestFile ++ ".minisig") (by rw [hsplit]; exact List.mem_cons_self) with
  | inl hnone =>
    rw [UpdateOptions.require, get_dirSource_none hsource hnone, hnone]
    constructor
    · intro h
      cases h
    · intro h
      obtain ⟨⟨d, hd⟩, -⟩ := h
      cases hd
  | inr hsome =>
    obtain ⟨sig, hfirst, hsiglen⟩ := hsome
    have hwrite : writeFile call [(manifestFile, data)] (manifestFile ++ ".minisig") sig =
        .ok [(manifestFile, data), (manifestFile ++ ".minisig", sig)] :=
      (writeFile_holds hfault hS hone hfirst).mpr ⟨hnew, rfl⟩
    have hsignatures : downloadSignatures opts call [(manifestFile, data), (manifestFile ++ ".minisig", sig)]
        signatureNames.tail = .ok (S.signedManifest data) := by
      have hrest := downloadSignatures_dir hsource hfault hS (holds_snoc hone hfirst)
        (fun name hname => hshort name (List.mem_of_mem_tail hname)) (by decide) hothers
      rw [BundleDir.signedManifest, hsplit, BundleDir.contiguous, hfirst]
      exact hrest
    rw [require_dirSource hsource hfirst hsiglen, except_ok_bind, hwrite, except_ok_bind, hsignatures,
      except_ok_bind, downloadFiles_dir hsource hfault hS (holds_signedManifest hdata) hmatch hval.paths_nodup]
    exact (and_iff_right ⟨sig, hfirst⟩).symm

end Loaded

/-! ### The update -/

variable {state : ContentState} {w : World} {dir : String}

/-- The update installs the release, and what is installed is accepted with the same signers. -/
def Installs (c : Content ms) (opts : UpdateOptions ms) (call : UpdateCall) (w : World) (keys : TrustedKeys ms)
    (b : VerifiedBundle) : Prop :=
  ∃ result w' content b', update c opts call w = (.ok result, w') ∧
    w'.contentDir[b.manifest.name]? = some (.plain (.dir content)) ∧
    loadBundle c.sha256 c.parseManifest (joinPath opts.contentDir b.manifest.name) content keys
      ⟨opts.allowExpired, call.now⟩ = .ok b' ∧
    ∀ id, id ∈ b'.signers ↔ id ∈ b.signers

/-- The bundle has the name of a directory entry, and the first signature file is there. Every signer signed in
one of the numbered files before a gap, or in a listed file, and none of those is listed that the update writes by
itself. -/
structure TakesAll (S : BundleDir) (data : Bytes) (keys : TrustedKeys ms) (now : OffsetDateTime) (dir : String)
    (b : VerifiedBundle) : Prop where
  named : dotName b.manifest.name = false
  first : ∃ d, S.read (manifestFile ++ ".minisig") = .ok d
  apart : ∀ f ∈ b.manifest.files, f.path ∉ (S.signedManifest data).map Prod.fst
  signed : ∀ id ∈ b.signers, ∃ name ∈ signatureNames,
    (name ∈ (S.contiguous signatureNames).map Prod.fst ∨ name ∈ b.manifest.files.map ManifestFile.path) ∧
      SignedBy dir S data keys now name id

/-- Nothing of the system stands in the way: no call fails, the names of the call are free, the bundle is no
dangling link and not the one that is named, and the state can be written. -/
structure Unhindered (c : Content ms) (opts : UpdateOptions ms) (call : UpdateCall) (w : World)
    (state : ContentState) (keys : TrustedKeys ms) (ts : Timestamp) : Prop where
  fault : call.fault = none
  not_current : alreadyCurrent c (recover w.contentDir ts.bundle) ts = false
  staging : (recover w.contentDir ts.bundle)[stagingName call ts]? = none
  old : (recover w.contentDir ts.bundle)[oldName call ts]? = none
  target : (recover w.contentDir ts.bundle)[ts.bundle]? ≠ some (.link none)
  saved : ∀ files verified,
    stage c opts call state keys ts (joinPath opts.contentDir (stagingName call ts)) = .ok (files, verified) →
      ∃ json, c.codec.toVec (recordedState call state verified ts).data = .ok json

theorem attempt_ok (hfault : call.fault = none) (step : UpdateStep) : call.attempt step = .ok () := by
  rw [UpdateCall.attempt, hfault]

/-- Both renames go through when the names are free. -/
theorem swap_of_free (d : ContentDir) {target staging old : String} {e : Entry} (hfault : call.fault = none)
    (hstaging : d[staging]? = some e) (hold : d[old]? = none) (htarget : d[target]? ≠ some (.link none))
    (hnamed : dotName target = false) (hstagingDots : dotName staging = false) (holdDots : dotName old = false)
    (hts : staging ≠ target) (hso : staging ≠ old) (hto : target ≠ old) :
    ∃ hadOld d', swap call d target staging old = (.ok hadOld, d') := by
  -- no call fails, so a step is its rename
  have hstep (step : UpdateStep) (d₁ d₂ : ContentDir) (a b : String) (h : d₁.rename a b = .ok d₂) :
      renameStep call step d₁ a b = .ok d₂ := by
    rw [renameStep, attempt_ok hfault, except_ok_bind, h]
    rfl
  cases hentry : d[target]? with
  | none =>
    -- there is no old bundle to set aside
    have hexists : d.exists? target = false := by
      rw [ContentDir.exists?, hentry, hnamed]
      rfl
    have hinstall := hstep .install _ _ _ _ (rename_of_free hstagingDots hnamed hstaging hentry)
    refine ⟨false, (d.erase staging).insert target e, ?_⟩
    simp only [swap, hexists, Bool.false_eq_true, if_false, hinstall]
  | some e' =>
    have hexists : d.exists? target = true := by
      rw [ContentDir.exists?, hentry, hnamed]
      cases e' with
      | plain p => rfl
      | link leads =>
        cases leads with
        | none => exact absurd hentry htarget
        | some p => rfl
    have haside := rename_of_free hnamed holdDots hentry hold
    -- setting aside leaves the staging directory and frees the target
    have hstaging' : ((d.erase target).insert old e')[staging]? = some e := by
      rw [rename_get haside hts hso]
      exact hstaging
    have hgone : ((d.erase target).insert old e')[target]? = none := rename_get_source haside hto
    have hinstall := hstep .install _ _ _ _ (rename_of_free hstagingDots hnamed hstaging' hgone)
    refine ⟨true, (((d.erase target).insert old e').erase staging).insert target e, ?_⟩
    simp only [swap, hexists, if_true, hstep .setAside _ _ _ _ haside, hinstall]

theorem update_of_channel (hchannel : checkChannel c opts call w.stateFile = .ok (state, keys, ts))
    (hfault : call.fault = none) :
    update c opts call w =
      updateBundle c opts call state keys ts { w with contentDir := recover w.contentDir ts.bundle } := by
  rw [update, hchannel]
  simp only [attempt_ok hfault]

/-- What is staged when the download goes through. -/
theorem stage_of_download (hfree : Unhindered c opts call w state keys ts) {staging : String}
    {verified : VerifiedBundle} (hdownload : download c opts call ts = .ok files)
    (hload : loadBundle c.sha256 c.parseManifest staging (dirOf files) keys ⟨opts.allowExpired, call.now⟩ =
      .ok verified)
    (hcheck : state.check verified (keys.minSequence verified.manifest.name) = .ok ())
    (hvalid : opts.validate verified = .ok ()) :
    stage c opts call state keys ts staging = .ok (files, verified) := by
  rw [stage, hdownload, except_ok_bind, verifyStaged, attempt_ok hfree.fault, except_ok_bind, hload]
  simp only [Except.mapError, except_ok_bind, hcheck, hvalid, attempt_ok hfree.fault]

/-- A release that is staged is installed. -/
theorem update_of_staged (hchannel : checkChannel c opts call w.stateFile = .ok (state, keys, ts))
    (hfree : Unhindered c opts call w state keys ts) (hnamed : dotName ts.bundle = false)
    {verified : VerifiedBundle}
    (hstage : stage c opts call state keys ts (joinPath opts.contentDir (stagingName call ts)) =
      .ok (files, verified)) :
    ∃ result w', update c opts call w = (.ok result, w') ∧
      w'.contentDir[ts.bundle]? = some (.plain (.dir (dirOf files))) := by
  have hcreated : createStaging call (recover w.contentDir ts.bundle) (stagingName call ts) =
      .ok ((recover w.contentDir ts.bundle).insert (stagingName call ts) (.plain (.dir (dirOf [])))) := by
    rw [createStaging, attempt_ok hfree.fault, except_ok_bind, attempt_ok hfree.fault, except_ok_bind, refuseIf,
      if_neg (by simp [hfree.staging]), except_ok_bind]
  have hne (name : String) (h : stagingName call ts ≠ name) :
      ((recover w.contentDir ts.bundle).insert (stagingName call ts) (.plain (.dir (dirOf files))))[name]? =
        (recover w.contentDir ts.bundle)[name]? := by
    rw [get_insert, if_neg h]
  -- the recovery freed the names, and staging took only its own
  obtain ⟨hadOld, d', hswap⟩ := swap_of_free ((recover w.contentDir ts.bundle).insert (stagingName call ts)
    (.plain (.dir (dirOf files)))) hfree.fault (by rw [get_insert, if_pos rfl])
    (by rw [hne _ stagingName_ne_oldName]; exact hfree.old) (by rw [hne _ stagingName_ne_bundle]; exact hfree.target)
    hnamed stagingName_not_dots oldName_not_dots stagingName_ne_bundle stagingName_ne_oldName oldName_ne_bundle.symm
  have hswapped : Swapped c opts call state keys ts (recover w.contentDir ts.bundle) files verified hadOld d' :=
    ⟨hfree.not_current, hcreated, hstage, hswap⟩
  obtain ⟨json, hjson⟩ := hfree.saved files verified hstage
  have hfault : call.saveFault = none := by
    rw [UpdateCall.saveFault, hfree.fault]
  rw [update_of_channel hchannel hfree.fault, updateBundle_of_swapped hswapped, ContentState.save, hjson, hfault]
  refine ⟨_, _, rfl, ?_⟩
  -- what was set aside is removed, which is not the bundle
  cases hadOld with
  | true =>
    have hold : ts.bundle ≠ oldName call ts := oldName_ne_bundle.symm
    exact (removeDirAll_get_ne hold).trans hswapped.installed.1
  | false => exact hswapped.installed.1

/-- What was staged before an update that went through. -/
theorem staged_of_update (hchannel : checkChannel c opts call w.stateFile = .ok (state, keys, ts))
    (hfree : Unhindered c opts call w state keys ts) {result : UpdateOutcome} {w' : World}
    (h : update c opts call w = (.ok result, w')) :
    ∃ files verified, stage c opts call state keys ts (joinPath opts.contentDir (stagingName call ts)) =
        .ok (files, verified) ∧ w'.contentDir[ts.bundle]? = some (.plain (.dir (dirOf files))) ∧
      dotName ts.bundle = false := by
  have hbundle := h
  rw [update_of_channel hchannel hfree.fault] at hbundle
  obtain ⟨hcurrent, -⟩ | ⟨⟨e, he⟩, -⟩ | ⟨files, verified, hadOld, d', hswapped⟩ := updateBundle_cases hbundle
  · rw [hfree.not_current] at hcurrent
    cases hcurrent
  · cases he
  · obtain ⟨result', w₁, hupdate, hinstalled⟩ := update_of_staged hchannel hfree hswapped.named hswapped.staged
    rw [h] at hupdate
    obtain ⟨-, rfl⟩ := Prod.mk.inj hupdate
    exact ⟨files, verified, hswapped.staged, hinstalled, hswapped.named⟩

theorem matches_paths {sha256 : Bytes → Sha256Digest} {entries : List ManifestFile} {bundleFiles : List BundleFile}
    (h : List.Forall₂ (BundleFile.Matches sha256 S) entries bundleFiles) :
    bundleFiles.map BundleFile.path = entries.map ManifestFile.path := by
  induction h with
  | nil => rfl
  | cons hentry hrest ih => rw [List.map_cons, List.map_cons, hentry.path_eq, ih]

theorem matches_read {sha256 : Bytes → Sha256Digest} {entries : List ManifestFile} {bundleFiles : List BundleFile}
    (hS : S.Coherent) (h : List.Forall₂ (BundleFile.Matches sha256 S) entries bundleFiles) :
    ∀ f ∈ bundleFiles, S.read f.path = .ok f.data := by
  induction h with
  | nil => exact fun f hf => absurd hf List.not_mem_nil
  | @cons entry f entries bundleFiles hentry hrest ih =>
    intro f' hf'
    cases List.mem_cons.mp hf' with
    | inl heq =>
      rw [heq, hentry.path_eq]
      exact hS.opens _ _ hentry.inside.1
    | inr htail => exact ih f' htail

/-- The files of a staged release, by their names. -/
theorem mem_staged_iff {name : String} {lopts : LoadOptions}
    (hload : loadBundle c.sha256 c.parseManifest dir S keys lopts = .ok b) :
    name ∈ (S.signedManifest data ++ b.files.map fun f => (f.path, f.data)).map Prod.fst ↔
      name = manifestFile ∨ name ∈ (S.contiguous signatureNames).map Prod.fst ∨
        name ∈ b.manifest.files.map ManifestFile.path := by
  obtain ⟨-, _, -, -, -, hvalid, -, -, hfiles, -⟩ := loadBundle_eq_ok.mp hload
  have hval := b.manifest.validate_eq_ok_iff.mp hvalid
  have hmatch : List.Forall₂ (BundleFile.Matches c.sha256 S) b.manifest.files b.files :=
    readFiles_matches hval.sizes_le List.Forall₂.nil hfiles
  rw [List.map_append, List.mem_append, BundleDir.signedManifest, List.map_cons, List.mem_cons, List.map_map, or_assoc,
    ← matches_paths hmatch]
  exact Iff.rfl

theorem holds_staged {lopts : LoadOptions} (hload : loadBundle c.sha256 c.parseManifest dir S keys lopts = .ok b)
    (hS : S.Coherent) (hdata : S.read manifestFile = .ok data) :
    S.Holds (S.signedManifest data ++ b.files.map fun f => (f.path, f.data)) := by
  obtain ⟨-, _, -, -, -, hvalid, -, -, hfiles, -⟩ := loadBundle_eq_ok.mp hload
  have hval := b.manifest.validate_eq_ok_iff.mp hvalid
  have hmatch : List.Forall₂ (BundleFile.Matches c.sha256 S) b.manifest.files b.files :=
    readFiles_matches hval.sizes_le List.Forall₂.nil hfiles
  intro f hf
  cases List.mem_append.mp hf with
  | inl hsigned => exact holds_signedManifest hdata f hsigned
  | inr hlisted =>
    obtain ⟨f', hf', rfl⟩ := List.mem_map.mp hlisted
    exact matches_read hS hmatch f' hf'

/-- An update from a directory that can be loaded, is not a rollback and passes the validator installs it with the
same signers just when it takes every signature that counts. -/
theorem directory_update_iff (hsource : opts.source = dirSource S) (hS : S.Coherent)
    (hchannel : checkChannel c opts call w.stateFile = .ok (state, keys, ts))
    (hload : loadBundle c.sha256 c.parseManifest dir S keys ⟨opts.allowExpired, call.now⟩ = .ok b)
    (hcheck : state.check b (keys.minSequence b.manifest.name) = .ok ())
    (hvalid : ∀ b', b'.manifest = b.manifest → b'.manifestSha256 = b.manifestSha256 → b'.files = b.files →
      opts.validate b' = .ok ())
    (hdata : S.read manifestFile = .ok data) (hnames : ts.Names b data)
    (hfree : Unhindered c opts call w state keys ts) :
    Installs c opts call w keys b ↔ TakesAll S data keys call.now dir b := by
  have hholds := holds_staged hload hS hdata
  have hmanifest : manifestFile ∈ (S.signedManifest data ++ b.files.map fun f => (f.path, f.data)).map Prod.fst :=
    (mem_staged_iff hload).mpr (.inl rfl)
  have hlisted : ∀ f ∈ b.manifest.files,
      f.path ∈ (S.signedManifest data ++ b.files.map fun f => (f.path, f.data)).map Prod.fst :=
    fun f hf => (mem_staged_iff hload).mpr (.inr (.inr (List.mem_map_of_mem hf)))
  -- what is staged is the manifest, its signatures that were taken, and the listed files
  constructor
  · intro h
    obtain ⟨result, w', content, b', hupdate, hinstalled, hload', hsame⟩ := h
    obtain ⟨files, verified, hstage, hin, hnamed⟩ := staged_of_update hchannel hfree hupdate
    have hdownload : download c opts call ts = .ok files := by
      simp only [stage, except_bind_eq_ok, Except.ok.injEq, Prod.mk.injEq] at hstage
      obtain ⟨files', hdownload, -, -, rfl, -⟩ := hstage
      exact hdownload
    obtain ⟨hfirst, hapart, rfl⟩ :=
      (download_dir_iff hsource hfree.fault hS hload hdata hnames).mp hdownload
    rw [hnames.bundle, hin] at hinstalled
    cases hinstalled
    refine ⟨hnames.bundle ▸ hnamed, hfirst, hapart, fun id hid => ?_⟩
    obtain ⟨name, hname, hstaged, hby⟩ := signed_of_staged hholds hdata hmanifest hload' id ((hsame id).mpr hid)
    refine ⟨name, hname, ((mem_staged_iff hload).mp hstaged).resolve_left fun heq => ?_, hby⟩
    exact manifestFile_not_mem (heq ▸ hname)
  -- every signer has a signature among the files taken, so the staged bundle verifies
  · intro h
    have hdownload := (download_dir_iff hsource hfree.fault hS hload hdata hnames).mpr ⟨h.first, h.apart, rfl⟩
    have hsigned : ∀ id ∈ b.signers, ∃ name ∈ signatureNames,
        name ∈ (S.signedManifest data ++ b.files.map fun f => (f.path, f.data)).map Prod.fst ∧
          SignedBy dir S data keys call.now name id := by
      intro id hid
      obtain ⟨name, hname, htaken, hby⟩ := h.signed id hid
      exact ⟨name, hname, (mem_staged_iff hload).mpr (.inr htaken), hby⟩
    have hstaged := loadBundle_staged hload hS hholds hdata hmanifest hlisted hsigned
    obtain ⟨verified, hverified, hm, hsha, hfiles, -⟩ := hstaged (joinPath opts.contentDir (stagingName call ts))
    have hcheck' : state.check verified (keys.minSequence verified.manifest.name) = .ok () := by
      unfold ContentState.check at hcheck ⊢
      rw [hm, hsha]
      exact hcheck
    have hstage := stage_of_download hfree hdownload hverified hcheck' (hvalid verified hm hsha hfiles)
    obtain ⟨result, w', hupdate, hin⟩ := update_of_staged hchannel hfree (hnames.bundle ▸ h.named) hstage
    obtain ⟨b', hload', -, -, -, hsame⟩ := hstaged (joinPath opts.contentDir b.manifest.name)
    exact ⟨result, w', _, b', hupdate, hnames.bundle ▸ hin, hload', hsame⟩

/-! ### Samples -/

/-- Files of which none lies below another are a directory of regular files. -/
theorem dirOf_coherent (h : ∀ f ∈ files, ∀ g ∈ files, pathComponents f.1 <+: pathComponents g.1 → f.1 = g.1) :
    (dirOf files).Coherent := by
  -- what can be read is one of the files
  have hread {path : String} {d : Bytes} : (dirOf files).read path = .ok d → ∃ f ∈ files, f.1 = path := by
    intro hd
    cases hfound : files.lookup path with
    | none =>
      rw [dirOf_read_none hfound] at hd
      cases hd
    | some d' =>
      obtain ⟨l₁, l₂, heq, -⟩ := List.lookup_eq_some_iff.mp hfound
      refine ⟨(path, d'), ?_, rfl⟩
      rw [heq]
      exact List.mem_append_right _ List.mem_cons_self
  refine ⟨fun path d hopen => ?_, fun p q d d' hp hq hprefix => ?_⟩
  · cases hfound : files.lookup path with
    | none =>
      rw [dirOf_openWith_none hfound] at hopen
      cases hopen
    | some d' =>
      rw [dirOf_openWith_some hfound] at hopen
      cases hopen
      exact dirOf_read_some hfound
  · obtain ⟨f, hf, rfl⟩ := hread hp
    obtain ⟨g, hg, rfl⟩ := hread hq
    exact h f hf g hg hprefix

/-- A mirror of the release, its signature under this name. -/
def mirrorFiles (signature : String) : List (String × Bytes) :=
  [("timestamp.json", channelJson), ("timestamp.json.minisig", "AAAAAAAAAAB4".toUTF8.data.toList),
    ("manifest.json", officialJson), (signature, "AAAAAAAAAABF".toUTF8.data.toList), ("NOTICE", [])]

def mirrorOptions (signature : String) : UpdateOptions plainMinisign :=
  { officialOptions with source := dirSource (dirOf (mirrorFiles signature)) }

def firstCall : UpdateCall := ⟨epoch, "0", "1", none⟩

def freshState : ContentState := ⟨"state.json", StateFile.empty⟩

theorem mirror_channel {signature : String}
    (hok : ((checkChannel (officialContent releasedCodec) (mirrorOptions signature) firstCall none).map fun _ => ()) =
      .ok ()) :
    checkChannel (officialContent releasedCodec) (mirrorOptions signature) firstCall none =
      .ok (freshState, zeroKeys [.content, .timestamp], channelTimestamp) := by
  obtain ⟨⟨state, keys, ts⟩, hchannel, -⟩ := except_map_eq_ok.mp hok
  obtain ⟨hopen, hkeys, hnamed, -⟩ := checkChannel_eq_ok hchannel
  have hstate : state = freshState := (Except.ok.inj hopen).symm
  have hts : NamedBy (officialContent releasedCodec) (mirrorOptions signature) channelTimestamp :=
    ⟨channelJson, rfl, by simp [officialContent]⟩
  rw [hchannel, hkeys, hstate, hnamed.unique hts]
  rfl

/-- The whole release, with its signature under the first name. -/
theorem directory_update_iff_mirror :
    Installs (officialContent releasedCodec) (mirrorOptions "manifest.json.minisig") firstCall ⟨∅, none⟩
        (zeroKeys [.content, .timestamp]) officialBundle ↔
      TakesAll (dirOf (mirrorFiles "manifest.json.minisig")) officialJson (zeroKeys [.content, .timestamp]) epoch
        "content/official" officialBundle := by
  -- the loader accepts the mirrored release
  have hload : loadBundle (officialContent releasedCodec).sha256 parseOfficial "content/official"
      (dirOf (mirrorFiles "manifest.json.minisig")) (zeroKeys [.content, .timestamp]) ⟨false, epoch⟩ =
        .ok officialBundle := by
    decide +kernel
  have hsaved : (stage (officialContent releasedCodec) (mirrorOptions "manifest.json.minisig") firstCall freshState
      (zeroKeys [.content, .timestamp]) channelTimestamp
      (joinPath "content" (stagingName firstCall channelTimestamp)) >>= fun staged =>
        ((releasedCodec.toVec (recordedState firstCall freshState staged.2 channelTimestamp).data).mapError
          UpdateError.mismatch).map fun _ => ()) = .ok () := by
    decide +kernel
  -- nothing is in the way: no old bundle, no fault, and a state that can be written
  have hfree : Unhindered (officialContent releasedCodec) (mirrorOptions "manifest.json.minisig") firstCall
      ⟨∅, none⟩ freshState (zeroKeys [.content, .timestamp]) channelTimestamp := by
    have hnone : (recover ∅ "official")["official"]? = none := by
      decide
    have htarget : (recover ∅ "official")["official"]? ≠ some (.link none) := by
      rw [hnone]
      exact fun h => nomatch h
    refine ⟨rfl, by decide, by decide, by decide, htarget, ?_⟩
    intro files verified hstage
    have hencoded := hsaved
    rw [show joinPath "content" = joinPath (mirrorOptions "manifest.json.minisig").contentDir from rfl, hstage,
      except_ok_bind] at hencoded
    obtain ⟨json, hjson, -⟩ := except_map_eq_ok.mp hencoded
    exact ⟨json, mapError_eq_ok.mp hjson⟩
  exact directory_update_iff rfl (dirOf_coherent (by decide))
    (mirror_channel (by decide +kernel)) hload (by decide +kernel) (fun _ _ _ _ => rfl) rfl
    ⟨rfl, rfl, rfl, by decide +kernel⟩ hfree

/-- The signature under a later name: the directory can be loaded, and the update finds no signature. -/
theorem late_signature_refused :
    ¬ (loadBundle (officialContent releasedCodec).sha256 parseOfficial "content/official"
          (dirOf (mirrorFiles "manifest.json.minisig.2")) (zeroKeys [.content, .timestamp]) ⟨false, epoch⟩ =
            .ok officialBundle →
        checkChannel (officialContent releasedCodec) (mirrorOptions "manifest.json.minisig.2") firstCall none =
          .ok (freshState, zeroKeys [.content, .timestamp], channelTimestamp) →
        freshState.check officialBundle ((zeroKeys [.content, .timestamp]).minSequence "official") = .ok () →
        Installs (officialContent releasedCodec) (mirrorOptions "manifest.json.minisig.2") firstCall ⟨∅, none⟩
          (zeroKeys [.content, .timestamp]) officialBundle) := by
  intro h
  have hrefused : (update (officialContent releasedCodec) (mirrorOptions "manifest.json.minisig.2") firstCall
      ⟨∅, none⟩).1 = .error (.missing "manifest.json.minisig") := by
    decide +kernel
  obtain ⟨result, w', _, _, hupdate, -⟩ :=
    h (by decide +kernel) (mirror_channel (by decide +kernel)) (by decide +kernel)
  rw [hupdate] at hrefused
  cases hrefused

end AbyssalWarden
